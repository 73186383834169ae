import ObjectLisp.Heap

/-!
# Values that are lists

A value lists elements in front of a tail if it consists of one cell for each of
them.  A proper list is one with the empty list as its tail.
-/

namespace ObjectLisp

namespace Value

/-- The value lists elements in front of a tail. -/
inductive Lists (tail : Value) : List Value → Value → Prop where
  | nil : Lists tail [] tail
  | cons {items : List Value} {rest : Value} (id : Identity) (item : Value)
      (lists : Lists tail items rest) : Lists tail (item :: items) (.cons id item rest)

theorem collect_eq_some_iff {taken items : List Value} {value : Value} :
    value.collect taken = some items ↔
      ∃ more, items = taken.reverse ++ more ∧ Lists .null more value := by
  induction value generalizing taken with
  | null =>
      constructor
      · intro found
        cases found
        exact ⟨[], by simp, .nil⟩
      · rintro ⟨more, rfl, lists⟩
        cases lists
        simp [collect]
  | cons id car cdr _ ih =>
      unfold collect
      rw [ih]
      constructor
      · rintro ⟨more, rfl, lists⟩
        exact ⟨car :: more, by simp, .cons id car lists⟩
      · rintro ⟨more, rfl, lists⟩
        cases lists with
        | cons _ _ lists => exact ⟨_, by simp, lists⟩
  | _ =>
      constructor
      · intro found
        cases found
      · rintro ⟨more, rfl, lists⟩
        cases lists

/-- A value is a proper list of elements if it lists them in front of the empty list. -/
theorem toList?_eq_some_iff {items : List Value} {value : Value} :
    value.toList? = some items ↔ Lists .null items value := by
  unfold toList?
  rw [collect_eq_some_iff]
  constructor
  · rintro ⟨more, rfl, lists⟩
    exact lists
  · intro lists
    exact ⟨items, rfl, lists⟩

theorem Lists.append {tail middle value : Value} {items more : List Value}
    (front : Lists middle items value) (back : Lists tail more middle) :
    Lists tail (items ++ more) value := by
  induction front with
  | nil => exact back
  | cons id item _ ih => exact .cons id item ih

end Value

namespace Heap

theorem lists_consReversed (heap : Heap) (tail : Value) (items : List Value) :
    Value.Lists tail items.reverse (heap.consReversed tail items).1 := by
  induction items generalizing heap tail with
  | nil => exact .nil
  | cons item items ih =>
      rw [List.reverse_cons]
      exact (ih _ _).append (.cons _ item .nil)

/-- A new list lists its elements. -/
theorem lists_listWithTail (heap : Heap) (items : List Value) (tail : Value) :
    Value.Lists tail items (heap.listWithTail items tail).1 := by
  have lists := heap.lists_consReversed tail items.reverse
  rwa [List.reverse_reverse] at lists

end Heap

end ObjectLisp
