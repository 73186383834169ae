import Mathlib.Data.List.Perm.Subperm
import Mathlib.Data.List.ProdSigma
import ObjectLisp.Proofs.Evaluation.Holdings
import ObjectLisp.Value.Equality

/-!
# Structural equality is bisimilarity

Two values are bisimilar if no path leads from them to two values that differ at
first sight.  A path goes from cells to their heads and tails and from vectors to
their items, so in vectors that contain themselves there are paths of any length.

The comparison of two values takes a pair of vectors for equal that is being
compared further out.  It ends, since every level of vectors adds a new pair, and
what it takes for granted is right: a difference behind a pair of vectors would be
found, at the end of a shorter path, where this pair was met first.
-/

namespace ObjectLisp

/-! ## Cells -/

/-- Every cell of the value holds what is recorded for its identity. -/
def Value.Over (cells : Array (Value × Value)) : Value → Prop
  | .cons id car cdr => cells[id]? = some (car, cdr) ∧ car.Over cells ∧ cdr.Over cells
  | _ => True

/-- Further cells change nothing for a value. -/
theorem Value.Over.push {cells : Array (Value × Value)} {value : Value} (covered : value.Over cells)
    (cell : Value × Value) : value.Over (cells.push cell) := by
  induction value with
  | cons id car cdr carIh cdrIh =>
      obtain ⟨found, left, right⟩ := covered
      have inside : id < cells.size := (Array.getElem?_eq_some_iff.mp found).1
      refine ⟨?_, carIh left, cdrIh right⟩
      rw [Array.getElem?_push_lt inside, ← found, Array.getElem?_eq_getElem inside]
  | _ => trivial

/-- No part of the value is a float, as far as cells lead. -/
def Value.withoutFloats : Value → Bool
  | .float _ => false
  | .cons _ car cdr => car.withoutFloats && cdr.withoutFloats
  | _ => true

namespace Heap

/-- Every cell in a vector holds what is recorded for its identity. -/
def Over (heap : Heap) (cells : Array (Value × Value)) : Prop :=
  ∀ index, ∀ item ∈ heap.items index, item.Over cells

/-! ## Paths -/

/-- One step into a value. -/
inductive Access where
  | car
  | cdr
  | item (position : Nat)

/-- What a value shows at first sight: that it is a cell, the length of a vector, or which atom it
is.  Integers show their value and strings their text. -/
inductive Face where
  | cell
  | vector (length : Nat)
  | number (value : Int)
  | text (text : String)
  | atom (value : Value)

/-- The part that an access finds. -/
def part? (heap : Heap) : Access → Value → Option Value
  | .car, .cons _ car _ => some car
  | .cdr, .cons _ _ cdr => some cdr
  | .item position, .vector index => (heap.items index)[position]?
  | _, _ => none

/-- The value that a path leads to. -/
def follow? (heap : Heap) : List Access → Value → Option Value
  | [], value => some value
  | access :: path, value => (heap.part? access value).bind (heap.follow? path)

/-- What a value shows at first sight. -/
def face (heap : Heap) : Value → Face
  | .cons .. => .cell
  | .vector index => .vector (heap.items index).size
  | .int value => .number value.toInt
  | .str _ text => .text text
  | atom => .atom atom

/-- No path leads to two values that differ at first sight. -/
def Bisimilar (heap : Heap) (a b : Value) : Prop :=
  ∀ path x y, heap.follow? path a = some x → heap.follow? path b = some y →
    heap.face x = heap.face y

/-- No path leads to a float. -/
def FloatFree (heap : Heap) (value : Value) : Prop :=
  ∀ path number, heap.follow? path value ≠ some (.float number)

/-- A value whose cells are those recorded, and from which no path leads to a float. -/
structure Plain (heap : Heap) (cells : Array (Value × Value)) (value : Value) : Prop where
  covered : value.Over cells
  floatFree : heap.FloatFree value

variable {heap : Heap} {cells : Array (Value × Value)} {a b c : Value}

/-- What a value shows says which parts it has. -/
def Face.has : Face → Access → Bool
  | .cell, .car | .cell, .cdr => true
  | .vector length, .item position => position < length
  | _, _ => false

theorem isSome_part? {access : Access} {value : Value} :
    (heap.part? access value).isSome ↔ (heap.face value).has access := by
  cases access <;> cases value <;> simp [part?, face, Face.has]

theorem FloatFree.part {access : Access} {x : Value} (free : heap.FloatFree a)
    (found : heap.part? access a = some x) : heap.FloatFree x := by
  intro path number leads
  apply free (access :: path) number
  rw [follow?, found]
  exact leads

theorem over_part (covered : heap.Over cells) {access : Access} {x : Value} (above : a.Over cells)
    (found : heap.part? access a = some x) : x.Over cells := by
  cases access <;> cases a <;> simp only [part?, Option.some.injEq, reduceCtorEq] at found
  · exact found ▸ above.2.1
  · exact found ▸ above.2.2
  · exact covered _ x (Array.mem_of_getElem? found)

theorem Plain.part (covered : heap.Over cells) {access : Access} {x : Value}
    (plain : heap.Plain cells a) (found : heap.part? access a = some x) : heap.Plain cells x :=
  ⟨over_part covered plain.covered found, plain.floatFree.part found⟩

theorem items_of_size_le {index : Nat} (outside : ¬ index < heap.vectors.size) :
    heap.items index = #[] := by
  simp [items, Array.getD, outside]

/-- Where the vectors hold no floats, paths lead to the floats of a value itself at most. -/
theorem floatFree_of_withoutFloats (vectors : heap.vectors.all (·.all Value.withoutFloats))
    (without : a.withoutFloats) : heap.FloatFree a := by
  intro path
  induction path generalizing a with
  | nil =>
      intro number same
      cases same
      cases without
  | cons access path ih =>
      intro number leads
      obtain ⟨part, found, leads⟩ := Option.bind_eq_some_iff.mp leads
      refine ih ?_ number leads
      cases access <;> cases a <;> simp only [part?, Option.some.injEq, reduceCtorEq] at found
      · exact found ▸ ((Bool.and_eq_true _ _).mp without).1
      · exact found ▸ ((Bool.and_eq_true _ _).mp without).2
      · rename_i position index
        by_cases inside : index < heap.vectors.size
        · have items := Array.all_eq_true.mp vectors index inside
          have same : heap.items index = heap.vectors[index] := by simp [Heap.items, inside]
          rw [same] at found
          exact Array.all_eq_true'.mp items part (Array.mem_of_getElem? found)
        · rw [items_of_size_le inside] at found
          simp at found

/-! ### Values that a program makes -/

/-- A heap, and values that a program has at hand there.  It starts with nothing, takes atoms and
the parts of values, makes cells, strings and vectors, and changes items of vectors. -/
inductive Made : Heap → List Value → Prop where
  | start : Made {} []
  | atom {heap : Heap} {values : List Value} (made : Made heap values) (value : Value)
      (atom : heap.face value ≠ .cell) : Made heap (value :: values)
  | part {heap : Heap} {values : List Value} {value part : Value} {access : Access}
      (made : Made heap values) (member : value ∈ values)
      (found : heap.part? access value = some part) : Made heap (part :: values)
  | cons {heap : Heap} {values : List Value} (made : Made heap values) (car cdr : Value)
      (left : car ∈ values) (right : cdr ∈ values) :
      Made (heap.cons car cdr).2 ((heap.cons car cdr).1 :: values)
  | str {heap : Heap} {values : List Value} (made : Made heap values) (text : String) :
      Made (heap.str text).2 ((heap.str text).1 :: values)
  | vector {heap : Heap} {values : List Value} (made : Made heap values) (items : Array Value)
      (members : ∀ item ∈ items, item ∈ values) :
      Made (heap.newVector items).2 ((heap.newVector items).1 :: values)
  | put {heap : Heap} {values : List Value} (made : Made heap values) (index position : Nat)
      (value : Value) (member : value ∈ values) :
      Made { heap with
        vectors := heap.vectors.modify index (·.setIfInBounds position value) } values

/-- Every value at hand lies over the same cells, one for each identity given out so far. -/
theorem Made.covered {values : List Value} (made : heap.Made values) :
    ∃ cells : Array (Value × Value), cells.size = heap.nextId ∧ heap.Over cells ∧
      ∀ value ∈ values, value.Over cells := by
  induction made with
  | start => exact ⟨#[], rfl, by simp [Over, items], by simp⟩
  | atom made value atom ih =>
      obtain ⟨cells, size, covered, all⟩ := ih
      refine ⟨cells, size, covered, List.forall_mem_cons.mpr ⟨?_, all⟩⟩
      cases value with
      | cons => exact absurd rfl atom
      | _ => trivial
  | part made member found ih =>
      obtain ⟨cells, size, covered, all⟩ := ih
      exact ⟨cells, size, covered,
        List.forall_mem_cons.mpr ⟨over_part covered (all _ member) found, all⟩⟩
  | cons made car cdr left right ih =>
      obtain ⟨cells, size, covered, all⟩ := ih
      have all := fun value member => (all value member).push (car, cdr)
      refine ⟨cells.push (car, cdr), by simp [Heap.cons, size], ?_,
        List.forall_mem_cons.mpr ⟨⟨?_, all car left, all cdr right⟩, all⟩⟩
      · exact fun index item member => (covered index item member).push (car, cdr)
      · simp [← size]
  | str made text ih =>
      obtain ⟨cells, size, covered, all⟩ := ih
      refine ⟨cells.push default, by simp [Heap.str, size], ?_,
        List.forall_mem_cons.mpr ⟨trivial, fun value member => (all value member).push _⟩⟩
      exact fun index item member => (covered index item member).push _
  | vector made items members ih =>
      obtain ⟨cells, size, covered, all⟩ := ih
      refine ⟨cells, size, ?_, List.forall_mem_cons.mpr ⟨trivial, all⟩⟩
      intro index item member
      rcases mem_items_push member with old | new
      · exact covered index item old
      · exact all item (members item new)
  | put made index position value member ih =>
      obtain ⟨cells, size, covered, all⟩ := ih
      refine ⟨cells, size, ?_, all⟩
      intro other item found
      rcases mem_items_modify found with old | rfl
      · exact covered other item old
      · exact all _ member

/-! ## Bisimilarity -/

namespace Bisimilar

theorem refl (heap : Heap) (a : Value) : heap.Bisimilar a a := by
  intro path x y toX toY
  rw [Option.some.inj (toX.symm.trans toY)]

theorem symm (similar : heap.Bisimilar a b) : heap.Bisimilar b a :=
  fun path x y toX toY => (similar path y x toY toX).symm

theorem face (similar : heap.Bisimilar a b) : heap.face a = heap.face b :=
  similar [] a b rfl rfl

theorem part (similar : heap.Bisimilar a b) {access : Access} {x y : Value}
    (toX : heap.part? access a = some x) (toY : heap.part? access b = some y) :
    heap.Bisimilar x y := by
  intro path x' y' fromX fromY
  apply similar (access :: path) x' y'
  · rw [follow?, toX]
    exact fromX
  · rw [follow?, toY]
    exact fromY

/-- Bisimilar values have the same paths. -/
theorem follows (similar : heap.Bisimilar a b) {path : List Access} {x : Value}
    (leads : heap.follow? path a = some x) : ∃ y, heap.follow? path b = some y := by
  induction path generalizing a b with
  | nil => exact ⟨b, rfl⟩
  | cons access path ih =>
      obtain ⟨x', toX, fromX⟩ := Option.bind_eq_some_iff.mp leads
      have has : (heap.part? access b).isSome := by
        rw [isSome_part?, ← similar.face, ← isSome_part?, toX]
        rfl
      obtain ⟨y', toY⟩ := Option.isSome_iff_exists.mp has
      obtain ⟨y, fromY⟩ := ih (similar.part toX toY) fromX
      exact ⟨y, by rw [follow?, toY]; exact fromY⟩

theorem trans (left : heap.Bisimilar a b) (right : heap.Bisimilar b c) :
    heap.Bisimilar a c := by
  intro path x z toX toZ
  obtain ⟨y, toY⟩ := left.follows toX
  exact (left path x y toX toY).trans (right path y z toY toZ)

end Bisimilar

/-- No path up to a length leads to two values that differ at first sight. -/
def AgreeTo (heap : Heap) : (depth : Nat) → Value → Value → Prop
  | 0, a, b => heap.face a = heap.face b
  | depth + 1, a, b => heap.face a = heap.face b ∧
      ∀ access x y, heap.part? access a = some x → heap.part? access b = some y →
        AgreeTo heap depth x y

namespace AgreeTo

theorem face {depth : Nat} (agree : heap.AgreeTo depth a b) : heap.face a = heap.face b := by
  cases depth with
  | zero => exact agree
  | succ depth => exact agree.1

theorem refl (heap : Heap) (depth : Nat) (a : Value) : heap.AgreeTo depth a a := by
  induction depth generalizing a with
  | zero => rfl
  | succ depth ih =>
      refine ⟨rfl, ?_⟩
      intro access x y toX toY
      rw [Option.some.inj (toX.symm.trans toY)]
      exact ih y

theorem shorter {depth : Nat} (agree : heap.AgreeTo (depth + 1) a b) :
    heap.AgreeTo depth a b := by
  induction depth generalizing a b with
  | zero => exact agree.1
  | succ depth ih =>
      exact ⟨agree.1, fun access x y toX toY => ih (agree.2 access x y toX toY)⟩

end AgreeTo

theorem bisimilar_of_agreeTo (agree : ∀ depth, heap.AgreeTo depth a b) :
    heap.Bisimilar a b := by
  intro path
  induction path generalizing a b with
  | nil =>
      rintro x y ⟨⟩ ⟨⟩
      exact agree 0
  | cons access path ih =>
      intro x y toX toY
      obtain ⟨x', first, toX⟩ := Option.bind_eq_some_iff.mp toX
      obtain ⟨y', first', toY⟩ := Option.bind_eq_some_iff.mp toY
      exact ih (fun depth => (agree (depth + 1)).2 access x' y' first first') x y toX toY

/-! ## How two values are compared -/

/-- Has the comparison of two values parts to go into? -/
def branch : Value → Value → Bool
  | .cons .., .cons .. => true
  | .vector _, .vector _ => true
  | _, _ => false

/-- Values that have the same kind of parts are compared part by part. -/
theorem branch_of_part? {access : Access} {x y : Value} (toX : heap.part? access a = some x)
    (toY : heap.part? access b = some y) : branch a b = true := by
  cases access <;> cases a <;> simp only [part?, reduceCtorEq] at toX <;>
    cases b <;> simp only [part?, reduceCtorEq] at toY <;> rfl

/-- The comparison of two values, without any bound, comes to an answer: from left to right, while
the pairs of vectors that are compared further out are active. -/
inductive Compares (heap : Heap) : (active : List (Nat × Nat)) → Value → Value → Bool → Prop where
  | sameCell {active : List (Nat × Nat)} {id : Identity} {car cdr car' cdr' : Value} :
      Compares heap active (.cons id car cdr) (.cons id car' cdr') true
  | carsDiffer {active : List (Nat × Nat)} {id id' : Identity} {car cdr car' cdr' : Value}
      (different : id ≠ id') (cars : Compares heap active car car' false) :
      Compares heap active (.cons id car cdr) (.cons id' car' cdr') false
  | carsAgree {active : List (Nat × Nat)} {id id' : Identity} {car cdr car' cdr' : Value}
      {answer : Bool} (different : id ≠ id') (cars : Compares heap active car car' true)
      (cdrs : Compares heap active cdr cdr' answer) :
      Compares heap active (.cons id car cdr) (.cons id' car' cdr') answer
  | sameVector {active : List (Nat × Nat)} {a : Nat} :
      Compares heap active (.vector a) (.vector a) true
  | activePair {active : List (Nat × Nat)} {a b : Nat} (member : (a, b) ∈ active) :
      Compares heap active (.vector a) (.vector b) true
  | lengthsDiffer {active : List (Nat × Nat)} {a b : Nat} (different : a ≠ b)
      (inactive : (a, b) ∉ active) (lengths : (heap.items a).size ≠ (heap.items b).size) :
      Compares heap active (.vector a) (.vector b) false
  | itemsAgree {active : List (Nat × Nat)} {a b : Nat} (different : a ≠ b)
      (inactive : (a, b) ∉ active) (lengths : (heap.items a).size = (heap.items b).size)
      (items : ∀ (position : Nat) (x y : Value), (heap.items a)[position]? = some x →
        (heap.items b)[position]? = some y → Compares heap ((a, b) :: active) x y true) :
      Compares heap active (.vector a) (.vector b) true
  | itemsDiffer {active : List (Nat × Nat)} {a b : Nat} (position : Nat) {x y : Value}
      (different : a ≠ b) (inactive : (a, b) ∉ active)
      (lengths : (heap.items a).size = (heap.items b).size)
      (before : ∀ (earlier : Nat) (x y : Value), earlier < position →
        (heap.items a)[earlier]? = some x → (heap.items b)[earlier]? = some y →
          Compares heap ((a, b) :: active) x y true)
      (left : (heap.items a)[position]? = some x) (right : (heap.items b)[position]? = some y)
      (items : Compares heap ((a, b) :: active) x y false) :
      Compares heap active (.vector a) (.vector b) false
  | leaves {active : List (Nat × Nat)} {a b : Value} (leaves : branch a b = false) :
      Compares heap active a b (a.equalWith (fun _ _ => false) b)

/-! ### It ends -/

/-- Atoms are compared in the same way whatever vectors are. -/
theorem equalWith_leaves (vectors vectors' : Nat → Nat → Bool) (leaves : branch a b = false) :
    a.equalWith vectors b = a.equalWith vectors' b := by
  cases a <;> cases b <;> first | rfl | cases leaves

theorem compares_equalWith {active : List (Nat × Nat)} {vectors : Nat → Nat → Bool}
    (compared : ∀ a b, heap.Compares active (.vector a) (.vector b) (vectors a b))
    (a b : Value) : heap.Compares active a b (a.equalWith vectors b) := by
  have others : ∀ {a b}, branch a b = false →
      heap.Compares active a b (a.equalWith vectors b) := by
    intro a b leaves
    rw [equalWith_leaves vectors (fun _ _ => false) leaves]
    exact .leaves leaves
  induction a generalizing b with
  | cons id car cdr carIh cdrIh =>
      cases b with
      | cons id' car' cdr' =>
          unfold Value.equalWith
          by_cases same : id = id'
          · subst same
            simpa using Compares.sameCell
          · cases cars : car.equalWith vectors car' with
            | false => simpa [same] using .carsDiffer same (cars ▸ carIh car')
            | true => simpa [same] using .carsAgree same (cars ▸ carIh car') (cdrIh cdr')
      | _ => exact others rfl
  | vector a =>
      cases b with
      | vector b => exact compared a b
      | _ => exact others rfl
  | _ => exact others rfl

/-- Lists of the same length have equal members, or there is a first pair that differs. -/
theorem equalMembers_cases (equal : Value → Value → Bool) {as bs : List Value}
    (lengths : as.length = bs.length) :
    Value.equalMembers equal as bs = true ∧
        (∀ (position : Nat) (x y : Value), as[position]? = some x → bs[position]? = some y →
          equal x y = true) ∨
      Value.equalMembers equal as bs = false ∧
        ∃ (position : Nat) (x y : Value), as[position]? = some x ∧ bs[position]? = some y ∧
          equal x y = false ∧ ∀ (earlier : Nat) (x y : Value), earlier < position →
            as[earlier]? = some x → bs[earlier]? = some y → equal x y = true := by
  induction as generalizing bs with
  | nil =>
      cases bs with
      | nil => exact .inl ⟨rfl, by simp⟩
      | cons b bs => cases lengths
  | cons a as ih =>
      cases bs with
      | nil => cases lengths
      | cons b bs =>
          unfold Value.equalMembers
          cases first : equal a b with
          | false => exact .inr ⟨rfl, 0, a, b, rfl, rfl, first, by simp⟩
          | true =>
              rcases ih (Nat.succ.inj lengths) with
                ⟨same, all⟩ | ⟨different, position, x, y, left, right, differ, before⟩
              · refine .inl ⟨by simp [same], ?_⟩
                intro position x y left right
                cases position with
                | zero =>
                    cases left
                    cases right
                    exact first
                | succ position => exact all position x y left right
              · refine .inr ⟨by simp [different], position + 1, x, y, left, right, differ, ?_⟩
                intro earlier x y less left right
                cases earlier with
                | zero =>
                    cases left
                    cases right
                    exact first
                | succ earlier => exact before earlier x y (Nat.lt_of_succ_lt_succ less) left right

/-- Distinct pairs of vectors are at most as many as there are pairs. -/
theorem length_active_le {active : List (Nat × Nat)} {size : Nat} (distinct : active.Nodup)
    (within : ∀ pair ∈ active, pair.1 < size ∧ pair.2 < size) :
    active.length ≤ size * size := by
  have inside : active ⊆ List.range size ×ˢ List.range size := by
    intro pair member
    rw [List.mem_product, List.mem_range, List.mem_range]
    exact within pair member
  have bounded := (List.subperm_of_subset distinct inside).length_le
  simpa [List.length_product] using bounded

/-- While the budget exceeds the number of pairs that are not active, it has no part in the
answer. -/
theorem compares_equalVectors {budget : Nat} {active : List (Nat × Nat)}
    (distinct : active.Nodup)
    (within : ∀ pair ∈ active, pair.1 < heap.vectors.size ∧ pair.2 < heap.vectors.size)
    (enough : heap.vectors.size * heap.vectors.size < budget + active.length) (a b : Nat) :
    heap.Compares active (.vector a) (.vector b) (Value.equalVectors heap budget active a b) := by
  induction budget generalizing active a b with
  | zero =>
      have bounded := length_active_le distinct within
      omega
  | succ budget ih =>
      unfold Value.equalVectors
      by_cases same : a = b
      · subst same
        simpa using Compares.sameVector
      by_cases member : (a, b) ∈ active
      · simpa [member] using Compares.activePair member
      by_cases lengths : (heap.items a).size = (heap.items b).size
      · by_cases inside : a < heap.vectors.size ∧ b < heap.vectors.size
        · have deeper := ih (List.nodup_cons.mpr ⟨member, distinct⟩)
            (List.forall_mem_cons.mpr ⟨inside, within⟩) (by simp only [List.length_cons]; omega)
          have members := compares_equalWith deeper
          have lists : (heap.items a).toList.length = (heap.items b).toList.length := lengths
          rcases equalMembers_cases
              (Value.equalWith (Value.equalVectors heap budget ((a, b) :: active))) lists with
            ⟨answer, all⟩ | ⟨answer, position, x, y, left, right, differ, before⟩
          · have agree : heap.Compares active (.vector a) (.vector b) true := by
              refine .itemsAgree same member lengths ?_
              intro position x y left right
              rw [← all position x y (by simpa using left) (by simpa using right)]
              exact members x y
            simpa [same, member, lengths, answer] using agree
          · have disagree : heap.Compares active (.vector a) (.vector b) false := by
              refine .itemsDiffer position same member lengths ?_ (by simpa using left)
                (by simpa using right) (differ ▸ members x y)
              intro earlier x y less left right
              rw [← before earlier x y less (by simpa using left) (by simpa using right)]
              exact members x y
            simpa [same, member, lengths, answer] using disagree
        · -- A vector that is not there has no items, so neither has the other one.
          have empty : heap.items a = #[] ∧ heap.items b = #[] := by
            rcases Decidable.not_and_iff_or_not.mp inside with outside | outside
            · have none := items_of_size_le outside
              exact ⟨none, by simpa [none] using lengths.symm⟩
            · have none := items_of_size_le outside
              exact ⟨by simpa [none] using lengths, none⟩
          have agree : heap.Compares active (.vector a) (.vector b) true :=
            .itemsAgree same member lengths (by simp [empty])
          simpa [same, member, empty, Value.equalMembers] using agree
      · simpa [same, member, lengths] using Compares.lengthsDiffer same member lengths

theorem compares_equal (heap : Heap) (a b : Value) :
    heap.Compares [] a b (Value.equal heap a b) :=
  compares_equalWith (compares_equalVectors .nil (by simp) (by simp)) a b

/-! ### Its answer is right -/

/-- Atoms that are no floats are equal if they show the same. -/
theorem equalWith_leaves_iff (heap : Heap) (leaves : branch a b = false)
    (left : ∀ number, a ≠ .float number) (right : ∀ number, b ≠ .float number) :
    a.equalWith (fun _ _ => false) b = true ↔ heap.face a = heap.face b := by
  cases a <;> cases b <;> simp_all [branch, Value.equalWith, Value.same, face]

namespace FloatFree

theorem ne_float (free : heap.FloatFree a) (number : Float) : a ≠ .float number := by
  intro same
  exact free [] number (congrArg some same)

end FloatFree

/-- If the answer is yes, the values agree to any depth to which the active pairs do: what a pair of
vectors needs of itself is agreement to a smaller depth. -/
theorem Compares.agreeTo (covered : heap.Over cells) {active : List (Nat × Nat)} {answer : Bool}
    (compares : heap.Compares active a b answer) (yes : answer = true)
    (left : heap.Plain cells a) (right : heap.Plain cells b) (depth : Nat)
    (assumed : ∀ pair ∈ active, heap.AgreeTo depth (.vector pair.1) (.vector pair.2)) :
    heap.AgreeTo depth a b := by
  induction compares generalizing depth with
  | sameCell =>
      have same := Option.some.inj (left.covered.1.symm.trans right.covered.1)
      cases same
      exact .refl heap depth _
  | carsDiffer => cases yes
  | carsAgree different _ _ carIh cdrIh =>
      cases depth with
      | zero => rfl
      | succ depth =>
          have shorter := fun pair member => (assumed pair member).shorter
          refine ⟨rfl, ?_⟩
          intro access x y toX toY
          have leftPart := left.part covered toX
          have rightPart := right.part covered toY
          cases access with
          | car =>
              cases toX
              cases toY
              exact carIh rfl leftPart rightPart depth shorter
          | cdr =>
              cases toX
              cases toY
              exact cdrIh yes leftPart rightPart depth shorter
          | item position => cases toX
  | sameVector => exact .refl heap depth _
  | activePair member => exact assumed _ member
  | lengthsDiffer => cases yes
  | itemsAgree different inactive lengths items ih =>
      induction depth with
      | zero => exact congrArg Face.vector lengths
      | succ depth itself =>
          have shorter := fun pair member => (assumed pair member).shorter
          refine ⟨congrArg Face.vector lengths, ?_⟩
          intro access x y toX toY
          have leftPart := left.part covered toX
          have rightPart := right.part covered toY
          cases access with
          | item position =>
              exact ih position x y toX toY rfl leftPart rightPart depth
                (List.forall_mem_cons.mpr ⟨itself shorter, shorter⟩)
          | car => cases toX
          | cdr => cases toX
  | itemsDiffer => cases yes
  | leaves leaves =>
      have same := (equalWith_leaves_iff heap leaves left.floatFree.ne_float
        right.floatFree.ne_float).mp yes
      cases depth with
      | zero => exact same
      | succ depth =>
          refine ⟨same, ?_⟩
          intro access x y toX toY
          rw [branch_of_part? toX toY] at leaves
          cases leaves

/-- If the answer is no, a path leads to a difference. -/
theorem Compares.not_bisimilar {active : List (Nat × Nat)} {answer : Bool}
    (compares : heap.Compares active a b answer) (no : answer = false)
    (left : heap.FloatFree a) (right : heap.FloatFree b) : ¬ heap.Bisimilar a b := by
  intro similar
  induction compares with
  | sameCell => cases no
  | @carsDiffer active id id' car cdr car' cdr' different cars ih =>
      have toCar : heap.part? .car (.cons id car cdr) = some car := rfl
      have toCar' : heap.part? .car (.cons id' car' cdr') = some car' := rfl
      exact ih rfl (left.part toCar) (right.part toCar') (similar.part toCar toCar')
  | @carsAgree active id id' car cdr car' cdr' answer different cars cdrs _ ih =>
      have toCdr : heap.part? .cdr (.cons id car cdr) = some cdr := rfl
      have toCdr' : heap.part? .cdr (.cons id' car' cdr') = some cdr' := rfl
      exact ih no (left.part toCdr) (right.part toCdr') (similar.part toCdr toCdr')
  | sameVector => cases no
  | activePair => cases no
  | lengthsDiffer different inactive lengths => exact lengths (Face.vector.inj similar.face)
  | itemsAgree => cases no
  | @itemsDiffer active a b position x y different inactive lengths before toX toY items _ ih =>
      have toItem : heap.part? (.item position) (.vector a) = some x := toX
      have toItem' : heap.part? (.item position) (.vector b) = some y := toY
      exact ih rfl (left.part toItem) (right.part toItem') (similar.part toItem toItem')
  | leaves leaves =>
      have same :=
        (equalWith_leaves_iff heap leaves left.ne_float right.ne_float).mpr similar.face
      rw [same] at no
      cases no

theorem equal_iff_bisimilar (covered : heap.Over cells) (left : heap.Plain cells a)
    (right : heap.Plain cells b) : Value.equal heap a b = true ↔ heap.Bisimilar a b := by
  have compares := compares_equal heap a b
  constructor
  · intro yes
    exact bisimilar_of_agreeTo fun depth => compares.agreeTo covered yes left right depth (by simp)
  · intro similar
    cases answer : Value.equal heap a b with
    | true => rfl
    | false => exact absurd similar (compares.not_bisimilar answer left.floatFree right.floatFree)

/-- Structural equality is bisimilarity.  The comparison of any two values comes to an answer
without the bound on its depth.  The answer is yes exactly if no path leads from the two values to
a difference, provided that the values and the vectors lie over the same cells and that no path
leads from them to a float.  So it is an equivalence of such values. -/
theorem equality_is_bisimilarity (covered : heap.Over cells) :
    (∀ a b, heap.Compares [] a b (Value.equal heap a b)) ∧
    (∀ a b, heap.Plain cells a → heap.Plain cells b →
      (Value.equal heap a b = true ↔ heap.Bisimilar a b)) ∧
    Equivalence fun a b : { value : Value // heap.Plain cells value } =>
      Value.equal heap a b = true := by
  refine ⟨compares_equal heap, fun a b => equal_iff_bisimilar covered, ?_, ?_, ?_⟩
  · rintro ⟨a, left⟩
    exact (equal_iff_bisimilar covered left left).mpr (.refl heap a)
  · rintro ⟨a, left⟩ ⟨b, right⟩ same
    have similar := (equal_iff_bisimilar covered left right).mp same
    exact (equal_iff_bisimilar covered right left).mpr similar.symm
  · rintro ⟨a, left⟩ ⟨b, middle⟩ ⟨c, right⟩ same same'
    have similar := (equal_iff_bisimilar covered left middle).mp same
    have similar' := (equal_iff_bisimilar covered middle right).mp same'
    exact (equal_iff_bisimilar covered left right).mpr (similar.trans similar')

section Rings

/-- A cell that leads on to a vector. -/
private def link (id number next : Nat) : Value := .cons id (.ofNat number) (.vector next)

/-- Vectors that contain themselves behind a cell: one leads back to itself, two lead to each other
in turn, and two more do so with another number. -/
private def rings : Heap where
  nextId := 5
  vectors := #[#[link 0 1 0], #[link 1 1 2], #[link 2 1 1], #[link 3 1 4], #[link 4 2 3]]

private theorem rings_made : ∃ values, rings.Made values ∧
    Value.vector 0 ∈ values ∧ Value.vector 1 ∈ values ∧ Value.vector 3 ∈ values := by
  have numbers := (Made.start.atom (.ofNat 1) (by simp [face, Value.ofNat])).atom (.ofNat 2)
    (by simp [face, Value.ofNat])
  have vectors := ((((numbers.vector #[.ofNat 1] (by simp)).vector #[.ofNat 1] (by simp)).vector
    #[.ofNat 1] (by simp)).vector #[.ofNat 1] (by simp)).vector #[.ofNat 1] (by simp)
  simp only [newVector] at vectors
  have cells := ((((vectors.cons (.ofNat 1) (.vector 0) (by simp) (by simp)).cons
    (.ofNat 1) (.vector 2) (by simp) (by simp)).cons
    (.ofNat 1) (.vector 1) (by simp) (by simp)).cons
    (.ofNat 1) (.vector 4) (by simp) (by simp)).cons
    (.ofNat 2) (.vector 3) (by simp) (by simp)
  simp only [Heap.cons] at cells
  have rings := ((((cells.put 0 0 (link 0 1 0) (by simp [link])).put
    1 0 (link 1 1 2) (by simp [link])).put 2 0 (link 2 1 1) (by simp [link])).put
    3 0 (link 3 1 4) (by simp [link])).put 4 0 (link 4 2 3) (by simp [link])
  exact ⟨_, rings, by simp, by simp, by simp⟩

private theorem rings_plain {cells : Array (Value × Value)} {index : Nat} :
    rings.Plain cells (.vector index) := by
  have vectors : rings.vectors.all (·.all Value.withoutFloats) := by decide +kernel
  exact ⟨trivial, floatFree_of_withoutFloats vectors rfl⟩

theorem equality_is_bisimilarity_on_rings : ∃ cells, rings.Over cells ∧
    rings.Plain cells (.vector 0) ∧ rings.Plain cells (.vector 1) ∧
    rings.Plain cells (.vector 3) ∧
    Value.equal rings (.vector 0) (.vector 1) = true ∧
    Value.equal rings (.vector 0) (.vector 3) = false ∧
    rings.Bisimilar (.vector 0) (.vector 1) ∧ ¬ rings.Bisimilar (.vector 0) (.vector 3) := by
  obtain ⟨values, made, _⟩ := rings_made
  obtain ⟨cells, _, covered, _⟩ := made.covered
  obtain ⟨_, answers, _⟩ := equality_is_bisimilarity covered
  have yes : Value.equal rings (.vector 0) (.vector 1) = true := by decide +kernel
  have no : Value.equal rings (.vector 0) (.vector 3) = false := by decide +kernel
  refine ⟨cells, covered, rings_plain, rings_plain, rings_plain, yes, no,
    (answers _ _ rings_plain rings_plain).mp yes, ?_⟩
  rw [← answers _ _ rings_plain rings_plain, no]
  decide

end Rings

end Heap

end ObjectLisp
