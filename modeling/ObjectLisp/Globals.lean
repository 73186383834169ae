import ObjectLisp.Value.Basic

/-!
# Global values

The global value of each symbol, by the number of the symbol.
-/

namespace ObjectLisp

/-- The values of global variables. -/
structure Globals where
  values : Array (Option Value) := #[]
deriving Inhabited

namespace Globals

/-- The value of a symbol. -/
def get? (globals : Globals) (symbol : SymbolId) : Option Value :=
  (globals.values[symbol]?).join

/-- Give a symbol a value. -/
def set (globals : Globals) (symbol : SymbolId) (value : Value) : Globals :=
  if symbol < globals.values.size then
    ⟨globals.values.setIfInBounds symbol (some value)⟩
  else
    ⟨(globals.values ++ Array.replicate (symbol - globals.values.size) none).push (some value)⟩

/-- A symbol that is given a value has it, and every other symbol keeps its own. -/
theorem get?_set (globals : Globals) (symbol other : SymbolId) (value : Value) :
    (globals.set symbol value).get? other =
      if symbol = other then some value else globals.get? other := by
  unfold set
  split
  · next inside =>
      unfold get?
      rw [Array.getElem?_setIfInBounds]
      by_cases same : symbol = other
      · subst same
        simp [inside]
      · simp [same]
  · next outside =>
      unfold get?
      rw [Array.getElem?_push, Array.getElem?_append]
      have size : (globals.values ++
          Array.replicate (symbol - globals.values.size) none).size = symbol := by
        rw [Array.size_append, Array.size_replicate]
        exact Nat.add_sub_cancel' (Nat.le_of_not_lt outside)
      rw [size]
      by_cases same : symbol = other
      · subst same
        simp
      · rw [if_neg (Ne.symm same), if_neg same]
        split
        · rfl
        · next beyond =>
            rw [Array.getElem?_eq_none (Nat.le_of_not_lt beyond), Array.getElem?_replicate]
            split <;> rfl

end Globals

end ObjectLisp
