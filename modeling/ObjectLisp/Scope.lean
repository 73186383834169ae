import ObjectLisp.Symbol.Basic

/-!
# Lexical scopes

While a form is analysed, its scope lists the names of the frames that will
surround it at run time, innermost frame first.  Looking a name up gives the
address of its slot in that chain of frames.
-/

namespace ObjectLisp

/-- Address of a slot: how many frames outwards, and the position there. -/
structure Address where
  level : Nat
  index : Nat
deriving Repr, DecidableEq, Inhabited

/-- The names of the surrounding frames, innermost first. -/
structure Scope where
  frames : List (List SymbolId) := []
deriving Repr, DecidableEq, Inhabited

namespace Scope

/-- Add an innermost frame. -/
def push (scope : Scope) (names : List SymbolId) : Scope := ⟨names :: scope.frames⟩

/-- Drop the innermost frame. -/
def pop (scope : Scope) : Scope := ⟨scope.frames.tail⟩

/-- Is there no surrounding frame? -/
def isTopLevel (scope : Scope) : Bool := scope.frames.isEmpty

/-- The last position of a name in a frame. -/
def lastIndex? (symbol : SymbolId) : List SymbolId → Option Nat
  | [] => none
  | name :: names =>
      match lastIndex? symbol names with
      | some index => some (index + 1)
      | none => if name = symbol then some 0 else none

/-- The address of a name in a chain of frames. -/
def addressIn (symbol : SymbolId) : List (List SymbolId) → Option Address
  | [] => none
  | names :: outer =>
      match lastIndex? symbol names with
      | some index => some ⟨0, index⟩
      | none => (addressIn symbol outer).map fun found => ⟨found.level + 1, found.index⟩

/-- The address of a name: in the innermost frame that has it, its last position there.  A name
without an address is global. -/
def address? (scope : Scope) (symbol : SymbolId) : Option Address :=
  addressIn symbol scope.frames

end Scope

end ObjectLisp
