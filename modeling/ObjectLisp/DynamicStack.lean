import ObjectLisp.Symbol.Basic

/-!
# Dynamic variables

Bindings of dynamic variables are pushed on a stack when a binding form is
entered and popped back to the height it had before when the form is left.  The
innermost binding of a symbol is the one that is read and assigned.
-/

namespace ObjectLisp

universe u

/-- A stack of bindings, innermost first. -/
structure DynamicStack (α : Type u) where
  bindings : List (SymbolId × α) := []
deriving Repr, Inhabited

namespace DynamicStack

variable {α : Type u}

/-- Number of bindings. -/
def height (stack : DynamicStack α) : Nat := stack.bindings.length

/-- Bind a symbol. -/
def push (stack : DynamicStack α) (symbol : SymbolId) (value : α) : DynamicStack α :=
  ⟨(symbol, value) :: stack.bindings⟩

/-- Bind several symbols from left to right. -/
def pushAll (stack : DynamicStack α) (bindings : List (SymbolId × α)) : DynamicStack α :=
  bindings.foldl (fun stack binding => stack.push binding.1 binding.2) stack

/-- Drop bindings until `height` of them are left. -/
def unwind (stack : DynamicStack α) (height : Nat) : DynamicStack α :=
  ⟨stack.bindings.drop (stack.height - height)⟩

/-- The innermost value of a symbol in a list of bindings. -/
def lookupIn (symbol : SymbolId) : List (SymbolId × α) → Option α
  | [] => none
  | (bound, value) :: rest => if bound = symbol then some value else lookupIn symbol rest

/-- The innermost value of a symbol. -/
def lookup (stack : DynamicStack α) (symbol : SymbolId) : Option α :=
  lookupIn symbol stack.bindings

/-- Replace the innermost value of a symbol in a list of bindings. -/
def assignIn (symbol : SymbolId) (value : α) :
    List (SymbolId × α) → Option (List (SymbolId × α))
  | [] => none
  | (bound, old) :: rest =>
      if bound = symbol then some ((bound, value) :: rest)
      else (assignIn symbol value rest).map ((bound, old) :: ·)

/-- Assign the innermost binding of a symbol, if it is bound. -/
def assign? (stack : DynamicStack α) (symbol : SymbolId) (value : α) : Option (DynamicStack α) :=
  (assignIn symbol value stack.bindings).map DynamicStack.mk

end DynamicStack

end ObjectLisp
