import ObjectLisp.Interp.Basic

/-!
# Arguments of built-in functions

What a built-in function expects of an argument.
-/

namespace ObjectLisp.Argument

/-- The elements of a proper list. -/
def list (value : Value) : Eval (List Value) :=
  match value.toList? with
  | some items => pure items
  | none => Eval.typeError "list" value

/-- A position: a non-negative fixnum. -/
def index (value : Value) : Eval Nat :=
  match value with
  | .int (.fixnum n) =>
      if 0 ≤ n.toInt then pure n.toInt.toNat else Eval.typeError "non-negative integer" value
  | other => Eval.typeError "non-negative integer" other

/-- A string. -/
def text (value : Value) : Eval String :=
  match value with
  | .str _ text => pure text
  | other => Eval.typeError "string" other

/-- A symbol. -/
def symbol (value : Value) : Eval SymbolId :=
  match value with
  | .symbol id => pure id
  | other => Eval.typeError "symbol" other

/-- A class. -/
def class_ (value : Value) : Eval ClassId :=
  match value with
  | .class_ id => pure id
  | other => Eval.typeError "class" other

/-- The number of a vector. -/
def vector (value : Value) : Eval Nat :=
  match value with
  | .vector index => pure index
  | other => Eval.typeError "vector" other

/-- A string, or the name of a symbol. -/
def name (value : Value) : Eval String :=
  match value with
  | .str _ text => pure text
  | .symbol id => Eval.nameOf id
  | other => Eval.typeError "string or symbol" other

end ObjectLisp.Argument
