import ObjectLisp.Interp.Engine

/-!
# Operators at work

An operator combines two operands by the method that their types select.  How
it treats other numbers of arguments is a matter of its shape.
-/

namespace ObjectLisp.Dispatch

/-- Count a selection: a search of the table, or a remembered choice. -/
def count (searched : Bool) (counters : Counters) : Counters :=
  if searched then { counters with operatorScans := counters.operatorScans + 1 }
  else { counters with operatorHits := counters.operatorHits + 1 }

/-- Select the method of an operator for two operands. -/
def select (id : OperatorId) (a b : TypeTag) : Eval (Option (OperatorMethod Value)) :=
  fun interp =>
    let known := (interp.operators.get? id).any fun operator => operator.cache.contains (a, b)
    let (method, operators) := interp.operators.select id a b
    .ok method { interp with operators, counters := count (!known) interp.counters }

/-- Apply a built-in method. -/
def native (method : NativeMethod) (a b : Value) : Eval Value := fun interp =>
  match Arithmetic.run interp.heap method a b with
  | .ok (value, heap) => .ok value { interp with heap }
  | .error cause => Eval.fail cause interp

/-- Fail because no method applies. -/
def noMethod (operator : String) (a b : Value) : Eval Value := fun interp =>
  Eval.fail (.noApplicableMethod operator (interp.printArguments [a, b])) interp

/-- Combine two operands. -/
def binary (engine : Engine) (id : OperatorId) (operator : String) (a b : Value) :
    Eval Value := do
  match ← select id a.tag b.tag with
  | some (.native method) => native method a b
  | some (.function function) => engine.apply function [a, b] none
  | none => noMethod operator a b

/-- Combine from the left. -/
def fold (engine : Engine) (id : OperatorId) (operator : String) (first : Value) :
    List Value → Eval Value
  | [] => pure first
  | next :: rest => do
      let value ← binary engine id operator first next
      fold engine id operator value rest

/-- Compare neighbours until a comparison does not hold. -/
def chain (engine : Engine) (id : OperatorId) (operator : String) (first : Value) :
    List Value → Eval Value
  | [] => pure (.bool true)
  | next :: rest => do
      if (← binary engine id operator first next).isTrue then
        chain engine id operator next rest
      else
        return .bool false

/-- Apply an operator of a given shape. -/
def applyShape (engine : Engine) (id : OperatorId) (operator : String) :
    OperatorShape → List Value → Eval Value
  | .binary, [a, b] => binary engine id operator a b
  | .binary, arguments => Eval.fail (.wrongArity operator "2" arguments.length)
  | .chain, [] => Eval.fail (.wrongArity operator "at least 1" 0)
  | .chain, first :: rest => chain engine id operator first rest
  | .fold (some empty) _, [] => pure (.int (.ofInt empty))
  | .fold none _, [] => Eval.fail (.wrongArity operator "at least 1" 0)
  | .fold _ (some unary), [single] => binary engine id operator (.int (.ofInt unary)) single
  | .fold _ none, [single] => pure single
  | .fold _ _, first :: rest => fold engine id operator first rest

/-- Apply an operator to any number of arguments. -/
def apply (engine : Engine) (id : OperatorId) (arguments : List Value) : Eval Value :=
  fun interp =>
    match interp.operators.get? id with
    | some operator => applyShape engine id operator.name operator.shape arguments interp
    | none => Eval.fail (.notCallable ("operator " ++ toString id)) interp

end ObjectLisp.Dispatch
