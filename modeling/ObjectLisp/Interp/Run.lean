import ObjectLisp.Interp.Analysis
import ObjectLisp.Interp.Dispatch
import ObjectLisp.Interp.Evaluate
import ObjectLisp.Library.Call

/-!
# The engine that runs

Each step of analysis, evaluation or application works with the engine of one
unit of fuel less.  A run that ends has the same result with any greater amount
of fuel.
-/

namespace ObjectLisp

/-- Call a value. -/
def Call.value (engine : Engine) (function : Value) (arguments : List Value)
    (loc : Option SourceLoc) : Eval Value := do
  match function with
  | .closure index => Call.closure engine index arguments loc
  | .primitive primitive => Library.call engine primitive arguments
  | .operator id => Dispatch.apply engine id arguments
  | .nextMethod index =>
      Behavior.callNext engine index (if arguments.isEmpty then none else some arguments) loc
  | .class_ id => Object.make engine id arguments
  | other => Eval.fail (.notCallable (← Eval.print true other))

namespace Engine

/-- The engine with an amount of fuel. -/
def ofFuel : Nat → Engine
  | 0 => empty
  | fuel + 1 =>
      { fuel
        analyze := fun form context => Analysis.analyze (ofFuel fuel) form context
        eval := fun expr env => Evaluate.eval (ofFuel fuel) expr env
        apply := fun function arguments loc => Call.value (ofFuel fuel) function arguments loc }

/-- More fuel than any run can use up. -/
def ample : Nat := Nat.pow 2 60

end Engine

end ObjectLisp
