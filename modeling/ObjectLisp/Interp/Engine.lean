import ObjectLisp.Interp.Basic

/-!
# The recursive parts of evaluation

Analysis, evaluation and calls refer to each other.  An engine holds the three
as functions; every part of the interpreter is written as a step that calls the
engine it is given.  Tying the steps together with a little less fuel each time
gives the engine that runs.
-/

namespace ObjectLisp

/-- What analysis knows about the surroundings of a form. -/
structure Context where
  scope : Scope := {}
  source : SourceMap := {}
  /-- The place of the macro call that a form without a place comes from. -/
  fallback : Option SourceLoc := none
deriving Inhabited

namespace Context

/-- The place of a form. -/
def locOf (context : Context) (form : Value) : Option SourceLoc :=
  (context.source.find? form).or context.fallback

/-- The context inside a frame with these names. -/
def push (context : Context) (names : List SymbolId) : Context :=
  { context with scope := context.scope.push names }

end Context

/-- Analysis, evaluation and calls. -/
structure Engine where
  /-- Bound for loops. -/
  fuel : Nat
  /-- Turn a form into an expression. -/
  analyze : Value → Context → Eval Expr
  /-- Evaluate an expression in a frame. -/
  eval : Expr → Option FrameId → Eval Value
  /-- Call a value with arguments; `loc` is where the call stands. -/
  apply : Value → List Value → (loc : Option SourceLoc) → Eval Value

namespace Engine

/-- The engine without fuel. -/
def empty : Engine where
  fuel := 0
  analyze _ _ := throw .spent
  eval _ _ := throw .spent
  apply _ _ _ := throw .spent

/-- Evaluate expressions from left to right. -/
def evalAll (engine : Engine) (env : Option FrameId) : List Expr → Eval (List Value)
  | [] => pure []
  | expr :: exprs => do
      let value ← engine.eval expr env
      let values ← engine.evalAll env exprs
      return value :: values

/-- Analyse forms from left to right. -/
def analyzeAll (engine : Engine) (context : Context) : List Value → Eval (List Expr)
  | [] => pure []
  | form :: forms => do
      let expr ← engine.analyze form context
      let exprs ← engine.analyzeAll context forms
      return expr :: exprs

end Engine

end ObjectLisp
