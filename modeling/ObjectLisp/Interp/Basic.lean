import ObjectLisp.Arithmetic
import ObjectLisp.Counters
import ObjectLisp.DynamicStack
import ObjectLisp.Files
import ObjectLisp.Globals
import ObjectLisp.ReadTable
import ObjectLisp.Value.Printing
import ObjectLisp.Vocabulary

/-!
# The interpreter

All state of an interpreter is one value: symbols, globals, the heap, lexical
frames, dynamic bindings, classes, operators, and what it has written so far.

An evaluation takes that state to a new one and either gives a value or stops.
It stops because of a failure, or because its fuel is spent; in both cases the
state reached is kept.
-/

namespace ObjectLisp

/-- The default of a slot. -/
inductive SlotDefault where
  | constant (value : Value)
  /-- A function without parameters, called when the slot is first read. -/
  | computed (function : Value)
deriving Repr, Inhabited

/-- How an interpreter is set up. -/
structure Config where
  /-- Evaluate the prelude first. -/
  loadPrelude : Bool := true
  /-- Nested closure calls beyond this fail. -/
  maxDepth : Nat := 10000
  /-- The file name of texts that come from no file. -/
  sourceName : String := "<eval>"
  /-- The package that is current at the start. -/
  package : String := "user"
deriving Repr, DecidableEq, Inhabited

/-- The state of an interpreter. -/
structure Interp where
  symbols : SymbolStore := .initial
  words : Vocabulary := {}
  globals : Globals := {}
  heap : Heap := {}
  frames : FrameStore Value := {}
  dynamic : DynamicStack Value := {}
  classes : ClassSpace SlotDefault Value := {}
  operators : OperatorTable (OperatorMethod Value) := .builtin
  table : ReadTable := .standard
  /-- Does the host answer for members of its objects? -/
  host : Bool := false
  config : Config := {}
  /-- Number of closure calls that are running. -/
  depth : Nat := 0
  /-- The current package. -/
  package : PackageId := PackageId.system
  counters : Counters := {}
  /-- What was written since it was last taken. -/
  output : String := ""
  /-- Number of generated symbols. -/
  generated : Nat := 0
  files : Files := {}
deriving Inhabited

namespace Interp

/-- The text of a value in the current package. -/
def print (interp : Interp) (escape : Bool) (value : Value) : String :=
  Printer.print interp.symbols { escape, package := interp.package }
    (Value.shape interp.symbols interp.heap interp.classes interp.operators) value

/-- The texts of arguments between parentheses. -/
def printArguments (interp : Interp) (arguments : List Value) : String :=
  "(" ++ " ".intercalate (arguments.map (interp.print true)) ++ ")"

/-- The most calls that a report shows. -/
def reportedCalls : Nat := 20

/-- The line of a report for one call. -/
def describeCall (interp : Interp) (call : CallFrame) : String :=
  let text := " ".intercalate (call.callable :: call.arguments.map (interp.print true))
  match call.loc with
  | some loc => "\n  in (" ++ text ++ ") at " ++ loc.text
  | none => "\n  in (" ++ text ++ ")"

/-- A report of a failure: its cause and the calls that were left, innermost first. -/
def describe (interp : Interp) (failure : Failure) : String :=
  let frames := failure.frames
  let shown := String.join ((frames.take reportedCalls).map interp.describeCall)
  let more :=
    if reportedCalls < frames.length then
      "\n  ... " ++ toString (frames.length - reportedCalls) ++ " more frames"
    else ""
  "error: " ++ failure.cause.message ++ shown ++ more

end Interp

/-- Why an evaluation stops without a value. -/
inductive Stop where
  | failure (failure : Failure)
  /-- The fuel is used up. -/
  | spent

/-- An evaluation. -/
abbrev Eval := EStateM Stop Interp

namespace Eval

/-- Fail because of a cause. -/
def fail {α : Type} (cause : Cause) : Eval α := throw (.failure { cause })

/-- Continue with a result, or fail. -/
def lift {α : Type} : Except Cause α → Eval α
  | .ok value => pure value
  | .error cause => fail cause

/-- A value of another type was expected. -/
def typeError {α : Type} (expected : String) (found : Value) : Eval α :=
  fail (.typeError expected found)

/-- Run `after` at the end, whether the evaluation gives a value or stops. -/
def finally_ {α : Type} (action : Eval α) (after : Interp → Interp) : Eval α := fun interp =>
  match action interp with
  | .ok value interp => .ok value (after interp)
  | .error stop interp => .error stop (after interp)

/-- The state in which an evaluation ends, whatever its outcome. -/
def final {α : Type} : EStateM.Result Stop Interp α → Interp
  | .ok _ interp => interp
  | .error _ interp => interp

/-! ## The heap -/

/-- Use the heap. -/
def heap {α : Type} (action : Heap → α × Heap) : Eval α := fun interp =>
  let (value, heap) := action interp.heap
  .ok value { interp with heap }

/-- A new cell. -/
def cons (car cdr : Value) : Eval Value := heap (·.cons car cdr)

/-- A new string. -/
def str (text : String) : Eval Value := heap (·.str text)

/-- A new list in front of a tail. -/
def listWithTail (items : List Value) (tail : Value) : Eval Value :=
  heap (·.listWithTail items tail)

/-- A new list. -/
def list (items : List Value) : Eval Value := listWithTail items .null

/-- A new vector. -/
def vector (items : List Value) : Eval Value := heap (·.newVector items.toArray)

/-- The instance of a number. -/
def instance_ (index : Nat) : Eval Instance := fun interp =>
  .ok (interp.heap.objects.getD index default) interp

/-! ## Symbols -/

/-- The name of a symbol. -/
def nameOf (symbol : SymbolId) : Eval String := fun interp =>
  .ok (interp.symbols.nameOf symbol) interp

/-- Fail unless the global value of a symbol may be changed. -/
def checkAssignable (symbol : SymbolId) : Eval Unit := fun interp =>
  match interp.symbols.assignmentProblem? symbol with
  | none => .ok () interp
  | some problem => .error (.failure { cause := .binding problem }) interp

/-- Give a symbol a global value. -/
def setGlobal (symbol : SymbolId) (value : Value) : Eval Unit :=
  modify fun interp => { interp with globals := interp.globals.set symbol value }

/-- Intern a name as it is written in the current package. -/
def intern (name : String) : Eval SymbolId := fun interp =>
  match interp.symbols.intern name interp.package with
  | .ok (symbol, symbols) => .ok symbol { interp with symbols }
  | .error missing => .error (.failure { cause := .user ("unknown package " ++ missing) }) interp

/-- Fail because a variable has no value. -/
def unbound {α : Type} (symbol : SymbolId) : Eval α := do
  fail (.binding (.unbound (← nameOf symbol)))

/-! ## Printing -/

/-- The text of a value. -/
def print (escape : Bool) (value : Value) : Eval String := fun interp =>
  .ok (interp.print escape value) interp

/-- Write a text. -/
def write (text : String) : Eval Unit :=
  modify fun interp => { interp with output := interp.output ++ text }

/-! ## Closures -/

/-- Keep a frame and the frames around it as long as a closure refers to them. -/
def pin : Option FrameId → Eval Unit
  | some frame => modify fun interp => { interp with frames := interp.frames.pin frame }
  | none => pure ()

/-- Make a closure over a frame; its number. -/
def close (template : Template Expr) (env : Option FrameId) : Eval Nat := do
  pin env
  heap (·.newClosure { template, env })

/-- The closure of a number. -/
def closure (index : Nat) : Eval Closure := fun interp =>
  .ok (interp.heap.closures.getD index default) interp

end Eval

end ObjectLisp
