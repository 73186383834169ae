import ObjectLisp.Interp.Engine

/-!
# Behaviors

Calling a behavior runs the method chain of the receiver's class.  Every method
gets, in front of the arguments, a continuation that says where the next call
lands: around methods first, then the core with its before and after methods,
then the further primary methods.  A call past the last method gives null.
-/

namespace ObjectLisp.Behavior

/-- The method chain of a behavior for a class. -/
def find (class_ : ClassId) (name : String) : Eval (Option (MethodChain Value)) := fun interp =>
  let (chain, built, classes) := interp.classes.chain class_ name
  let counters := if built then
      { interp.counters with chainBuilds := interp.counters.chainBuilds + 1 }
    else interp.counters
  .ok chain { interp with classes, counters }

/-- The class whose behaviors a receiver has. -/
def classOf? (heap : Heap) : Value → Option ClassId
  | .object index => (heap.objects[index]?).map (·.membership.effective)
  | .class_ id => some id
  | _ => none

/-- The chain of a behavior for a receiver. -/
def chainFor (receiver : Value) (name : String) : Eval (Option (MethodChain Value)) :=
  fun interp =>
    match classOf? interp.heap receiver with
    | some class_ => find class_ name interp
    | none => .ok none interp

/-- Does a receiver have a behavior? -/
def has (receiver : Value) (name : String) : Eval Bool := do
  return (← chainFor receiver name).isSome

/-- Call a method with a continuation in front of the arguments. -/
def callWith (engine : Engine) (method : Value) (next : Continuation Value)
    (arguments : List Value) (loc : Option SourceLoc) : Eval Value := do
  let next ← Eval.heap (·.newContinuation next)
  engine.apply method (next :: arguments) loc

/-- Call methods one after the other for their effects.  They have no next method. -/
def callAll (engine : Engine) (chain : MethodChain Value) (arguments : List Value)
    (loc : Option SourceLoc) : List Value → Eval Unit
  | [] => pure ()
  | method :: methods => do
      let _ ← callWith engine method { chain, cursor := none, arguments } arguments loc
      callAll engine chain arguments loc methods

/-- Call the method at a position of a chain.  Past the end the value is null. -/
def callAt (engine : Engine) (chain : MethodChain Value) (position : Nat)
    (arguments : List Value) (loc : Option SourceLoc) : Eval Value :=
  match chain.entries[position]? with
  | some method =>
      callWith engine method { chain, cursor := some (position + 1), arguments } arguments loc
  | none => pure .null

/-- Run the core of a chain: before methods, the first primary method, after methods. -/
def runCore (engine : Engine) (chain : MethodChain Value) (arguments : List Value)
    (loc : Option SourceLoc) : Eval Value := do
  callAll engine chain arguments loc chain.befores
  let value ← callAt engine chain chain.core arguments loc
  callAll engine chain arguments loc chain.afters
  return value

/-- Run a chain from a position on. -/
def run (engine : Engine) (chain : MethodChain Value) (position : Option Nat)
    (arguments : List Value) (loc : Option SourceLoc) : Eval Value :=
  match position with
  | none => pure .null
  | some position =>
      if position = chain.core then runCore engine chain arguments loc
      else callAt engine chain position arguments loc

/-- Fail because a receiver does not have a behavior. -/
def missing (name : String) (receiver : Value) (arguments : List Value) : Eval Value :=
  fun interp =>
    let class_ := match classOf? interp.heap receiver with
      | some id => interp.classes.nameOf id
      | none => receiver.typeName
    Eval.fail (.noBehavior name class_ (interp.printArguments arguments)) interp

/-- Call a behavior.  The first argument is the receiver. -/
def invoke (engine : Engine) (name : String) (arguments : List Value) (loc : Option SourceLoc) :
    Eval Value := do
  let receiver := arguments.headD .null
  match ← chainFor receiver name with
  | some chain => run engine chain (some 0) arguments loc
  | none => missing name receiver arguments

/-- Call the next method of a continuation, with the arguments of the current call if none are
given. -/
def callNext (engine : Engine) (index : Nat) (arguments : Option (List Value))
    (loc : Option SourceLoc) : Eval Value := fun interp =>
  match interp.heap.continuations[index]? with
  | some next =>
      run engine next.chain next.cursor (arguments.getD next.arguments) loc interp
  | none => .ok .null interp

end ObjectLisp.Behavior
