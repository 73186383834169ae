import ObjectLisp.Interp.Call
import ObjectLisp.Interp.Member

/-!
# Evaluation

The value of an expression in a frame.  Definitions check whether a name may be
defined before they evaluate anything, constants afterwards.  Dynamic bindings
and frames end with the expression that made them, also when it fails.
-/

namespace ObjectLisp.Evaluate

/-! ## Variables -/

/-- The value of a slot. -/
def localValue (env : Option FrameId) (address : Address) (name : SymbolId) : Eval Value :=
  fun interp =>
    match interp.frames.get? env address.level address.index with
    | some value => .ok value interp
    | none => Eval.unbound name interp

/-- The value of a global variable. -/
def globalValue (name : SymbolId) : Eval Value := fun interp =>
  match interp.globals.get? name with
  | some value => .ok value interp
  | none => Eval.unbound name interp

/-- The value of a dynamic variable: the latest binding, or else the global value. -/
def dynamicValue (name : SymbolId) : Eval Value := fun interp =>
  match interp.dynamic.lookup name with
  | some value => .ok value interp
  | none => globalValue name interp

/-- Assign a slot. -/
def assignLocal (env : Option FrameId) (address : Address) (value : Value) : Eval Unit :=
  modify fun interp =>
    { interp with frames := (interp.frames.set env address.level address.index value).2 }

/-- Assign a global variable, which must have a value. -/
def assignGlobal (name : SymbolId) (value : Value) : Eval Unit := fun interp =>
  match interp.globals.get? name with
  | some _ => .ok () { interp with globals := interp.globals.set name value }
  | none => Eval.unbound name interp

/-- Assign a dynamic variable: the latest binding, or else the global value. -/
def assignDynamic (name : SymbolId) (value : Value) : Eval Unit := fun interp =>
  match interp.dynamic.assign? name value with
  | some dynamic => .ok () { interp with dynamic }
  | none => assignGlobal name value interp

/-! ## Sequences -/

/-- Evaluate expressions until one is true; the last value. -/
def orElse (engine : Engine) (env : Option FrameId) (last : Value) : List Expr → Eval Value
  | [] => pure last
  | expr :: exprs => do
      let value ← engine.eval expr env
      if value.isTrue then return value else orElse engine env value exprs

/-- Evaluate expressions until one is not true; the last value. -/
def andThen (engine : Engine) (env : Option FrameId) (last : Value) : List Expr → Eval Value
  | [] => pure last
  | expr :: exprs => do
      let value ← engine.eval expr env
      if value.isTrue then andThen engine env value exprs else return value

/-- Evaluate expressions one after the other; the last value. -/
def sequence (engine : Engine) (env : Option FrameId) (last : Value) : List Expr → Eval Value
  | [] => pure last
  | expr :: exprs => do
      let value ← engine.eval expr env
      sequence engine env value exprs

/-- Evaluate `body` as long as `test` is true. -/
def loop (engine : Engine) (env : Option FrameId) (test body : Expr) : (fuel : Nat) → Eval Value
  | 0 => throw .spent
  | fuel + 1 => do
      if (← engine.eval test env).isTrue then
        let _ ← engine.eval body env
        loop engine env test body fuel
      else
        return .null

/-! ## Bindings -/

/-- Evaluate the forms of dynamic bindings. -/
def dynamicInits (engine : Engine) (env : Option FrameId) :
    List (SymbolId × Expr) → Eval (List (SymbolId × Value))
  | [] => pure []
  | (name, init) :: bindings => do
      let value ← engine.eval init env
      let rest ← dynamicInits engine env bindings
      return (name, value) :: rest

/-- Evaluate an expression under dynamic bindings. -/
def underBindings (engine : Engine) (env : Option FrameId)
    (bindings : List (SymbolId × Value)) (body : Expr) : Eval Value := fun interp =>
  let height := interp.dynamic.height
  let interp := { interp with dynamic := interp.dynamic.pushAll bindings }
  Eval.finally_ (engine.eval body env)
    (fun interp => { interp with dynamic := interp.dynamic.unwind height }) interp

/-! ## Data -/

/-- The elements of lists one after the other. -/
def joined : List Value → Eval (List Value)
  | [] => pure []
  | part :: parts => do
      match part.toList? with
      | some items => return items ++ (← joined parts)
      | none => Eval.typeError "list" part

/-- Build a data structure.  Joining lists shares the last one. -/
def construct : Construction → List Value → Eval Value
  | .list, values => Eval.list values
  | .append, values => do
      Eval.listWithTail (← joined values.dropLast) (values.getLastD .null)
  | .vector, values => do
      let list := values.getLastD .null
      match list.toList? with
      | some items => Eval.vector items
      | none => Eval.typeError "list" list

/-! ## Classes and methods -/

/-- Evaluate the parents of a class. -/
def parents (engine : Engine) (env : Option FrameId) : List Expr → Eval (List ClassId)
  | [] => pure []
  | expr :: exprs => do
      match ← engine.eval expr env with
      | .class_ id => return id :: (← parents engine env exprs)
      | other => Eval.typeError "class" other

/-- Make the defaults of slots. -/
def slotDefaults (env : Option FrameId) :
    List (String × SlotInit Expr) → Eval (List (String × SlotDefault))
  | [] => pure []
  | (name, .constant value) :: slots => do
      return (name, .constant value) :: (← slotDefaults env slots)
  | (name, .computed template) :: slots => do
      let function ← Eval.close template env
      return (name, .computed (.closure function)) :: (← slotDefaults env slots)

/-- Define a class. -/
def defineClass (name : SymbolId) (parents : List ClassId)
    (slots : List (String × SlotDefault)) : Eval Value := fun interp =>
  let (result, classes) := interp.classes.define (interp.symbols.nameOf name) parents slots
  let interp := { interp with classes }
  match result with
  | .ok id => .ok (.class_ id) { interp with globals := interp.globals.set name (.class_ id) }
  | .error problem => Eval.fail (.user problem.message) interp

/-- Give a class, or an instance alone, a method made in a frame. -/
def defineBehavior (env : Option FrameId) (target : Value) (name : String) (qualifier : Qualifier)
    (method : Template Expr) : Eval Value := do
  let class_ ← Object.target target
  let method := .closure (← Eval.close method env)
  modify fun interp =>
    { interp with classes := interp.classes.addBehavior class_ name qualifier method }
  return method

/-- Make a symbol a constant. -/
def makeConstant (name : SymbolId) : Eval Unit := fun interp =>
  match interp.symbols.makeConstant name with
  | .ok symbols => .ok () { interp with symbols }
  | .error problem => Eval.fail (.binding problem) interp

/-- Evaluate the arguments for the next method, if there are any. -/
def nextArguments (engine : Engine) (env : Option FrameId) :
    Option (List Expr) → Eval (Option (List Value))
  | some exprs => return some (← engine.evalAll env exprs)
  | none => pure none

/-! ## Expressions -/

/-- Evaluate an expression in a frame. -/
def eval (engine : Engine) (expr : Expr) (env : Option FrameId) : Eval Value := do
  match expr with
  | .literal value => return value
  | .local_ address name => localValue env address name
  | .global name => globalValue name
  | .dynamic name => dynamicValue name
  | .if_ test yes no =>
      if (← engine.eval test env).isTrue then engine.eval yes env else engine.eval no env
  | .or parts => orElse engine env .null parts
  | .and parts => andThen engine env (.bool true) parts
  | .block parts => sequence engine env .null parts
  | .while_ test body => loop engine env test body engine.fuel
  | .lambda template => return .closure (← Eval.close template env)
  | .defMacro name template =>
      Eval.checkAssignable name
      let index ← Eval.close template env
      Eval.setGlobal name (.expander index)
      return .symbol name
  | .def_ name value =>
      Eval.checkAssignable name
      let value ← engine.eval value env
      Eval.setGlobal name value
      return .symbol name
  | .defConstant name value =>
      let value ← engine.eval value env
      makeConstant name
      Eval.setGlobal name value
      return .symbol name
  | .setLocal address value =>
      let value ← engine.eval value env
      assignLocal env address value
      return value
  | .setGlobal name value =>
      let value ← engine.eval value env
      assignGlobal name value
      return value
  | .setDynamic name value =>
      let value ← engine.eval value env
      assignDynamic name value
      return value
  | .setMember name object value _ =>
      let object ← engine.eval object env
      let value ← engine.eval value env
      Member.assign engine object name value
  | .dynamicLet bindings body =>
      underBindings engine env (← dynamicInits engine env bindings) body
  | .let_ inits body => Call.inFrame engine (← engine.evalAll env inits) env body
  | .apply callee arguments loc =>
      let function ← engine.eval callee env
      let arguments ← engine.evalAll env arguments
      engine.apply function arguments loc
  | .member name object arguments loc =>
      let object ← engine.eval object env
      let arguments ← engine.evalAll env arguments
      Member.access engine object name arguments loc
  | .callNext next arguments loc =>
      match ← engine.eval next env with
      | .nextMethod index =>
          Behavior.callNext engine index (← nextArguments engine env arguments) loc
      | _ => Eval.fail (.user "call-next-method outside of a behavior call")
  | .hasNext next =>
      match ← engine.eval next env with
      | .nextMethod index =>
          return .bool (((← get).heap.continuations[index]?).any Continuation.hasNext)
      | _ => return .bool false
  | .construct construction parts => construct construction (← engine.evalAll env parts)
  | .defClass name parentList slots =>
      Eval.checkAssignable name
      let parentIds ← parents engine env parentList
      let defaults ← slotDefaults env slots
      defineClass name parentIds defaults
  | .defBehavior target name qualifier method =>
      defineBehavior env (← engine.eval target env) name qualifier method

end ObjectLisp.Evaluate
