import ObjectLisp.Interp.Engine

/-!
# Calls of closures

A call binds the arguments to the slots of a new frame and evaluates the body
there.  It counts towards the depth of calls while it runs, and a failure that
leaves it notes the call.
-/

namespace ObjectLisp

namespace Call

/-- The name of a closure in reports. -/
def name (symbols : SymbolStore) (closure : Closure) : String :=
  match closure.template.name with
  | some symbol => symbols.nameOf symbol
  | none => "lambda"

/-- Is the first parameter the hidden one of methods? -/
def isMethod (words : Vocabulary) (closure : Closure) : Bool :=
  match closure.template.params.list with
  | param :: _ => param.name = words.nextMethod
  | [] => false

/-- The arguments as the caller wrote them, without the continuation of a method. -/
def visibleArguments (words : Vocabulary) (closure : Closure) (arguments : List Value) :
    List Value :=
  match arguments with
  | .nextMethod _ :: rest => if isMethod words closure then rest else arguments
  | _ => arguments

/-! ## Binding arguments -/

/-- Fail because of the number of arguments. -/
def wrongArity {α : Type} (closure : Closure) (found : Nat) : Eval α := fun interp =>
  Eval.fail (.wrongArity (name interp.symbols closure) closure.template.params.arity.text found)
    interp

/-- The value announced by a keyword among pairs of keywords and values. -/
def keywordValue? (keyword : Option SymbolId) : List Value → Option Value
  | .symbol symbol :: value :: rest =>
      if some symbol = keyword then some value else keywordValue? keyword rest
  | _ :: _ :: rest => keywordValue? keyword rest
  | _ => none

/-- The value of a parameter that the call does not give. -/
def defaultArgument (engine : Engine) (env : Option FrameId) : Option Expr → Eval Value
  | some expr => engine.eval expr env
  | none => pure .null

/-- The list of the remaining arguments. -/
def restArgument (remaining : List Value) : Eval Value := do
  modify fun interp =>
    { interp with counters.restLists := interp.counters.restLists + 1 }
  Eval.list remaining

/-- The value of one parameter.  `positional` is the argument at its position. -/
def argument (engine : Engine) (env : Option FrameId) (remaining : List Value)
    (positional : Option Value) (param : Param Expr) : Eval Value :=
  match param.kind with
  | .required => pure (positional.getD .null)
  | .optional =>
      match positional with
      | some value => pure value
      | none => defaultArgument engine env param.init
  | .keyword =>
      match keywordValue? param.keyword remaining with
      | some value => pure value
      | none => defaultArgument engine env param.init
  | .rest => restArgument remaining

/-- The values of the parameters in order.  `rest` are the arguments from the position of the
first parameter on. -/
def bindAll (engine : Engine) (env : Option FrameId) (remaining : List Value) :
    (rest : List Value) → List (Param Expr) → Eval (List Value)
  | _, [] => pure []
  | rest, param :: params => do
      let value ← argument engine env remaining rest.head? param
      let values ← bindAll engine env remaining rest.tail params
      return value :: values

/-- Bind arguments where optional, keyword or rest parameters take part. -/
def bindGeneral (engine : Engine) (closure : Closure) (arguments : List Value) :
    Eval (List Value) := do
  let params := closure.template.params
  modify fun interp =>
    { interp with counters.generalCalls := interp.counters.generalCalls + 1 }
  let positional := params.required + params.optional
  let found := arguments.length
  if found < params.required || (!params.isOpen && positional < found) then
    wrongArity closure found
  else
    let remaining := arguments.drop positional
    if 0 < params.keywords && remaining.length % 2 ≠ 0 then
      Eval.fail (.unpairedKeyword remaining.length)
    else
      bindAll engine closure.env remaining arguments params.list

/-- The slots of the frame of a call. -/
def bind (engine : Engine) (closure : Closure) (arguments : List Value) : Eval (List Value) := do
  let params := closure.template.params
  if params.isSimple then
    if arguments.length ≠ params.required then
      wrongArity closure arguments.length
    else
      modify fun interp =>
        { interp with counters.fastCalls := interp.counters.fastCalls + 1 }
      return arguments
  else
    bindGeneral engine closure arguments

/-! ## Running the body -/

/-- A new frame. -/
def alloc (slots : List Value) (parent : Option FrameId) : Eval FrameId := fun interp =>
  let (frame, frames) := interp.frames.alloc slots.toArray parent
  .ok frame { interp with frames }

/-- Evaluate an expression in a new frame and give the frame back afterwards. -/
def inFrame (engine : Engine) (slots : List Value) (parent : Option FrameId) (body : Expr) :
    Eval Value := do
  let frame ← alloc slots parent
  Eval.finally_ (engine.eval body (some frame)) fun interp =>
    { interp with frames := interp.frames.release frame }

/-- Bind the arguments and evaluate the body. -/
def body (engine : Engine) (closure : Closure) (arguments : List Value) : Eval Value := do
  let slots ← bind engine closure arguments
  inFrame engine slots closure.env closure.template.body

/-- The note that a failure gets when it leaves a call. -/
def callFrame (interp : Interp) (closure : Closure) (arguments : List Value)
    (loc : Option SourceLoc) : CallFrame where
  loc
  callable := name interp.symbols closure
  arguments := visibleArguments interp.words closure arguments

/-- Call a closure. -/
def closure (engine : Engine) (index : Nat) (arguments : List Value) (loc : Option SourceLoc) :
    Eval Value := fun interp =>
  if interp.config.maxDepth ≤ interp.depth then
    Eval.fail (.depthExceeded interp.config.maxDepth) interp
  else
    let closure := interp.heap.closures.getD index default
    match body engine closure arguments { interp with depth := interp.depth + 1 } with
    | .ok value interp => .ok value { interp with depth := interp.depth - 1 }
    | .error (.failure failure) interp =>
        .error (.failure (failure.addCall (callFrame interp closure arguments loc)))
          { interp with depth := interp.depth - 1 }
    | .error .spent interp => .error .spent { interp with depth := interp.depth - 1 }

end Call

end ObjectLisp
