import ObjectLisp.Interp.Quasi

/-!
# Analysis

Analysis turns a form into an expression.  It resolves every name once, to the
address of a slot, a dynamic variable or a global variable, and expands every
macro call.  Special forms come first, whatever their names are bound to; a
macro is found only under a name that is not bound lexically.
-/

namespace ObjectLisp.Analysis

/-- Fail because of the shape of a form. -/
def malformed {α : Type} (loc : Option SourceLoc) (problem : Malformed) : Eval α :=
  Eval.fail (.malformed problem loc)

/-! ## Names -/

/-- What a name refers to that is no constant. -/
def variable_ (symbols : SymbolStore) (scope : Scope) (symbol : SymbolId) : Expr :=
  if symbols.isDynamic symbol then .dynamic symbol
  else
    match scope.address? symbol with
    | some address => .local_ address symbol
    | none => .global symbol

/-- What a name refers to.  Keywords and constants are their values. -/
def resolve (symbols : SymbolStore) (globals : Globals) (scope : Scope) (symbol : SymbolId) :
    Expr :=
  match symbols.kindOf symbol with
  | .keyword => .literal (.symbol symbol)
  | .constant =>
      match globals.get? symbol with
      | some value => .literal value
      | none => variable_ symbols scope symbol
  | .plain => variable_ symbols scope symbol

/-- Analyse a name. -/
def name (context : Context) (symbol : SymbolId) : Eval Expr := fun interp =>
  .ok (resolve interp.symbols interp.globals context.scope symbol) interp

/-- The symbol that a definition names. -/
def definitionName (loc : Option SourceLoc) : Value → Eval SymbolId
  | .symbol symbol => pure symbol
  | _ => malformed loc .definitionName

/-- Fail if a name cannot be bound lexically. -/
def checkLexical (loc : Option SourceLoc) (symbol : SymbolId) : Eval Unit := fun interp =>
  if interp.symbols.isDynamic symbol then
    malformed loc (.notLexical (interp.symbols.nameOf symbol)) interp
  else .ok () interp

/-- Fail if a name cannot be bound dynamically. -/
def checkDynamic (loc : Option SourceLoc) (symbol : SymbolId) : Eval Unit := fun interp =>
  if interp.symbols.isDynamic symbol then .ok () interp
  else malformed loc (.notDynamic (interp.symbols.nameOf symbol)) interp

/-- Analyse a body: nothing is null, and one form stands for itself. -/
def body (engine : Engine) (context : Context) : List Value → Eval Expr
  | [] => pure (.literal .null)
  | [form] => engine.analyze form context
  | forms => return .block (← engine.analyzeAll context forms)

/-! ## Functions -/

/-- Parse a parameter list. -/
def parameterList (loc : Option SourceLoc) (list : Value) : Eval (List (Param Value)) :=
  fun interp =>
    let (result, symbols) := LambdaList.parse interp.words.markers interp.symbols list
    let interp := { interp with symbols }
    match result with
    | .ok params => .ok params interp
    | .error problem => malformed loc problem interp

/-- Analyse the default of a parameter. -/
def parameterDefault (engine : Engine) (context : Context) : Option Value → Eval (Option Expr)
  | some form => return some (← engine.analyze form context)
  | none => pure none

/-- Analyse the defaults of parameters.  They see the scope around the function only. -/
def parameters (engine : Engine) (context : Context) (loc : Option SourceLoc) :
    List (Param Value) → Eval (List (Param Expr))
  | [] => pure []
  | param :: params => do
      checkLexical loc param.name
      let init ← parameterDefault engine context param.init
      let rest ← parameters engine context loc params
      return { name := param.name, kind := param.kind, init, keyword := param.keyword } :: rest

/-- Analyse a function.  Hidden parameters come before the written ones. -/
def function (engine : Engine) (context : Context) (loc : Option SourceLoc)
    (name : Option SymbolId) (hidden : List SymbolId) (list : Value) (forms : List Value) :
    Eval (Template Expr) := do
  let written ← parameters engine context loc (← parameterList loc list)
  let params : Params Expr :=
    { list := hidden.map (fun name => { name, kind := .required }) ++ written }
  return { name, params, body := ← body engine (context.push params.names) forms }

/-- Analyse the value of a definition; a function takes the name of the definition. -/
def namedValue (engine : Engine) (context : Context) (name : SymbolId) (value : Value) :
    Eval Expr := do
  match value.toList? with
  | some (.symbol head :: list :: forms) =>
      if (← get).words.form? head = some .lambda then
        return .lambda (← function engine context (context.locOf value) (some name) [] list forms)
      else
        engine.analyze value context
  | _ => engine.analyze value context

/-! ## Bindings -/

/-- A binding as written: a name, alone or in a list, possibly with a form for its value. -/
def binding? : Value → Option (SymbolId × Value)
  | .symbol name => some (name, .null)
  | item =>
      match item.toList? with
      | some [.symbol name] => some (name, .null)
      | some [.symbol name, init] => some (name, init)
      | _ => none

/-- The bindings of a binding list. -/
def bindings (loc : Option SourceLoc) (list : Value) : Eval (List (SymbolId × Value)) :=
  match list.toList?.bind (·.mapM binding?) with
  | some pairs => pure pairs
  | none => malformed loc .bindings

/-- Analyse bindings one after the other; `check` says which names are allowed. -/
def bindingInits (engine : Engine) (context : Context) (check : SymbolId → Eval Unit) :
    List (SymbolId × Value) → Eval (List (SymbolId × Expr))
  | [] => pure []
  | (name, init) :: pairs => do
      check name
      let init ← engine.analyze init context
      let rest ← bindingInits engine context check pairs
      return (name, init) :: rest

/-! ## Special forms -/

/-- Analyse an assignment. -/
def assignment (engine : Engine) (context : Context) (loc : Option SourceLoc)
    (target value : Value) : Eval Expr := do
  match target with
  | .symbol symbol =>
      Eval.checkAssignable symbol
      let value ← engine.analyze value context
      if (← get).symbols.isDynamic symbol then
        return .setDynamic symbol value
      else
        match context.scope.address? symbol with
        | some address => return .setLocal address value
        | none => return .setGlobal symbol value
  | _ =>
      match target.toList? with
      | some [.symbol head, object] =>
          match Symbol.memberName? (← Eval.nameOf head) with
          | some member =>
              let object ← engine.analyze object context
              let value ← engine.analyze value context
              return .setMember member object value loc
          | none => malformed loc .assignmentTarget
      | _ => malformed loc .assignmentTarget

/-- A slot of a class definition as written. -/
def slot? : Value → Option (SymbolId × Option Value)
  | .symbol name => some (name, none)
  | item =>
      match item.toList? with
      | some [.symbol name] => some (name, none)
      | some [.symbol name, init] => some (name, some init)
      | _ => none

/-- Analyse the default of a slot.  One that is no literal becomes a function. -/
def slotInit (engine : Engine) (context : Context) (loc : Option SourceLoc) :
    Option Value → Eval (SlotInit Expr)
  | none => pure (.constant .null)
  | some form => do
      match ← engine.analyze form context with
      | .literal value => return .constant value
      | _ => return .computed (← function engine context loc none [] .null [form])

/-- Analyse the slots of a class definition. -/
def slots (engine : Engine) (context : Context) (loc : Option SourceLoc) :
    List Value → Eval (List (String × SlotInit Expr))
  | [] => pure []
  | item :: items => do
      match slot? item with
      | none => malformed loc .slot
      | some (name, init) =>
          let init ← slotInit engine context loc init
          let name ← Eval.nameOf name
          let rest ← slots engine context loc items
          return (name, init) :: rest

/-- Analyse a class definition. -/
def classDefinition (engine : Engine) (context : Context) (loc : Option SourceLoc)
    (name parents slotList : Value) : Eval Expr := do
  let name ← definitionName loc name
  match parents.toList? with
  | none => malformed loc .classParents
  | some parents =>
      let parents ← engine.analyzeAll context parents
      match slotList.toList? with
      | none => malformed loc .classSlots
      | some items => return .defClass name parents (← slots engine context loc items)

/-- The qualifier that a keyword names. -/
def qualifier? (words : Vocabulary) (symbol : SymbolId) : Option Qualifier :=
  if symbol = words.before then some .before
  else if symbol = words.after then some .after
  else if symbol = words.around then some .around
  else none

/-- Split off the qualifier of a behavior definition.  A keyword with something after it is meant
as one. -/
def qualified (loc : Option SourceLoc) (rest : List Value) :
    Eval (Qualifier × Value × List Value) := fun interp =>
  match rest with
  | [] => malformed loc .behaviorParameters interp
  | first :: others =>
      match first, others with
      | .symbol symbol, list :: forms =>
          if interp.symbols.isKeyword symbol then
            match qualifier? interp.words symbol with
            | some qualifier => .ok (qualifier, list, forms) interp
            | none => malformed loc .behaviorQualifier interp
          else .ok (.primary, first, others) interp
      | _, _ => .ok (.primary, first, others) interp

/-- Analyse a behavior definition.  Its method gets the continuation as a hidden parameter. -/
def behaviorDefinition (engine : Engine) (context : Context) (loc : Option SourceLoc)
    (target : Value) (name : SymbolId) (rest : List Value) : Eval Expr := do
  let (qualifier, list, forms) ← qualified loc rest
  if list.toList?.all List.isEmpty then
    malformed loc .behaviorReceiver
  else
    let target ← engine.analyze target context
    let hidden := (← get).words.nextMethod
    let method ← function engine context loc (some name) [hidden] list forms
    return .defBehavior target (← Eval.nameOf name) qualifier method

/-- The variable that holds the continuation of the surrounding method. -/
def continuation (context : Context) (loc : Option SourceLoc) (symbol : SymbolId) :
    Eval Expr := fun interp =>
  match context.scope.address? interp.words.nextMethod with
  | some address => .ok (.local_ address interp.words.nextMethod) interp
  | none => malformed loc (.outsideBehavior (interp.symbols.nameOf symbol)) interp

/-- Analyse the definition of a global variable. -/
def definition (engine : Engine) (context : Context) (loc : Option SourceLoc) :
    List Value → Eval (SymbolId × Expr)
  | [name] => return (← definitionName loc name, .literal .null)
  | [name, value] => do
      let name ← definitionName loc name
      return (name, ← namedValue engine context name value)
  | _ => malformed loc .definition

/-- Analyse a special form. -/
def special (engine : Engine) (context : Context) (loc : Option SourceLoc) (symbol : SymbolId)
    (form : SpecialForm) (arguments : List Value) : Eval Expr := do
  match form, arguments with
  | .quote, [datum] => return .literal datum
  | .quote, _ => malformed loc .quote
  | .quasiquote, [template] => Quasi.analyze engine context template
  | .quasiquote, _ => malformed loc .quasiquote
  | .unquote, _ | .unquoteSplicing, _ => malformed loc .unquoteOutside
  | .if_, [test, yes] =>
      let test ← engine.analyze test context
      let yes ← engine.analyze yes context
      return .if_ test yes (.literal .null)
  | .if_, [test, yes, no] =>
      let test ← engine.analyze test context
      let yes ← engine.analyze yes context
      let no ← engine.analyze no context
      return .if_ test yes no
  | .if_, _ => malformed loc .conditional
  | .or, [] => return .literal .null
  | .or, [single] => engine.analyze single context
  | .or, parts => return .or (← engine.analyzeAll context parts)
  | .and, [] => return .literal (.bool true)
  | .and, [single] => engine.analyze single context
  | .and, parts => return .and (← engine.analyzeAll context parts)
  | .block, forms => body engine context forms
  | .while_, test :: forms =>
      let test ← engine.analyze test context
      return .while_ test (← body engine context forms)
  | .while_, [] => malformed loc .loop
  | .lambda, list :: forms => return .lambda (← function engine context loc none [] list forms)
  | .lambda, [] => malformed loc .lambda
  | .defMacro, name :: list :: forms =>
      let name ← definitionName loc name
      return .defMacro name (← function engine context loc (some name) [] list forms)
  | .defMacro, _ => malformed loc .macroDefinition
  | .def_, arguments =>
      let (name, value) ← definition engine context loc arguments
      return .def_ name value
  | .defConstant, arguments =>
      let (name, value) ← definition engine context loc arguments
      return .defConstant name value
  | .set, [target, value] => assignment engine context loc target value
  | .set, _ => malformed loc .assignment
  | .dynamicLet, list :: forms =>
      let pairs ← bindings loc list
      let inits ← bindingInits engine context (checkDynamic loc) pairs
      return .dynamicLet inits (← body engine context forms)
  | .dynamicLet, [] => malformed loc .dynamicLet
  | .let_, list :: forms =>
      let pairs ← bindings loc list
      let inits ← bindingInits engine context (checkLexical loc) pairs
      let inner := context.push (inits.map (·.1))
      return .let_ (inits.map (·.2)) (← body engine inner forms)
  | .let_, [] => malformed loc .let_
  | .callNextMethod, [] => return .callNext (← continuation context loc symbol) none loc
  | .callNextMethod, arguments =>
      let next ← continuation context loc symbol
      return .callNext next (some (← engine.analyzeAll context arguments)) loc
  | .hasNextMethod, _ => return .hasNext (← continuation context loc symbol)
  | .defClass, [name, parents] => classDefinition engine context loc name parents .null
  | .defClass, [name, parents, slots] => classDefinition engine context loc name parents slots
  | .defClass, _ => malformed loc .classDefinition
  | .defBehavior, target :: .symbol name :: rest =>
      behaviorDefinition engine context loc target name rest
  | .defBehavior, _ => malformed loc .behavior

/-! ## Calls -/

/-- Expand a macro call and analyse the result.  Forms that the macro made get the place of the
call. -/
def expansion (engine : Engine) (context : Context) (loc : Option SourceLoc) (index : Nat)
    (arguments : List Value) : Eval Expr := do
  modify fun interp =>
    { interp with counters.expansions := interp.counters.expansions + 1 }
  let form ← engine.apply (.closure index) arguments loc
  engine.analyze form { context with fallback := loc }

/-- Analyse an access to a member. -/
def memberAccess (engine : Engine) (context : Context) (loc : Option SourceLoc)
    (head member : String) : List Value → Eval Expr
  | [] => malformed loc (.memberWithoutObject head)
  | object :: rest => do
      let object ← engine.analyze object context
      return .member member object (← engine.analyzeAll context rest) loc

/-- Analyse a call. -/
def call (engine : Engine) (context : Context) (loc : Option SourceLoc) (head : Value)
    (arguments : List Value) : Eval Expr := do
  let callee ← engine.analyze head context
  return .apply callee (← engine.analyzeAll context arguments) loc

/-- The expander that a name has as its global value, unless it is bound lexically. -/
def expander? (globals : Globals) (scope : Scope) (symbol : SymbolId) : Option Nat :=
  match scope.address? symbol, globals.get? symbol with
  | none, some (.expander index) => some index
  | _, _ => none

/-- Analyse a list that starts with a symbol. -/
def symbolCall (engine : Engine) (context : Context) (loc : Option SourceLoc)
    (symbol : SymbolId) (arguments : List Value) : Eval Expr := do
  let interp ← get
  match interp.words.form? symbol with
  | some form => special engine context loc symbol form arguments
  | none =>
      match expander? interp.globals context.scope symbol with
      | some index => expansion engine context loc index arguments
      | none =>
          let head := interp.symbols.nameOf symbol
          match Symbol.memberName? head with
          | some member => memberAccess engine context loc head member arguments
          | none => call engine context loc (.symbol symbol) arguments

/-- Analyse a list. -/
def list (engine : Engine) (context : Context) (form : Value) : Eval Expr :=
  let loc := context.locOf form
  match form.toList? with
  | some (.symbol symbol :: arguments) => symbolCall engine context loc symbol arguments
  | some (head :: arguments) => call engine context loc head arguments
  | some [] => pure (.literal .null)
  | none => malformed loc .dottedList

/-- Analyse a form. -/
def analyze (engine : Engine) (form : Value) (context : Context) : Eval Expr :=
  match form with
  | .symbol symbol => name context symbol
  | .cons .. => list engine context form
  | other => pure (.literal other)

end ObjectLisp.Analysis
