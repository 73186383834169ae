import ObjectLisp.Proofs.Evaluation.Holdings
import ObjectLisp.Proofs.Evaluation.Quiet
import ObjectLisp.Proofs.Evaluation.Reach

/-!
# Regimes of evaluation

A regime says which states are good, what an evaluation may do to a state, which
values may be handed around, when an expression is ready to be evaluated in a
frame, which globals may be written, how the failures of two engines that run side
by side have to match, and whether the second one may give up.

All that evaluation does to a state is a sequence of moves, inside the four
brackets of evaluation: a closure call, a new frame, a dynamic binding and a file
that is loaded.  A regime is lawful if it allows every move of fitting values, and if what a good
state holds fits.  Then every part of the interpreter, run with two engines that
match, gives results that match, and only by allowed steps.  This module has the
laws and the rules by which actions compose; the modules that follow treat the
parts of the interpreter one by one.
-/

namespace ObjectLisp

/-! ## Changes of a state -/

namespace Interp

/-- The closure that a call of a number finds. -/
def closure (interp : Interp) (index : Nat) : Closure :=
  interp.heap.closures.getD index default

/-- The state after a function was made a closure. -/
def closing (interp : Interp) (template : Template Expr) (env : Option FrameId) : Interp :=
  { interp with
    frames := match env with
      | some frame => interp.frames.pin frame
      | none => interp.frames
    heap := (interp.heap.newClosure { template, env }).2 }

/-- The state after a slot was assigned. -/
def assigning (interp : Interp) (env : Option FrameId) (address : Address) (value : Value) :
    Interp :=
  { interp with frames := (interp.frames.set env address.level address.index value).2 }

/-- The number of the next frame. -/
def nextFrame (interp : Interp) (slots : List Value) (parent : Option FrameId) : FrameId :=
  (interp.frames.alloc slots.toArray parent).1

/-- The state inside a new frame. -/
def entering (interp : Interp) (slots : List Value) (parent : Option FrameId) : Interp :=
  { interp with frames := (interp.frames.alloc slots.toArray parent).2 }

/-- The state after a frame was left. -/
def leaving (frame : FrameId) (interp : Interp) : Interp :=
  { interp with frames := interp.frames.release frame }

/-- The state inside a closure call. -/
def deeper (interp : Interp) : Interp := { interp with depth := interp.depth + 1 }

/-- The state after a closure call. -/
def shallower (interp : Interp) : Interp := { interp with depth := interp.depth - 1 }

/-- The state under dynamic bindings. -/
def binding (interp : Interp) (bindings : List (SymbolId × Value)) : Interp :=
  { interp with dynamic := interp.dynamic.pushAll bindings }

/-- The state after dynamic bindings ended. -/
def unwinding (height : Nat) (interp : Interp) : Interp :=
  { interp with dynamic := interp.dynamic.unwind height }

/-- The state after a file was evaluated, back in the package before it. -/
def returning (package : PackageId) (interp : Interp) : Interp := { interp with package }

/-- The state after a slot of an instance was stored. -/
def storing (interp : Interp) (index : Nat) (name : String) (value : Value) : Interp :=
  { interp with
    heap.objects := interp.heap.objects.modify index fun object =>
      { object with slots := object.slots.insert name value } }

/-- The state after an instance was made. -/
def making (interp : Interp) (class_ : ClassId) (slots : Assoc String Value) : Interp :=
  { interp with heap := (interp.heap.newObject { membership := { nominal := class_ }, slots }).2 }

/-- The class of its own that an instance has or gets, with the memberships and the classes that
go with it. -/
def customized (interp : Interp) (index : Nat) :
    ClassId × Membership × ClassSpace SlotDefault Value :=
  interp.classes.customize (interp.heap.objects.getD index default).membership

/-- The state after an instance got a class of its own. -/
def customizing (interp : Interp) (index : Nat) : Interp :=
  { interp with
    classes := (interp.customized index).2.2
    heap.objects := interp.heap.objects.modify index fun object =>
      { object with membership := (interp.customized index).2.1 } }

/-- The value that an instance has stored in a slot. -/
def slot? (interp : Interp) (index : Nat) (name : String) : Option Value :=
  (interp.heap.objects.getD index default).slots.find? name

/-- No behavior stands in front of a slot that is written. -/
def WritesPlainly (interp : Interp) (index : Nat) (name : String) : Prop :=
  (interp.classes.chain (interp.heap.objects.getD index default).membership.effective
    ("set_" ++ name)).1 = none

/-- Two states with the same symbols, words, heap and classes. -/
structure SameData (before after : Interp) : Prop where
  symbols : after.symbols = before.symbols
  words : after.words = before.words
  heap : after.heap = before.heap
  classes : after.classes = before.classes

theorem sameData_deeper (interp : Interp) : interp.SameData interp.deeper :=
  ⟨rfl, rfl, rfl, rfl⟩

theorem sameData_shallower (interp : Interp) : interp.SameData interp.shallower :=
  ⟨rfl, rfl, rfl, rfl⟩

theorem closure_closing (interp : Interp) (template : Template Expr) (env : Option FrameId)
    (index : Nat) :
    (interp.closing template env).closure index =
      if index = interp.heap.closures.size then { template, env } else interp.closure index := by
  by_cases isNew : index = interp.heap.closures.size
  · simp [closure, closing, Heap.newClosure, isNew, Array.getD_eq_getD_getElem?]
  · simp [closure, closing, Heap.newClosure, Array.getD_eq_getD_getElem?, Array.getElem?_push,
      isNew]

end Interp

/-! ## Regimes -/

/-- What is demanded of states, values and expressions, and granted to evaluations. -/
structure Regime where
  /-- The states in which evaluation may start, and in which it ends. -/
  Good : Interp → Prop
  /-- What an evaluation may have done between two states. -/
  Effect : Interp → Interp → Prop
  /-- The value may be handed around. -/
  Fit : Interp → Value → Prop
  /-- The expression may be evaluated in the frame. -/
  Ready : Expr → Option FrameId → Interp → Prop
  /-- The expression may be evaluated in a new frame of a size inside another frame. -/
  Body : Expr → (size : Nat) → (parent : Option FrameId) → Interp → Prop
  /-- The global may be written. -/
  Writable : SymbolId → Prop
  /-- The value may be written to the slot of an instance. -/
  Storable : (index : Nat) → (name : String) → Value → Prop := fun _ _ _ => True
  /-- Where the first of two engines stops in one way, the second may stop in the other. -/
  Stops : Interp → Stop → Stop → Prop
  /-- The second of two engines may give up at any time. -/
  Quits : Prop := False

namespace Regime

/-- A good state with an effect that is allowed. -/
def Step (regime : Regime) (before after : Interp) : Prop :=
  regime.Good after ∧ regime.Effect before after

/-- Whatever happens inside, restoring makes the whole an allowed step. -/
structure Bracket (regime : Regime) (before inside : Interp) (restore : Interp → Interp) :
    Prop where
  good : regime.Good inside
  closes : ∀ after, regime.Step inside after → regime.Step before (restore after)

/-- The expression is scoped for frames of these sizes, and what is given anywhere in it fits. -/
structure Admissible (regime : Regime) (sizes : List Nat) (interp : Interp) (expr : Expr) :
    Prop where
  inScope : expr.Scoped regime.Writable sizes
  fits : ∀ inner : Expr, inner.Inside expr → ∀ value ∈ inner.results, regime.Fit interp value

/-- The function is scoped for frames of these sizes, and what is given anywhere in it fits. -/
structure AdmissibleTemplate (regime : Regime) (sizes : List Nat) (interp : Interp)
    (template : Template Expr) : Prop where
  inScope : template.Scoped regime.Writable sizes
  fits : ∀ inner, template.Contains inner → ∀ value ∈ inner.results, regime.Fit interp value

/-- The moves of evaluation. -/
inductive Move (regime : Regime) : Interp → Interp → Prop where
  /-- Data, symbols, operators, counters or texts change, and what is put into them fits. -/
  | store {before after : Interp} (quiet : before.Quiet after)
      (classes : after.classes = before.classes)
      (objects : after.heap.objects = before.heap.objects)
      (held : ∀ value, after.Holds value → before.Holds value ∨ regime.Fit before value) :
      Move regime before after
  | slot {interp : Interp} {index : Nat} {name : String} {value : Value}
      (mayStore : regime.Storable index name value) (fit : regime.Fit interp value) :
      Move regime interp (interp.storing index name value)
  | object {interp : Interp} {class_ : ClassId} {slots : Assoc String Value}
      (fit : regime.Fit interp (.class_ class_))
      (stored : ∀ value ∈ slots.values, regime.Fit interp value) :
      Move regime interp (interp.making class_ slots)
  | own {interp : Interp} (index : Nat) : Move regime interp (interp.customizing index)
  | linearize {interp : Interp} (id : ClassId) :
      Move regime interp { interp with classes := (interp.classes.linearization id).2 }
  | chain {interp : Interp} (id : ClassId) (name : String) :
      Move regime interp { interp with classes := (interp.classes.chain id name).2.2 }
  | addSlot {interp : Interp} {value : Value} (id : ClassId) (name : String)
      (fit : regime.Fit interp value) :
      Move regime interp { interp with
        classes := interp.classes.addSlot id name (.constant value) }
  | removeSlot {interp : Interp} (id : ClassId) (name : String) :
      Move regime interp { interp with classes := (interp.classes.removeSlot id name).2 }
  | addBehavior {interp : Interp} {method : Value} (id : ClassId) (name : String)
      (qualifier : Qualifier) (fit : regime.Fit interp method) :
      Move regime interp { interp with
        classes := interp.classes.addBehavior id name qualifier method }
  | extend {interp : Interp} {id : ClassId} {parents : List ClassId}
      (fit : regime.Fit interp (.class_ id))
      (parentsFit : ∀ parent ∈ parents, regime.Fit interp (.class_ parent)) :
      Move regime interp { interp with classes := (interp.classes.extend id parents).2 }
  | define {interp : Interp} {parents : List ClassId} {slots : List (String × SlotDefault)}
      (name : String) (parentsFit : ∀ parent ∈ parents, regime.Fit interp (.class_ parent))
      (defaults : ∀ slot ∈ slots, regime.Fit interp slot.2.value) :
      Move regime interp { interp with classes := (interp.classes.define name parents slots).2 }
  | write {interp : Interp} {name : SymbolId} {value : Value} (mayWrite : regime.Writable name)
      (fit : regime.Fit interp value) :
      Move regime interp { interp with globals := interp.globals.set name value }
  | close {interp : Interp} {expr : Expr} {env : Option FrameId} {template : Template Expr}
      (ready : regime.Ready expr env interp) (member : template ∈ expr.templates) :
      Move regime interp (interp.closing template env)
  | assign {interp : Interp} {address : Address} {expr : Expr} {env : Option FrameId}
      {value : Value} (ready : regime.Ready (.setLocal address expr) env interp)
      (fit : regime.Fit interp value) : Move regime interp (interp.assigning env address value)
  | assignDynamic {interp : Interp} {name : SymbolId} {value : Value}
      {dynamic : DynamicStack Value} (assigned : interp.dynamic.assign? name value = some dynamic)
      (fit : regime.Fit interp value) : Move regime interp { interp with dynamic }

/-- A regime that allows every move and every bracket of evaluation, and under which only fitting
values come up. -/
class Lawful (regime : Regime) : Prop where
  refl : ∀ interp, regime.Effect interp interp
  trans : ∀ {first second third}, regime.Effect first second → regime.Effect second third →
    regime.Effect first third
  fit_effect : ∀ {before after value}, regime.Effect before after → regime.Fit before value →
    regime.Fit after value
  fit_same : ∀ {before after : Interp} {value}, before.SameData after →
    regime.Fit before value → regime.Fit after value
  fit_atom : ∀ {interp} {value : Value}, value.isAtom = true → regime.Fit interp value
  fit_cons : ∀ {interp id car cdr}, regime.Fit interp (.cons id car cdr) ↔
    regime.Fit interp car ∧ regime.Fit interp cdr
  fit_symbol : ∀ {before after : Interp} {symbol}, regime.Good before → regime.Step before after →
    (before.symbols.Coherent → symbol < after.symbols.count) → regime.Fit after (.symbol symbol)
  fit_held : ∀ {interp : Interp} {value}, regime.Good interp → interp.Holds value →
    regime.Fit interp value
  fit_order : ∀ {interp : Interp} {id other}, regime.Good interp →
    regime.Fit interp (.class_ id) → other ∈ (interp.classes.linearization id).1 →
      regime.Fit interp (.class_ other)
  fit_nominal : ∀ {interp : Interp} (index), regime.Good interp →
    regime.Fit interp (.class_ (interp.heap.objects.getD index default).membership.nominal)
  fit_defined : ∀ {interp : Interp} {name parents slots id}, regime.Good interp →
    (interp.classes.define name parents slots).1 = .ok id →
      regime.Fit { interp with classes := (interp.classes.define name parents slots).2 }
        (.class_ id)
  ready_effect : ∀ {before after expr env}, regime.Effect before after →
    regime.Ready expr env before → regime.Ready expr env after
  body_effect : ∀ {before after expr size parent}, regime.Effect before after →
    regime.Body expr size parent before → regime.Body expr size parent after
  ready_bind : ∀ {interp expr env} (bindings), regime.Ready expr env interp →
    regime.Ready expr env (interp.binding bindings)
  ready_part : ∀ {interp expr env part}, regime.Ready expr env interp →
    part ∈ expr.parts → regime.Ready part env interp
  ready_let : ∀ {interp inits body env}, regime.Ready (.let_ inits body) env interp →
    regime.Body body inits.length env interp
  ready_top : ∀ {interp expr}, regime.Admissible [] interp expr → regime.Ready expr none interp
  ready_value : ∀ {interp expr env value}, regime.Ready expr env interp →
    value ∈ expr.results → regime.Fit interp value
  ready_target : ∀ {interp expr env name}, regime.Ready expr env interp →
    expr.target? = some name → regime.Writable name
  ready_default : ∀ {interp : Interp} (index), regime.Good interp →
    ∀ param ∈ (interp.closure index).template.params.list, ∀ init ∈ param.init,
      regime.Ready init (interp.closure index).env interp
  closure_body : ∀ {interp : Interp} (index), regime.Good interp →
    regime.Body (interp.closure index).template.body
      (interp.closure index).template.params.list.length (interp.closure index).env interp
  writable : ∀ {interp : Interp} {name}, regime.Good interp →
    interp.symbols.assignmentProblem? name = none → regime.Writable name
  storable_default : ∀ {interp : Interp} {index name} (value), regime.Good interp →
    interp.slot? index name = none → regime.Storable index name value
  move : ∀ {before after : Interp}, regime.Good before → regime.Move before after →
    regime.Step before after
  bind : ∀ {interp : Interp} {bindings : List (SymbolId × Value)}, regime.Good interp →
    (∀ binding ∈ bindings, regime.Fit interp binding.2) →
      regime.Bracket interp (interp.binding bindings) (Interp.unwinding interp.dynamic.height)
  call : ∀ {interp : Interp}, regime.Good interp → interp.depth < interp.config.maxDepth →
    regime.Bracket interp interp.deeper Interp.shallower
  enter : ∀ {interp : Interp} {slots : List Value} {parent body}, regime.Good interp →
    (∀ value ∈ slots, regime.Fit interp value) → regime.Body body slots.length parent interp →
      regime.Bracket interp (interp.entering slots parent)
        (Interp.leaving (interp.nextFrame slots parent)) ∧
      regime.Ready body (some (interp.nextFrame slots parent)) (interp.entering slots parent)
  load : ∀ {interp : Interp}, regime.Good interp →
    regime.Bracket interp interp (Interp.returning interp.package)
  stops_failure : ∀ interp cause, regime.Stops interp (.failure { cause }) (.failure { cause })
  stops_spent : ∀ interp, regime.Stops interp .spent .spent
  stops_same : ∀ {before after : Interp} {stop stop'}, before.SameData after →
    regime.Stops before stop stop' → regime.Stops after stop stop'

/-- Every slot may be written. -/
def Open (regime : Regime) : Prop := ∀ index name value, regime.Storable index name value

/-- The two engines stop in the same way. -/
def Exact (regime : Regime) : Prop :=
  ∀ interp stop stop', regime.Stops interp stop stop' ↔ stop' = stop

/-- A result that ends an allowed step, with a value that fits. -/
def Ends {α : Type} (regime : Regime) (fits : Interp → α → Prop) (before : Interp) :
    EStateM.Result Stop Interp α → Prop
  | .ok value after => regime.Step before after ∧ fits after value
  | .error _ after => regime.Step before after

/-- Two results that match: the same value or stops that match, in the same state, after an allowed
step.  If it may, the second engine has given up. -/
inductive Matches {α : Type} (regime : Regime) (fits : Interp → α → Prop) (before : Interp) :
    EStateM.Result Stop Interp α → EStateM.Result Stop Interp α → Prop where
  | ok {value : α} {after : Interp} (step : regime.Step before after) (fit : fits after value) :
      Matches regime fits before (.ok value after) (.ok value after)
  | error {stop stop' : Stop} {after : Interp} (step : regime.Step before after)
      (stops : regime.Stops after stop stop') :
      Matches regime fits before (.error stop after) (.error stop' after)
  | quit {result : EStateM.Result Stop Interp α} {after : Interp} (quits : regime.Quits)
      (ends : regime.Ends fits before result) :
      Matches regime fits before result (.error .spent after)

/-- From a state, an action and its twin give results that match. -/
def Carries {α : Type} (regime : Regime) (action twin : Eval α) (fits : Interp → α → Prop)
    (before : Interp) : Prop :=
  regime.Matches fits before (action before) (twin before)

/-- From a state, an action that asks no engine ends well. -/
abbrev Keeps {α : Type} (regime : Regime) (action : Eval α) (fits : Interp → α → Prop)
    (before : Interp) : Prop :=
  regime.Carries action action fits before

/-- Two bounds for loops: the same one, or a lower one if the second engine may give up. -/
def Bounds (regime : Regime) (fuel lower : Nat) : Prop :=
  lower = fuel ∨ regime.Quits ∧ lower ≤ fuel

/-- Two engines whose answers to admissible requests match. -/
structure Engines (regime : Regime) (engine twin : Engine) : Prop where
  fuel : regime.Bounds engine.fuel twin.fuel
  analyze : ∀ {interp form} (context : Context), regime.Good interp → regime.Fit interp form →
    regime.Carries (engine.analyze form context) (twin.analyze form context)
      (regime.Admissible context.scope.sizes) interp
  eval : ∀ {interp expr env}, regime.Good interp → regime.Ready expr env interp →
    regime.Carries (engine.eval expr env) (twin.eval expr env) regime.Fit interp
  apply : ∀ {interp function arguments} loc, regime.Good interp → regime.Fit interp function →
    (∀ argument ∈ arguments, regime.Fit interp argument) →
      regime.Carries (engine.apply function arguments loc) (twin.apply function arguments loc)
        regime.Fit interp

variable {regime : Regime} [lawful : regime.Lawful] {α β : Type} {interp : Interp}

/-! ## Steps -/

namespace Step

theorem refl (good : regime.Good interp) : regime.Step interp interp :=
  ⟨good, lawful.refl interp⟩

variable {first second third : Interp}

theorem trans (left : regime.Step first second) (right : regime.Step second third) :
    regime.Step first third :=
  ⟨right.1, lawful.trans left.2 right.2⟩

theorem fit (step : regime.Step first second) {value : Value} (fit : regime.Fit first value) :
    regime.Fit second value :=
  lawful.fit_effect step.2 fit

theorem fitAll (step : regime.Step first second) {values : List Value}
    (fits : ∀ value ∈ values, regime.Fit first value) :
    ∀ value ∈ values, regime.Fit second value :=
  fun value member => step.fit (fits value member)

theorem ready (step : regime.Step first second) {expr : Expr} {env : Option FrameId}
    (ready : regime.Ready expr env first) : regime.Ready expr env second :=
  lawful.ready_effect step.2 ready

theorem admissible (step : regime.Step first second) {sizes : List Nat} {expr : Expr}
    (admissible : regime.Admissible sizes first expr) : regime.Admissible sizes second expr :=
  ⟨admissible.inScope, fun inner inside => step.fitAll (admissible.fits inner inside)⟩

theorem admissibleAll (step : regime.Step first second) {sizes : List Nat} {exprs : List Expr}
    (admissible : ∀ expr ∈ exprs, regime.Admissible sizes first expr) :
    ∀ expr ∈ exprs, regime.Admissible sizes second expr :=
  fun expr member => step.admissible (admissible expr member)

theorem admissibleTemplate (step : regime.Step first second) {sizes : List Nat}
    {template : Template Expr} (admissible : regime.AdmissibleTemplate sizes first template) :
    regime.AdmissibleTemplate sizes second template :=
  ⟨admissible.inScope, fun inner contained => step.fitAll (admissible.fits inner contained)⟩

end Step

/-! ## Moves that store -/

namespace Move

omit lawful

/-- A quiet change that leaves all values where they are. -/
theorem quiet {after : Interp} (quiet : interp.Quiet after) (heap : after.heap = interp.heap)
    (classes : after.classes = interp.classes) (operators : after.operators = interp.operators) :
    regime.Move interp after :=
  .store quiet classes (congrArg Heap.objects heap) fun _ holds =>
    .inl (holds.of_eq quiet.globals heap quiet.frames quiet.dynamic classes operators)

theorem symbols {symbols : SymbolStore} (leads : interp.symbols.Leads symbols) :
    regime.Move interp { interp with symbols } :=
  .quiet (.leading interp leads) rfl rfl rfl

theorem counters (counters : Counters) : regime.Move interp { interp with counters } :=
  .quiet ⟨⟨rfl, rfl, rfl, rfl, rfl⟩, rfl, rfl, .refl, .inl rfl⟩ rfl rfl rfl

theorem output (output : String) : regime.Move interp { interp with output } :=
  .quiet ⟨⟨rfl, rfl, rfl, rfl, rfl⟩, rfl, rfl, .refl, .inl rfl⟩ rfl rfl rfl

theorem package {package : PackageId} (inside : package < interp.symbols.packages.size) :
    regime.Move interp { interp with package } :=
  .quiet ⟨⟨rfl, rfl, rfl, rfl, rfl⟩, rfl, rfl, .refl, .inr inside⟩ rfl rfl rfl

theorem files (files : Files) : regime.Move interp { interp with files } :=
  .quiet ⟨⟨rfl, rfl, rfl, rfl, rfl⟩, rfl, rfl, .refl, .inl rfl⟩ rfl rfl rfl

/-- A heap with the same closures and instances may take the place of the heap. -/
theorem heap {heap : Heap} (closures : heap.closures = interp.heap.closures)
    (objects : heap.objects = interp.heap.objects)
    (held : ∀ value, heap.Holds value → interp.heap.Holds value ∨ regime.Fit interp value) :
    regime.Move interp { interp with heap } := by
  refine .store (.heap interp closures) rfl objects fun value holds => ?_
  rcases Interp.holds_heap holds with old | new
  · exact .inl old
  · exact (held value new).imp_left .heap

/-- New identities and points hold no values. -/
theorem heap_of_eq {heap : Heap} (vectors : heap.vectors = interp.heap.vectors)
    (closures : heap.closures = interp.heap.closures)
    (objects : heap.objects = interp.heap.objects)
    (continuations : heap.continuations = interp.heap.continuations) :
    regime.Move interp { interp with heap } :=
  .heap closures objects fun _ holds =>
    .inl (holds.of_eq vectors closures objects continuations)

theorem operators {operators : OperatorTable (OperatorMethod Value)}
    (held : ∀ value, operators.Holds value →
      interp.operators.Holds value ∨ regime.Fit interp value) :
    regime.Move interp { interp with operators } := by
  refine .store ⟨⟨rfl, rfl, rfl, rfl, rfl⟩, rfl, rfl, .refl, .inl rfl⟩ rfl rfl fun value holds => ?_
  rcases Interp.holds_operators holds with old | new
  · exact .inl old
  · exact (held value new).imp_left .operator

end Move

theorem Step.counted {before after : Interp} (step : regime.Step before after)
    (counters : Counters) : regime.Step before { after with counters } :=
  step.trans (lawful.move step.1 (.counters counters))

/-! ## Bounds -/

namespace Bounds

omit lawful

theorem refl (fuel : Nat) : regime.Bounds fuel fuel := .inl rfl

variable {fuel lower : Nat}

theorem pred (bounds : regime.Bounds (fuel + 1) (lower + 1)) : regime.Bounds fuel lower :=
  bounds.imp Nat.succ.inj fun less => ⟨less.1, Nat.le_of_succ_le_succ less.2⟩

theorem eq_zero (bounds : regime.Bounds 0 lower) : lower = 0 :=
  bounds.elim id fun less => Nat.le_zero.mp less.2

theorem quits_of_zero (bounds : regime.Bounds (fuel + 1) 0) : regime.Quits := by
  rcases bounds with same | ⟨quits, _⟩
  · cases same
  · exact quits

end Bounds

/-! ## Composition of matching actions -/

variable {fits : Interp → α → Prop} {fits' : Interp → β → Prop}

namespace Ends

variable {before middle : Interp} {result : EStateM.Result Stop Interp α}

theorem trans (ends : regime.Ends fits middle result) (step : regime.Step before middle) :
    regime.Ends fits before result := by
  cases result with
  | ok value after => exact ⟨step.trans ends.1, ends.2⟩
  | error stop after => exact step.trans ends

omit lawful in
theorem step (ends : regime.Ends fits before result) :
    regime.Step before (Eval.final result) := by
  cases result with
  | ok value after => exact ends.1
  | error stop after => exact ends

end Ends

namespace Matches

variable {before middle : Interp} {result twin : EStateM.Result Stop Interp α}

omit lawful in
theorem ends (matching : regime.Matches fits before result twin) :
    regime.Ends fits before result := by
  cases matching with
  | ok step fit => exact ⟨step, fit⟩
  | error step _ => exact step
  | quit _ ends => exact ends

theorem trans (matching : regime.Matches fits middle result twin)
    (step : regime.Step before middle) : regime.Matches fits before result twin := by
  cases matching with
  | ok step' fit => exact .ok (step.trans step') fit
  | error step' stops => exact .error (step.trans step') stops
  | quit quits ends => exact .quit quits (ends.trans step)

omit lawful in
theorem mono {fits' : Interp → α → Prop} (matching : regime.Matches fits before result twin)
    (weaker : ∀ after value, fits after value → fits' after value) :
    regime.Matches fits' before result twin := by
  cases matching with
  | ok step fit => exact .ok step (weaker _ _ fit)
  | error step stops => exact .error step stops
  | quit quits ends =>
      refine .quit quits ?_
      cases result with
      | ok value after => exact ⟨ends.1, weaker _ _ ends.2⟩
      | error stop after => exact ends

theorem failure (cause : Cause) {after : Interp} (step : regime.Step before after) :
    regime.Matches fits before (.error (.failure { cause }) after)
      (.error (.failure { cause }) after) :=
  .error step (lawful.stops_failure after cause)

end Matches

namespace Carries

theorem pure (good : regime.Good interp) {value : α} (fit : fits interp value) :
    regime.Carries (Pure.pure value) (Pure.pure value) fits interp :=
  .ok (.refl good) fit

theorem done (good : regime.Good interp) (value : α) :
    regime.Keeps (Pure.pure value) (fun _ _ => True) interp :=
  .pure good trivial

theorem atom (good : regime.Good interp) {value : Value} (isAtom : value.isAtom = true) :
    regime.Keeps (Pure.pure value) regime.Fit interp :=
  .pure good (lawful.fit_atom isAtom)

theorem fail (good : regime.Good interp) (cause : Cause) :
    regime.Carries (Eval.fail cause : Eval α) (Eval.fail cause) fits interp :=
  .failure cause (.refl good)

theorem typeError (good : regime.Good interp) (expected : String) (found : Value) :
    regime.Carries (Eval.typeError expected found : Eval α) (Eval.typeError expected found) fits
      interp :=
  .fail good _

theorem spent (good : regime.Good interp) :
    regime.Carries (throw .spent : Eval α) (throw .spent) fits interp :=
  .error (.refl good) (lawful.stops_spent interp)

omit lawful in
/-- Where the bound of the first engine allows one more round, so does that of the second engine, or
it has given up. -/
theorem of_bounds {action : Eval α} (twin : Nat → Eval α) {fuel lower : Nat}
    (bounds : regime.Bounds (fuel + 1) lower) (spent : twin 0 = throw .spent)
    (carries : ∀ {less : Nat}, regime.Bounds fuel less →
      regime.Carries action (twin (less + 1)) fits interp) :
    regime.Carries action (twin lower) fits interp := by
  cases lower with
  | succ less => exact carries bounds.pred
  | zero =>
      rw [spent]
      exact .quit bounds.quits_of_zero (carries (.refl fuel)).ends

theorem bind {first firstTwin : Eval α} {next nextTwin : α → Eval β}
    (head : regime.Carries first firstTwin fits interp)
    (tail : ∀ value after, regime.Step interp after → fits after value →
      regime.Carries (next value) (nextTwin value) fits' after) :
    regime.Carries (first >>= next) (firstTwin >>= nextTwin) fits' interp := by
  change regime.Matches fits' interp (EStateM.bind first next interp)
    (EStateM.bind firstTwin nextTwin interp)
  unfold Carries at head
  unfold EStateM.bind
  generalize first interp = result at head ⊢
  generalize firstTwin interp = twin at head ⊢
  cases head with
  | ok step fit => exact (tail _ _ step fit).trans step
  | error step stops => exact .error step stops
  | quit quits ends =>
      refine .quit quits ?_
      cases result with
      | ok value after => exact (tail value after ends.1 ends.2).ends.trans ends.1
      | error stop after => exact ends

omit lawful in
/-- What fits is the value that the action gives, after an allowed step. -/
theorem ran {action : Eval α} (keeps : regime.Keeps action fits interp) :
    regime.Keeps action (fun after value => action interp = .ok value after ∧
      regime.Step interp after ∧ fits after value) interp := by
  unfold Keeps Carries at keeps ⊢
  generalize action interp = result at keeps ⊢
  cases keeps with
  | ok step fit => exact .ok step ⟨rfl, step, fit⟩
  | error step stops => exact .error step stops
  | quit quits ends => exact .quit quits ends

omit lawful in
/-- Read the state, then act on it. -/
theorem get_bind {next nextTwin : Interp → Eval β}
    (tail : regime.Carries (next interp) (nextTwin interp) fits' interp) :
    regime.Carries (get >>= next) (get >>= nextTwin) fits' interp :=
  tail

/-- A change of the state that is a move. -/
theorem move {change : Interp → Interp} (good : regime.Good interp)
    (moves : regime.Move interp (change interp)) :
    regime.Carries (modify change) (modify change) (fun _ _ => True) interp :=
  .ok (lawful.move good moves) trivial

omit lawful in
theorem ite {condition : Prop} [Decidable condition] {yes no yesTwin noTwin : Eval α}
    (left : regime.Carries yes yesTwin fits interp)
    (right : regime.Carries no noTwin fits interp) :
    regime.Carries (if condition then yes else no) (if condition then yesTwin else noTwin) fits
      interp := by
  split
  · exact left
  · exact right

/-- A bracket around matching actions. -/
theorem bracket {inside : Interp} {restore : Interp → Interp} {action twin : Eval Value}
    (brackets : regime.Bracket interp inside restore)
    (same : ∀ after : Interp, after.SameData (restore after))
    (body : regime.Carries action twin regime.Fit inside) :
    regime.Carries (fun _ => Eval.finally_ action restore inside)
      (fun _ => Eval.finally_ twin restore inside) regime.Fit interp := by
  unfold Carries Eval.finally_
  unfold Carries at body
  generalize action inside = result at body ⊢
  generalize twin inside = other at body ⊢
  cases body with
  | ok step fit => exact .ok (brackets.closes _ step) (lawful.fit_same (same _) fit)
  | error step stops => exact .error (brackets.closes _ step) (lawful.stops_same (same _) stops)
  | quit quits ends =>
      refine .quit quits ?_
      cases result with
      | ok value after => exact ⟨brackets.closes _ ends.1, lawful.fit_same (same _) ends.2⟩
      | error stop after => exact brackets.closes _ ends

end Carries

/-! ## Values -/

theorem fitAll_of_collect {taken : List Value} {value : Value} {items : List Value}
    (collected : value.collect taken = some items) (fit : regime.Fit interp value)
    (takenFit : ∀ item ∈ taken, regime.Fit interp item) :
    ∀ item ∈ items, regime.Fit interp item := by
  induction value generalizing taken with
  | null =>
      cases collected
      exact fun item member => takenFit item (List.mem_reverse.mp member)
  | cons id car cdr _ ih =>
      obtain ⟨carFit, cdrFit⟩ := lawful.fit_cons.mp fit
      exact ih collected cdrFit (List.forall_mem_cons.mpr ⟨carFit, takenFit⟩)
  | _ => cases collected

/-- The elements of a fitting list fit. -/
theorem fitAll_of_toList? {value : Value} {items : List Value} (fit : regime.Fit interp value)
    (listed : value.toList? = some items) : ∀ item ∈ items, regime.Fit interp item :=
  fitAll_of_collect listed fit (by simp)

theorem fit_getD {values : List Value} (fits : ∀ value ∈ values, regime.Fit interp value)
    {value : Option Value} (found : ∀ item ∈ value, item ∈ values) :
    regime.Fit interp (value.getD .null) := by
  cases value with
  | none => exact lawful.fit_atom rfl
  | some item => exact fits item (found item rfl)

/-! ## Admissible expressions -/

namespace Admissible

variable {sizes : List Nat} {expr : Expr}

omit lawful

/-- An expression without an address and a target of its own that is no `let` is admissible if what
it gives fits and its parts and its functions are admissible. -/
theorem of_parts (noAddress : expr.address? = none) (noTarget : expr.target? = none)
    (noLet : ∀ inits body, expr ≠ .let_ inits body)
    (given : ∀ value ∈ expr.results, regime.Fit interp value)
    (parts : ∀ part ∈ expr.parts, regime.Admissible sizes interp part)
    (templates : ∀ template ∈ expr.templates, regime.AdmissibleTemplate sizes interp template) :
    regime.Admissible sizes interp expr where
  inScope := .of_parts noAddress noTarget noLet (fun part member => (parts part member).inScope)
    fun template member => (templates template member).inScope
  fits := Expr.forall_inside noLet given (fun part member => (parts part member).fits)
    fun template member => (templates template member).fits

theorem literal {value : Value} (fit : regime.Fit interp value) :
    regime.Admissible sizes interp (.literal value) :=
  .of_parts rfl rfl (by simp) (by simpa [Expr.results] using fit) (by simp [Expr.parts])
    (by simp [Expr.templates])

theorem local_ {address : Address} (inRange : address.InRange sizes) (name : SymbolId) :
    regime.Admissible sizes interp (.local_ address name) where
  inScope := .local_ inRange name
  fits := Expr.forall_inside (by simp) (by simp [Expr.results]) (by simp [Expr.parts])
    (by simp [Expr.templates])

theorem setLocal {address : Address} (inRange : address.InRange sizes)
    (right : regime.Admissible sizes interp expr) :
    regime.Admissible sizes interp (.setLocal address expr) where
  inScope := .setLocal inRange right.inScope
  fits := Expr.forall_inside (by simp) (by simp [Expr.results])
    (by simpa [Expr.parts] using right.fits) (by simp [Expr.templates])

theorem setGlobal {name : SymbolId} (mayWrite : regime.Writable name)
    (right : regime.Admissible sizes interp expr) :
    regime.Admissible sizes interp (.setGlobal name expr) where
  inScope := .setGlobal mayWrite right.inScope
  fits := Expr.forall_inside (by simp) (by simp [Expr.results])
    (by simpa [Expr.parts] using right.fits) (by simp [Expr.templates])

theorem setDynamic {name : SymbolId} (mayWrite : regime.Writable name)
    (right : regime.Admissible sizes interp expr) :
    regime.Admissible sizes interp (.setDynamic name expr) where
  inScope := .setDynamic mayWrite right.inScope
  fits := Expr.forall_inside (by simp) (by simp [Expr.results])
    (by simpa [Expr.parts] using right.fits) (by simp [Expr.templates])

theorem let_ {inits : List Expr} {body : Expr}
    (initsFit : ∀ init ∈ inits, regime.Admissible sizes interp init)
    (inner : regime.Admissible (inits.length :: sizes) interp body) :
    regime.Admissible sizes interp (.let_ inits body) where
  inScope := .let_ (fun init member => (initsFit init member).inScope) inner.inScope
  fits expr inside := by
    cases inside with
    | self => simp [Expr.results]
    | part member inside => exact (initsFit _ member).fits expr inside
    | default member => cases member
    | body member => cases member
    | inner inside => exact inner.fits expr inside

theorem construct {parts : List Expr} (construction : Construction)
    (partsFit : ∀ part ∈ parts, regime.Admissible sizes interp part) :
    regime.Admissible sizes interp (.construct construction parts) :=
  .of_parts rfl rfl (by simp) (by simp [Expr.results]) partsFit (by simp [Expr.templates])

theorem lambda {template : Template Expr}
    (templateFits : regime.AdmissibleTemplate sizes interp template) :
    regime.Admissible sizes interp (.lambda template) :=
  .of_parts rfl rfl (by simp) (by simp [Expr.results]) (by simp [Expr.parts])
    (by simpa [Expr.templates] using templateFits)

theorem defClass (name : SymbolId) {parents : List Expr} {slots : List (String × SlotInit Expr)}
    (parentsFit : ∀ parent ∈ parents, regime.Admissible sizes interp parent)
    (constants : ∀ slot ∈ slots, ∀ value ∈ slot.2.value?, regime.Fit interp value)
    (defaults : ∀ slot ∈ slots, ∀ template ∈ slot.2.template?,
      regime.AdmissibleTemplate sizes interp template) :
    regime.Admissible sizes interp (.defClass name parents slots) := by
  refine .of_parts rfl rfl (by simp) ?_ parentsFit ?_
  · intro value member
    obtain ⟨slot, isSlot, found⟩ := List.mem_filterMap.mp member
    exact constants slot isSlot value found
  · intro template member
    obtain ⟨slot, isSlot, found⟩ := List.mem_filterMap.mp member
    exact defaults slot isSlot template found

end Admissible

omit lawful in
theorem AdmissibleTemplate.of_parts {sizes : List Nat} {template : Template Expr}
    (defaults : ∀ param ∈ template.params.list, ∀ init ∈ param.init,
      regime.Admissible sizes interp init)
    (body : regime.Admissible (template.params.list.length :: sizes) interp template.body) :
    regime.AdmissibleTemplate sizes interp template where
  inScope := ⟨fun param isParam init isInit => (defaults param isParam init isInit).inScope,
    body.inScope⟩
  fits inner contained := by
    rcases contained with ⟨param, isParam, init, isInit, inside⟩ | inside
    · exact (defaults param isParam init isInit).fits inner inside
    · exact body.fits inner inside

end Regime

end ObjectLisp
