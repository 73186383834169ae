import ObjectLisp.Proofs.Evaluation.Run

/-!
# Disciplines of evaluation

A discipline says which states are good, what an evaluation may do to a state,
when an expression is ready to be evaluated in a frame, and which globals may be
written.  It is lawful if it respects the few actions that are not plain: making a
closure, assigning a variable, and the four brackets of evaluation, which are a
closure call, a new frame, a dynamic binding and a file that is loaded.  A global
may be written if the symbols had no objection to it in a good state, at that time
or before.

A discipline is a regime that does not look at values, and under which engines
stop in the same way.  So for a lawful discipline every evaluation that starts
well ends well, whatever its outcome, and reaches only requests that are made in
good states and for ready expressions.
-/

namespace ObjectLisp

/-- What is demanded of states and expressions, and granted to evaluations. -/
structure Discipline where
  /-- The states in which evaluation may start, and in which it ends. -/
  Good : Interp → Prop
  /-- What an evaluation may have done between two states. -/
  Effect : Interp → Interp → Prop
  /-- The expression may be evaluated in the frame. -/
  Ready : Expr → Option FrameId → Interp → Prop
  /-- The expression may be evaluated in a new frame of a size inside another frame. -/
  Body : Expr → (size : Nat) → (parent : Option FrameId) → Interp → Prop
  /-- The global may be written. -/
  Writable : SymbolId → Prop

namespace Discipline

/-- The regime under which all values fit. -/
def regime (discipline : Discipline) : Regime where
  Good := discipline.Good
  Effect := discipline.Effect
  Fit _ _ := True
  Ready := discipline.Ready
  Body := discipline.Body
  Writable := discipline.Writable
  Stops _ stop stop' := stop' = stop

theorem exact (discipline : Discipline) : discipline.regime.Exact :=
  fun _ _ _ => .rfl

theorem isOpen (discipline : Discipline) : discipline.regime.Open :=
  fun _ _ _ => trivial

/-- A good state with an effect that is allowed. -/
def Step (discipline : Discipline) (before after : Interp) : Prop :=
  discipline.Good after ∧ discipline.Effect before after

/-- Whatever happens inside, restoring makes the whole an allowed step. -/
structure Bracket (discipline : Discipline) (before inside : Interp)
    (restore : Interp → Interp) : Prop where
  good : discipline.Good inside
  closes : ∀ after, discipline.Step inside after → discipline.Step before (restore after)

/-- A discipline that respects the actions on the control part and on the globals. -/
structure Lawful (discipline : Discipline) : Prop where
  refl : ∀ interp, discipline.Effect interp interp
  trans : ∀ {first second third}, discipline.Effect first second →
    discipline.Effect second third → discipline.Effect first third
  ready_effect : ∀ {before after expr env}, discipline.Effect before after →
    discipline.Ready expr env before → discipline.Ready expr env after
  body_effect : ∀ {before after expr size parent}, discipline.Effect before after →
    discipline.Body expr size parent before → discipline.Body expr size parent after
  ready_bind : ∀ {interp expr env} (bindings), discipline.Ready expr env interp →
    discipline.Ready expr env (interp.binding bindings)
  ready_part : ∀ {interp expr env part}, discipline.Ready expr env interp →
    part ∈ expr.parts → discipline.Ready part env interp
  ready_let : ∀ {interp inits body env}, discipline.Ready (.let_ inits body) env interp →
    discipline.Body body inits.length env interp
  ready_top : ∀ {expr : Expr} (interp), expr.Scoped discipline.Writable [] →
    discipline.Ready expr none interp
  ready_target : ∀ {interp expr env name}, discipline.Ready expr env interp →
    expr.target? = some name → discipline.Writable name
  ready_default : ∀ {interp : Interp} (index), discipline.Good interp →
    ∀ param ∈ (interp.closure index).template.params.list, ∀ init ∈ param.init,
      discipline.Ready init (interp.closure index).env interp
  closure_body : ∀ {interp : Interp} (index), discipline.Good interp →
    discipline.Body (interp.closure index).template.body
      (interp.closure index).template.params.list.length (interp.closure index).env interp
  writable : ∀ {interp : Interp} {name}, discipline.Good interp →
    interp.symbols.assignmentProblem? name = none → discipline.Writable name
  plain : ∀ {before after : Interp}, discipline.Good before → before.Quiet after →
    discipline.Step before after
  write : ∀ {interp : Interp} {name} (value), discipline.Good interp →
    discipline.Writable name →
      discipline.Step interp { interp with globals := interp.globals.set name value }
  close : ∀ {interp expr env template}, discipline.Good interp →
    discipline.Ready expr env interp → template ∈ expr.templates →
      discipline.Step interp (interp.closing template env)
  assign : ∀ {interp address expr env} (value), discipline.Good interp →
    discipline.Ready (.setLocal address expr) env interp →
      discipline.Step interp (interp.assigning env address value)
  assign_dynamic : ∀ {interp : Interp} {name value dynamic}, discipline.Good interp →
    interp.dynamic.assign? name value = some dynamic →
      discipline.Step interp { interp with dynamic }
  bind : ∀ {interp : Interp} (bindings), discipline.Good interp →
    discipline.Bracket interp (interp.binding bindings)
      (Interp.unwinding interp.dynamic.height)
  call : ∀ {interp : Interp}, discipline.Good interp →
    interp.depth < interp.config.maxDepth →
      discipline.Bracket interp interp.deeper Interp.shallower
  enter : ∀ {interp : Interp} {slots parent body}, discipline.Good interp →
    discipline.Body body slots.length parent interp →
      discipline.Bracket interp (interp.entering slots parent)
        (Interp.leaving (interp.nextFrame slots parent)) ∧
      discipline.Ready body (some (interp.nextFrame slots parent))
        (interp.entering slots parent)
  load : ∀ {interp : Interp}, discipline.Good interp →
    discipline.Bracket interp interp (Interp.returning interp.package)

variable {discipline : Discipline}

theorem Bracket.regime {before inside : Interp} {restore : Interp → Interp}
    (bracket : discipline.Bracket before inside restore) :
    discipline.regime.Bracket before inside restore :=
  ⟨bracket.good, bracket.closes⟩

/-- All moves but the few that a discipline has laws for are quiet. -/
theorem Lawful.move (lawful : discipline.Lawful) {before after : Interp}
    (good : discipline.Good before) (move : discipline.regime.Move before after) :
    discipline.Step before after := by
  have quietly : ∀ {heap : Heap} {classes : ClassSpace SlotDefault Value},
      heap.closures = before.heap.closures →
        discipline.Step before { before with heap, classes } :=
    fun closures => lawful.plain good ⟨⟨rfl, rfl, rfl, rfl, closures⟩, rfl, rfl, .refl, .inl rfl⟩
  cases move with
  | store quiet => exact lawful.plain good quiet
  | slot => exact quietly rfl
  | object => exact quietly rfl
  | own => exact quietly rfl
  | linearize => exact quietly rfl
  | chain => exact quietly rfl
  | addSlot => exact quietly rfl
  | removeSlot => exact quietly rfl
  | addBehavior => exact quietly rfl
  | extend => exact quietly rfl
  | define => exact quietly rfl
  | write mayWrite => exact lawful.write _ good mayWrite
  | close ready member => exact lawful.close good ready member
  | assign ready => exact lawful.assign _ good ready
  | assignDynamic assigned => exact lawful.assign_dynamic good assigned

/-- A lawful discipline is a lawful regime. -/
theorem Lawful.regime (lawful : discipline.Lawful) : discipline.regime.Lawful where
  refl := lawful.refl
  trans := lawful.trans
  fit_effect _ _ := trivial
  fit_same _ _ := trivial
  fit_atom _ := trivial
  fit_cons := ⟨fun _ => ⟨trivial, trivial⟩, fun _ => trivial⟩
  fit_symbol _ _ _ := trivial
  fit_held _ _ := trivial
  fit_order _ _ _ := trivial
  fit_nominal _ _ := trivial
  fit_defined _ _ := trivial
  ready_effect := lawful.ready_effect
  body_effect := lawful.body_effect
  ready_bind := lawful.ready_bind
  ready_part := lawful.ready_part
  ready_let := lawful.ready_let
  ready_top admissible := lawful.ready_top _ admissible.inScope
  ready_value _ _ := trivial
  ready_target := lawful.ready_target
  ready_default := lawful.ready_default
  closure_body := lawful.closure_body
  writable := lawful.writable
  storable_default _ _ _ := trivial
  move := lawful.move
  bind good _ := (lawful.bind _ good).regime
  call good mayCall := (lawful.call good mayCall).regime
  enter good _ body := ⟨(lawful.enter good body).1.regime, (lawful.enter good body).2⟩
  load good := (lawful.load good).regime
  stops_failure _ _ := rfl
  stops_spent _ := rfl
  stops_same _ same := same

/-! ## Sound actions -/

/-- An outcome that ends an allowed step, with a value that fits. -/
def Outcome {α : Type} (discipline : Discipline) (fits : α → Prop) (before : Interp) :
    EStateM.Result Stop Interp α → Prop
  | .ok value after => discipline.Step before after ∧ fits value
  | .error _ after => discipline.Step before after

/-- From a state, an action and its twin do the same, and that is allowed. -/
def Sound {α : Type} (discipline : Discipline) (action twin : Eval α) (fits : α → Prop)
    (before : Interp) : Prop :=
  discipline.regime.Carries action twin (fun _ => fits) before

/-- Two engines whose answers to admissible requests are sound for a lawful discipline. -/
structure Engines (discipline : Discipline) (engine twin : Engine) : Prop where
  lawful : discipline.Lawful
  matching : discipline.regime.Engines engine twin

variable {engine twin : Engine} {interp : Interp} {α : Type} {fits : α → Prop}

theorem Outcome.step {before : Interp} {result : EStateM.Result Stop Interp α}
    (outcome : discipline.Outcome fits before result) :
    discipline.Step before (Eval.final result) := by
  cases result with
  | ok value after => exact outcome.1
  | error stop after => exact outcome

namespace Engines

variable (engines : discipline.Engines engine twin)

include engines

theorem eval {expr : Expr} {env : Option FrameId} (good : discipline.Good interp)
    (ready : discipline.Ready expr env interp) :
    discipline.Sound (engine.eval expr env) (twin.eval expr env) (fun _ => True) interp :=
  engines.matching.eval good ready

theorem apply (function : Value) (arguments : List Value) (loc : Option SourceLoc)
    (good : discipline.Good interp) :
    discipline.Sound (engine.apply function arguments loc) (twin.apply function arguments loc)
      (fun _ => True) interp :=
  engines.matching.apply loc good trivial fun _ _ => trivial

end Engines

/-! ## The engine that runs -/

/-- The request may be made in the state. -/
def Admits (discipline : Discipline) (request : Request) (interp : Interp) : Prop :=
  discipline.Good interp ∧
    ∀ expr env, request = .eval expr env → discipline.Ready expr env interp

namespace Lawful

variable (lawful : discipline.Lawful) {run : Engine → Eval α}
  (sound : ∀ engine twin, discipline.Engines engine twin →
    discipline.Sound (run engine) (run twin) fits interp)

include lawful sound

/-- What a run may do to a state, if the run is sound with sound engines. -/
theorem outcome (fuel : Nat) : discipline.Outcome fits interp (run (.ofFuel fuel) interp) := by
  have := lawful.regime
  have ends := discipline.exact.ends_run discipline.isOpen
    (fun engine twin engines => sound engine twin ⟨lawful, engines⟩) fuel
  generalize run (.ofFuel fuel) interp = result at ends ⊢
  cases result with
  | ok value after => exact ends
  | error stop after => exact ends

/-- A run reaches only requests that are admitted, if it is sound with sound engines. -/
theorem admits_of_reaches {fuel : Nat} {request : Request} {reached : Interp}
    (reaches : Reaches run fuel interp request reached) : discipline.Admits request reached := by
  have := lawful.regime
  have admitted := discipline.exact.admits_of_reaches discipline.isOpen
    (fun engine twin engines => sound engine twin ⟨lawful, engines⟩) id reaches
  refine ⟨admitted.good, ?_⟩
  rintro expr env rfl
  exact admitted.2

end Lawful

end Discipline

/-! ## Forms, texts and bindings -/

variable {discipline : Discipline} {engine twin : Engine} {interp : Interp}
  (engines : discipline.Engines engine twin)

include engines

theorem Source.evalForm_sound (form : Value) (source : SourceMap)
    (good : discipline.Good interp) :
    discipline.Sound (evalForm engine form source) (evalForm twin form source)
      (fun _ => True) interp :=
  have := engines.lawful.regime
  evalForm_carries engines.matching good source trivial

theorem Source.evalText_sound (file text : String) (good : discipline.Good interp) :
    discipline.Sound (evalText engine file text) (evalText twin file text)
      (fun _ => True) interp :=
  have := engines.lawful.regime
  evalText_carries engines.matching good discipline.exact file text

theorem Evaluate.dynamicInits_sound {env : Option FrameId} {bindings : List (SymbolId × Expr)}
    (good : discipline.Good interp)
    (ready : ∀ init ∈ bindings.map (·.2), discipline.Ready init env interp) :
    discipline.Sound (dynamicInits engine env bindings) (dynamicInits twin env bindings)
      (fun values => values.map Prod.fst = bindings.map Prod.fst) interp :=
  have := engines.lawful.regime
  (dynamicInits_carries good engines.matching ready).mono fun _ _ found => found.1

end ObjectLisp
