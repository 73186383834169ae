import ObjectLisp.Proofs.Evaluation.Commands
import ObjectLisp.Proofs.Evaluation.Outcome

/-!
# Stability of slots

A slot that stores nothing is read by computing its default, and any code can run
before the result is stored.  Once a read has returned a value, or a value was
written, the slot keeps it until another value is written, whatever else happens
to the instance, to its classes and to other slots.

That a run writes no other value is said by an engine that stops at such writes:
the run ends with it as it ends without it.  There are three ways to write a slot,
two built-in functions and the assignment to a member, and a behavior may stand in
front of two of them.

What does not keep a value is a read that was already computing the default when
the value was written.  It stores its own result and does not look again.
-/

namespace ObjectLisp

/-! ## Engines that stop at writes -/

/-- Stop where the action would be a breach. -/
noncomputable def Eval.barring {α : Type} (action : Eval α) (breach : Interp → Prop) : Eval α :=
  open Classical in fun interp => if breach interp then .error .spent interp else action interp

/-- An assignment to a member writes a slot that may not be written. -/
def Member.Breaches (storable : Nat → String → Value → Prop) (object : Value) (name : String)
    (value : Value) (interp : Interp) : Prop :=
  ∃ index, object = .object index ∧ interp.WritesPlainly index name ∧
    ¬ storable index name value

/-- A call writes a slot that may not be written. -/
def Call.Breaches (storable : Nat → String → Value → Prop) (function : Value)
    (arguments : List Value) (interp : Interp) : Prop :=
  ∃ primitive index name value, function = .primitive primitive ∧
    primitive.Writes arguments interp index name value ∧ ¬ storable index name value

/-- One step of evaluation that stops at assignments to members which may not be written. -/
noncomputable def Evaluate.guarded (storable : Nat → String → Value → Prop) (engine : Engine)
    (expr : Expr) (env : Option FrameId) : Eval Value :=
  match expr with
  | .setMember name object value _ => do
      let object ← engine.eval object env
      let value ← engine.eval value env
      (Member.assign engine object name value).barring (Member.Breaches storable object name value)
  | expr => eval engine expr env

/-- The engine with an amount of fuel that stops at writes of slots which may not be written, and in
which some requests take a detour. -/
noncomputable def Engine.guarded (storable : Nat → String → Value → Prop) (detour : Detour) :
    Nat → Engine
  | 0 => empty
  | fuel + 1 =>
      { fuel
        analyze := fun form context =>
          (Analysis.analyze (guarded storable detour fuel) form context).unless
            (detour.analyze form context)
        eval := fun expr env =>
          (Evaluate.guarded storable (guarded storable detour fuel) expr env).unless
            (detour.eval expr env)
        apply := fun function arguments loc =>
          ((Call.value (guarded storable detour fuel) function arguments loc).barring
            (Call.Breaches storable function arguments)).unless
              (detour.apply function arguments loc) }

/-- The engine whose steps ask another engine and stop at writes of slots which may not be
written. -/
noncomputable def Engine.guardedStep (engine : Engine) (storable : Nat → String → Value → Prop)
    (fuel : Nat) : Engine where
  fuel
  analyze := Analysis.analyze engine
  eval := Evaluate.guarded storable engine
  apply function arguments loc :=
    (Call.value engine function arguments loc).barring (Call.Breaches storable function arguments)

namespace Regime

variable {regime : Regime} [lawful : regime.Lawful] {engine twin : Engine} {interp : Interp}

theorem Carries.barring {α : Type} {action other : Eval α} {fits : Interp → α → Prop}
    {breach : Interp → Prop} (good : regime.Good interp)
    (carries : ¬ breach interp → regime.Carries action other fits interp) :
    regime.Carries (action.barring breach) (other.barring breach) fits interp := by
  unfold Carries Eval.barring
  by_cases breaks : breach interp
  · rw [if_pos breaks, if_pos breaks]
    exact Carries.spent good
  · rw [if_neg breaks, if_neg breaks]
    exact carries breaks

theorem guarded_carries (engines : regime.Engines engine twin) (good : regime.Good interp)
    {expr : Expr} {env : Option FrameId} (ready : regime.Ready expr env interp) :
    regime.Carries (Evaluate.guarded regime.Storable engine expr env)
      (Evaluate.guarded regime.Storable twin expr env) regime.Fit interp := by
  cases expr with
  | setMember name object value loc =>
      have parts := fun part => @lawful.ready_part _ _ _ part ready
      refine .bind (engines.eval good (parts object (by simp [Expr.parts])))
        fun object _ first objectFits => ?_
      refine .bind (engines.eval first.1 (first.ready (parts value (by simp [Expr.parts]))))
        fun value _ step valueFits => .barring step.1 fun spared => ?_
      refine Member.assign_carries engines step.1 ?_ (step.fit objectFits) valueFits
      intro index isObject plainly
      by_contra refused
      exact spared ⟨index, isObject, plainly, refused⟩
  | _ =>
      refine Evaluate.eval_carries good engines ready ?_
      intro _ _ _ _ isAssignment
      cases isAssignment

theorem Engines.guardedStep (engines : regime.Engines engine twin) (exact_ : regime.Exact)
    (fuel : Nat) :
    regime.Engines (engine.guardedStep regime.Storable fuel)
      (twin.guardedStep regime.Storable fuel) where
  fuel := .refl fuel
  analyze context good fit := Analysis.analyze_carries good engines context fit
  eval good ready := guarded_carries engines good ready
  apply loc good functionFits fits := by
    refine Carries.barring good fun spared => ?_
    refine Call.value_carries engines good loc functionFits fits ?_
      (fun index _ => Call.closure_carries engines good exact_ index loc fits) fun _ => exact_
    intro primitive index name value isPrimitive writes
    by_contra refused
    exact spared ⟨primitive, index, name, value, isPrimitive, writes, refused⟩

/-- Under a regime, the engine that stops at the writes it does not allow matches every detour that
avoids what is admitted. -/
theorem Avoids.guarded {detour : Detour} (avoids : regime.Avoids detour) (exact_ : regime.Exact)
    (fuel : Nat) :
    regime.Engines (.guarded regime.Storable noDetour fuel)
      (.guarded regime.Storable detour fuel) := by
  induction fuel with
  | zero => exact engines_empty
  | succ fuel ih => exact (ih.guardedStep exact_ fuel).taking avoids

end Regime

/-! ## What a slot stores -/

namespace Interp

variable {interp before after : Interp} {index : Nat} {name : String} {value : Value}

theorem slot?_of_same (same : after.heap.objects = before.heap.objects) :
    after.slot? index name = before.slot? index name := by
  unfold slot?
  rw [same]

theorem lt_size_of_slot? (stored : interp.slot? index name = some value) :
    index < interp.heap.objects.size := by
  by_contra outside
  unfold slot? at stored
  rw [Array.getD_eq_getD_getElem?, Array.getElem?_eq_none (Nat.le_of_not_lt outside)] at stored
  cases stored

/-- A slot that is written stores the value, and all other slots store what they did. -/
theorem slot?_storing (inside : index < interp.heap.objects.size) (other : Nat)
    (otherName : String) (value : Value) :
    (interp.storing other otherName value).slot? index name =
      if other = index ∧ otherName = name then some value else interp.slot? index name := by
  unfold slot? storing
  simp only [Array.getD_eq_getD_getElem?, Array.getElem?_modify]
  by_cases same : other = index
  · subst same
    simp [Array.getElem?_eq_getElem inside, Assoc.find?_insert]
  · simp [same]

theorem slot?_making (inside : index < interp.heap.objects.size) (class_ : ClassId)
    (slots : Assoc String Value) :
    (interp.making class_ slots).slot? index name = interp.slot? index name := by
  unfold slot? making Heap.newObject
  rw [Array.getD_eq_getD_getElem?, Array.getD_eq_getD_getElem?, Array.getElem?_push,
    if_neg (Nat.ne_of_lt inside)]

theorem slot?_customizing (interp : Interp) (other : Nat) :
    (interp.customizing other).slot? index name = interp.slot? index name := by
  unfold slot? customizing
  simp only [Array.getD_eq_getD_getElem?, Array.getElem?_modify]
  split
  · next same =>
      subst same
      cases interp.heap.objects[other]? <;> rfl
  · rfl

/-- If the slot of an instance is written, one of some values is. -/
def OnlyWrites (index : Nat) (name : String) (values : Value → Prop) (other : Nat)
    (otherName : String) (value : Value) : Prop :=
  other = index → otherName = name → values value

/-- An instance exists, and what it stores in a slot is one of some values; if it may, it stores
nothing. -/
structure Keeps (index : Nat) (name : String) (values : Value → Prop) (empty : Prop)
    (interp : Interp) : Prop where
  inside : index < interp.heap.objects.size
  stored : (interp.slot? index name).elim empty values

end Interp

/-! ## The regime of a slot -/

/-- Evaluation keeps a slot of an instance to some values. -/
def Regime.keepingSlot (index : Nat) (name : String) (values : Value → Prop) (empty : Prop) :
    Regime where
  Good := Interp.Keeps index name values empty
  Effect _ _ := True
  Fit _ _ := True
  Ready _ _ _ := True
  Body _ _ _ _ := True
  Writable _ := True
  Storable := Interp.OnlyWrites index name values
  Stops _ stop stop' := stop' = stop

namespace Interp.Keeps

variable {index : Nat} {name : String} {values : Value → Prop} {empty : Prop}
  {before after : Interp} (keeps : before.Keeps index name values empty)

include keeps

theorem of_same (objects : after.heap.objects = before.heap.objects) :
    after.Keeps index name values empty where
  inside := objects ▸ keeps.inside
  stored := slot?_of_same objects ▸ keeps.stored

/-- Only writes change what a slot stores. -/
theorem move (move : (Regime.keepingSlot index name values empty).Move before after) :
    after.Keeps index name values empty := by
  cases move with
  | store quiet classes objects held => exact keeps.of_same objects
  | @slot other otherName value mayStore fit =>
      refine ⟨(Array.size_modify ..).symm ▸ keeps.inside, ?_⟩
      rw [slot?_storing keeps.inside]
      split
      · next same => exact mayStore same.1 same.2
      · exact keeps.stored
  | object fit stored =>
      refine ⟨?_, slot?_making keeps.inside _ _ ▸ keeps.stored⟩
      exact Nat.lt_trans keeps.inside (Array.size_push .. ▸ Nat.lt_succ_self _)
  | own other =>
      refine ⟨(Array.size_modify ..).symm ▸ keeps.inside, ?_⟩
      exact slot?_customizing before other ▸ keeps.stored
  | _ => exact keeps.of_same rfl

end Interp.Keeps

namespace Regime

variable {index : Nat} {name : String} {values : Value → Prop} {empty : Prop}

theorem keepingSlot_exact : (keepingSlot index name values empty).Exact := fun _ _ _ => Iff.rfl

/-- Where a slot may be empty, its default may be any value. -/
theorem keepingSlot_lawful (defaults : empty → ∀ value, values value) :
    (keepingSlot index name values empty).Lawful where
  refl _ := trivial
  trans _ _ := trivial
  fit_effect _ _ := trivial
  fit_same _ _ := trivial
  fit_atom _ := trivial
  fit_cons := ⟨fun _ => ⟨trivial, trivial⟩, fun _ => trivial⟩
  fit_symbol _ _ _ := trivial
  fit_held _ _ := trivial
  fit_order _ _ _ := trivial
  fit_nominal _ _ := trivial
  fit_defined _ _ := trivial
  ready_effect _ _ := trivial
  body_effect _ _ := trivial
  ready_bind _ _ := trivial
  ready_part _ _ := trivial
  ready_let _ := trivial
  ready_top _ := trivial
  ready_value _ _ := trivial
  ready_target _ _ := trivial
  ready_default _ _ _ _ _ _ := trivial
  closure_body _ _ := trivial
  writable _ _ := trivial
  storable_default := by
    rintro interp _ _ value keeps isEmpty rfl rfl
    have mayBeEmpty := keeps.stored
    rw [isEmpty] at mayBeEmpty
    exact defaults mayBeEmpty value
  move keeps move := ⟨keeps.move move, trivial⟩
  bind keeps _ := ⟨keeps.of_same rfl, fun _ step => ⟨step.1.of_same rfl, trivial⟩⟩
  call keeps _ := ⟨keeps.of_same rfl, fun _ step => ⟨step.1.of_same rfl, trivial⟩⟩
  enter keeps _ _ :=
    ⟨⟨keeps.of_same rfl, fun _ step => ⟨step.1.of_same rfl, trivial⟩⟩, trivial⟩
  load keeps := ⟨keeps, fun _ step => ⟨step.1.of_same rfl, trivial⟩⟩
  stops_failure _ _ := rfl
  stops_spent _ := rfl
  stops_same _ same := same

end Regime

/-! ## Reads and writes -/

namespace Object

variable {interp before after : Interp} {index : Nat} {name : String} {value : Value}

/-- Compute the default of a slot and store it. -/
def fill (engine : Engine) (index : Nat) (class_ : ClassId) (name : String) : Eval Value := do
  let slot ← definition class_ name
  let value ← defaultValue engine slot.default
  store index slot.name value
  return value

/-- A slot that stores a value is not filled. -/
theorem slotValue_eq (engine : Engine) (index : Nat) (name : String) (interp : Interp) :
    slotValue engine (.object index) name interp =
      (interp.slot? index name).elim
        (fill engine index (interp.heap.objects.getD index default).membership.effective name
          interp)
        (.ok · interp) := by
  have isIndex : Object.index (.object index) interp = .ok index interp := rfl
  have isInstance : Eval.instance_ index interp =
    .ok (interp.heap.objects.getD index default) interp := rfl
  unfold slotValue Interp.slot?
  rw [Eval.bind_of_ok isIndex, Eval.bind_of_ok isInstance]
  cases (interp.heap.objects.getD index default).slots.find? name <;> rfl

/-- A value that is stored is read, and nothing else happens. -/
theorem slotValue_of_stored (stored : interp.slot? index name = some value) (engine : Engine) :
    slotValue engine (.object index) name interp = .ok value interp := by
  rw [slotValue_eq, stored]
  rfl

/-- An instance stays while a default is computed, so the slot stores the default in the end. -/
theorem slot?_of_fill (inside : index < before.heap.objects.size) {fuel : Nat} {class_ : ClassId}
    (ran : fill (.ofFuel fuel) index class_ name before = .ok value after) :
    after.slot? index name = some value := by
  -- Nothing is demanded of what the slot stores.
  let regime := Regime.keepingSlot index name (fun _ => True) True
  have lawful : regime.Lawful := Regime.keepingSlot_lawful fun _ _ => trivial
  have isOpen : regime.Open := fun _ _ _ _ _ => trivial
  have good : regime.Good before := ⟨inside, by cases before.slot? index name <;> trivial⟩
  have carries : ∀ engine twin, regime.Engines engine twin →
      regime.Carries (fill engine index class_ name) (fill twin index class_ name)
        (fun after value => after.slot? index name = some value) before := by
    intro engine twin engines
    refine .bind (definition_keeps good class_ name) fun slot _ step found => ?_
    obtain ⟨rfl, _⟩ := found
    refine .bind (defaultValue_carries engines step.1 trivial) fun value _ step _ => ?_
    refine .ok (lawful.move step.1 (.slot (isOpen _ _ _) trivial)) ?_
    exact (Interp.slot?_storing step.1.inside _ _ _).trans (if_pos ⟨rfl, rfl⟩)
  have ends := Regime.keepingSlot_exact.ends_run isOpen carries fuel
  rw [ran] at ends
  exact ends.2

/-- A slot that was read stores the value that the read returned, whatever it stored while the
default was computed. -/
theorem slot?_of_slotValue (inside : index < before.heap.objects.size) {fuel : Nat}
    (ran : slotValue (.ofFuel fuel) (.object index) name before = .ok value after) :
    after.slot? index name = some value := by
  rw [slotValue_eq] at ran
  cases stored : before.slot? index name with
  | some found =>
      rw [stored] at ran
      cases ran
      exact stored
  | none =>
      rw [stored] at ran
      exact slot?_of_fill inside ran

end Object

/-! ## Later states -/

namespace Interp

variable {index : Nat} {name : String} {value : Value} {values : Value → Prop} {start : Interp}

/-- The state right after a value was read from a slot of an instance or written to it. -/
inductive Exchanged (index : Nat) (name : String) (value : Value) : Interp → Prop where
  | read {before after : Interp} (inside : index < before.heap.objects.size) {fuel : Nat}
      (ran : Object.slotValue (.ofFuel fuel) (.object index) name before = .ok value after) :
      Exchanged index name value after
  | written {before after : Interp} (inside : index < before.heap.objects.size) {result : Value}
      (ran : Object.setSlotValue (.object index) name value before = .ok result after) :
      Exchanged index name value after

/-- The states that follow one, as long as only some values are written to a slot and no read that
was under way at the start comes to store its default. -/
inductive Later (index : Nat) (name : String) (values : Value → Prop) (start : Interp) :
    Interp → Prop where
  | start : Later index name values start start
  /-- A command that writes no other value ends, in any way. -/
  | command {current : Interp} (later : Later index name values start current)
      (command : Command) (fuel : Nat)
      (unwritten : command.run (.guarded (OnlyWrites index name values) Regime.noDetour fuel)
        current = command.run (.ofFuel fuel) current) :
      Later index name values start (Eval.final (command.run (.ofFuel fuel) current))
  /-- A command that has written no other value yet asks its engine for something. -/
  | inside {current met : Interp} (later : Later index name values start current)
      (command : Command) (fuel : Nat) {detour : Detour} {request : Request}
      (only : detour.Only request met)
      (differs : command.run (.guarded (OnlyWrites index name values) detour fuel) current ≠
        command.run (.guarded (OnlyWrites index name values) Regime.noDetour fuel) current) :
      Later index name values start met
  /-- All else may change in any way. -/
  | host {current changed : Interp} (later : Later index name values start current)
      (same : changed.slot? index name = current.slot? index name) :
      Later index name values start changed

theorem Exchanged.stored (exchanged : start.Exchanged index name value) :
    start.slot? index name = some value := by
  cases exchanged with
  | read inside ran => exact Object.slot?_of_slotValue inside ran
  | written inside ran =>
      cases ran
      exact (slot?_storing inside index name value).trans (if_pos ⟨rfl, rfl⟩)

theorem keeps_iff {interp : Interp} : interp.Keeps index name values False ↔
    ∃ value, interp.slot? index name = some value ∧ values value := by
  constructor
  · intro keeps
    have stored := keeps.stored
    cases found : interp.slot? index name with
    | some value =>
        rw [found] at stored
        exact ⟨value, rfl, stored⟩
    | none =>
        rw [found] at stored
        exact stored.elim
  · rintro ⟨value, stored, isValue⟩
    exact ⟨lt_size_of_slot? stored, stored ▸ isValue⟩

/-- What one command, or a change of something else, keeps is kept by all of them. -/
theorem Later.keeps {later : Interp} (isLater : start.Later index name values later)
    (keeps : start.Keeps index name values False) : later.Keeps index name values False := by
  have lawful : (Regime.keepingSlot index name values False).Lawful :=
    Regime.keepingSlot_lawful False.elim
  have exact_ : (Regime.keepingSlot index name values False).Exact := Regime.keepingSlot_exact
  have carries : ∀ command (current : Interp), current.Keeps index name values False →
      ∀ engine twin, (Regime.keepingSlot index name values False).Engines engine twin →
        (Regime.keepingSlot index name values False).Carries (Command.run engine command)
          (Command.run twin command) (fun _ _ => True) current := by
    intro command current keeps engine twin engines
    exact Command.run_carries engines exact_ command keeps
      (Command.brings_of_ready (fun _ => trivial) fun _ _ _ => trivial)
  induction isLater with
  | start => exact keeps
  | command _ command fuel unwritten keeps =>
      have engines := (Regime.avoids_noDetour _).guarded exact_ fuel
      rw [← unwritten]
      exact (carries command _ keeps _ _ engines).ends.step.1
  | inside _ command fuel only differs keeps =>
      have admitted := exact_.admits_of_differs (carries command _ keeps) id
        (fun _ avoids => avoids.guarded exact_ fuel) only differs
      exact admitted.good
  | host _ same keeps =>
      rw [keeps_iff] at keeps ⊢
      rwa [same]

/-- After a value was read from a slot or written to it, every later read returns this value if no
other is written, and in any case a value that was written. -/
theorem Exchanged.reads_stable (exchanged : start.Exchanged index name value) :
    (∀ later, start.Later index name (· = value) later → ∀ engine,
      Object.slotValue engine (.object index) name later = .ok value later) ∧
    ∀ values later, values value → start.Later index name values later →
      ∃ kept, values kept ∧ ∀ engine,
        Object.slotValue engine (.object index) name later = .ok kept later := by
  have reads : ∀ values later, values value → start.Later index name values later →
      ∃ kept, values kept ∧ ∀ engine,
        Object.slotValue engine (.object index) name later = .ok kept later := by
    intro values later isValue isLater
    have keeps := isLater.keeps (keeps_iff.mpr ⟨value, exchanged.stored, isValue⟩)
    obtain ⟨kept, stored, isKept⟩ := keeps_iff.mp keeps
    exact ⟨kept, isKept, Object.slotValue_of_stored stored⟩
  refine ⟨?_, reads⟩
  intro later isLater
  obtain ⟨_, rfl, read⟩ := reads (· = value) later rfl isLater
  exact read

end Interp

/-! ## A slot that writes itself -/

/-- A built-in function that neither writes a slot nor calls back does the same under guard. -/
theorem Engine.apply_guarded {primitive : Primitive} (noCall : primitive.callsBack = false)
    (noWrite : primitive ≠ .setSlotValue) (storable : Nat → String → Value → Prop) (fuel : Nat)
    (arguments : List Value) (loc : Option SourceLoc) :
    (guarded storable Regime.noDetour (fuel + 1)).apply (.primitive primitive) arguments loc =
      (ofFuel (fuel + 1)).apply (.primitive primitive) arguments loc := by
  funext interp
  have spared : ¬ Call.Breaches storable (.primitive primitive) arguments interp := by
    rintro ⟨_, index, name, value, isPrimitive, ⟨given, _, _, writes⟩, _⟩
    cases isPrimitive
    rcases writes with rfl | ⟨rfl, _⟩
    · exact noWrite rfl
    · cases noCall
  change Eval.barring _ _ interp = _
  rw [Eval.barring, if_neg spared]
  change Library.call _ primitive arguments interp = Library.call _ primitive arguments interp
  unfold Library.call
  rw [Library.run_congr noCall]

section Session

/-- The default of the slot `x` is 7, but its computation writes 5 to the slot of the first
instance. -/
private def defining : Command :=
  .eval (.defClass 0 [] [("x", .computed {
    name := none
    params := {}
    body := .block [
      .apply (.literal (.primitive .setSlotValue))
        [.literal (.object 0), .literal (.str 0 "x"), .literal (.ofNat 5)] none,
      .literal (.ofNat 7)] })]) none

private def instantiating : Command := .call (.class_ 1) [] none

/-- The class has one instance. -/
private def session : Interp :=
  Eval.final (instantiating.run (.ofFuel 9) (Eval.final (defining.run (.ofFuel 9) {})))

private def reading : EStateM.Result Stop Interp Value :=
  Object.slotValue (.ofFuel 9) (.object 0) "x" session

/-- Computing the default without storing it. -/
private def computing : EStateM.Result Stop Interp Value :=
  (do
    let slot ← Object.definition (session.heap.objects.getD 0 default).membership.effective "x"
    Object.defaultValue (.ofFuel 9) slot.default : Eval Value) session

/-- The class loses the slot after it was read. -/
private def removing : Command := .call (.primitive .removeSlot) [.class_ 1, .str 0 "x"] none

private def removed : Interp := Eval.final (removing.run (.ofFuel 1) (Eval.final reading))

private def returns (number : Nat) : EStateM.Result Stop Interp Value → Bool
  | .ok value _ => Value.same (.ofNat number) value
  | .error _ _ => false

private theorem eq_ok_of_returns {number : Nat} {result : EStateM.Result Stop Interp Value}
    (isNumber : returns number result = true) :
    result = .ok (.ofNat number) (Eval.final result) := by
  cases result with
  | ok value after => rw [Value.eq_ofNat_of_same isNumber]; rfl
  | error stop after => cases isNumber

private theorem session_facts :
    session.heap.objects.size = 1 ∧ (session.slot? 0 "x").isNone ∧
    returns 7 reading = true ∧ returns 7 computing = true ∧
    ((Eval.final computing).slot? 0 "x").any (Value.same (.ofNat 5)) = true ∧
    (removed.classes.effectiveSlot? 1 "x").1.isNone := by
  decide +kernel

private theorem session_inside : 0 < session.heap.objects.size :=
  session_facts.1.symm ▸ Nat.one_pos

/-- The class does not define the slot any more, and still it is read as before. -/
theorem Interp.Exchanged.reads_stable_without_definition :
    (Eval.final reading).Exchanged 0 "x" (.ofNat 7) ∧
    (removed.classes.effectiveSlot? 1 "x").1 = none ∧
    (Eval.final reading).Later 0 "x" (· = .ofNat 7) removed ∧
    ∀ engine, Object.slotValue engine (.object 0) "x" removed = .ok (.ofNat 7) removed := by
  obtain ⟨_, _, reads, _, _, undefined_⟩ := session_facts
  have exchanged : (Eval.final reading).Exchanged 0 "x" (.ofNat 7) :=
    .read session_inside (eq_ok_of_returns reads)
  have unwritten := @Engine.apply_guarded .removeSlot rfl (by decide)
  have later : (Eval.final reading).Later 0 "x" (· = .ofNat 7) removed :=
    .command .start removing 1 (congrFun (unwritten _ 0 _ none) _)
  exact ⟨exchanged, Option.isNone_iff_eq_none.mp undefined_, later,
    exchanged.reads_stable.1 removed later⟩

/-- The read does not look again whether the slot was written while its default was computed. -/
theorem Interp.Exchanged.written_value_replaced :
    ∃ interp slot first middle after,
      Interp.Runs (fun _ => True) {} interp ∧
      interp.slot? 0 "x" = none ∧
      Object.definition (interp.heap.objects.getD 0 default).membership.effective "x" interp =
        .ok slot first ∧
      Object.defaultValue (.ofFuel 9) slot.default first = .ok (.ofNat 7) middle ∧
      middle.slot? 0 "x" = some (.ofNat 5) ∧
      Object.slotValue (.ofFuel 9) (.object 0) "x" interp = .ok (.ofNat 7) after ∧
      after.slot? 0 "x" = some (.ofNat 7) := by
  obtain ⟨_, isEmpty, reads, computes, isWritten, _⟩ := session_facts
  have read := eq_ok_of_returns reads
  have computed := eq_ok_of_returns computes
  obtain ⟨slot, first, defined, computed⟩ := Eval.bind_eq_ok_iff.mp computed
  have runs : Interp.Runs (fun _ => True) {} session :=
    .command (.command .start defining trivial 9) instantiating trivial 9
  obtain ⟨value, stored, isFive⟩ := (Option.any_eq_true _ _).mp isWritten
  obtain rfl := Value.eq_ofNat_of_same isFive
  exact ⟨session, slot, first, _, _, runs, Option.isNone_iff_eq_none.mp isEmpty, defined, computed,
    stored, read, Object.slot?_of_slotValue session_inside read⟩

end Session

end ObjectLisp
