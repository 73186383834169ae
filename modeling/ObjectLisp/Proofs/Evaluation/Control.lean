import ObjectLisp.Proofs.Evaluation.Discipline
import ObjectLisp.Proofs.Frame.WellFormed

/-!
# Evaluation restores the control state

Calls count their depth, binding forms make frames active and push dynamic
bindings, and all of them undo this when they end, however they end.  So after an
evaluation the depth, the active frames and the symbols of the dynamic stack are
what they were before.

An assignment reaches only the innermost binding of a dynamic variable.  The
values below it are therefore kept, and a binding form hands back the values of
its variables untouched.
-/

namespace ObjectLisp

universe u

/-! ## Dynamic stacks -/

namespace DynamicStack

variable {α : Type u} {before after : DynamicStack α}

/-- The bound symbols, innermost first. -/
def symbols (stack : DynamicStack α) : List SymbolId := stack.bindings.map Prod.fst

/-- The same symbols are bound, and values with another binding of their symbol inside are the
same. -/
structure Kept (before after : DynamicStack α) : Prop where
  symbols : after.symbols = before.symbols
  shadowed : ∀ (position : Nat) (entry : SymbolId × α), before.bindings[position]? = some entry →
    entry.1 ∈ before.symbols.take position → after.bindings[position]? = some entry

theorem Kept.refl (stack : DynamicStack α) : stack.Kept stack :=
  ⟨rfl, fun _ _ same _ => same⟩

theorem Kept.trans {last : DynamicStack α} (first : before.Kept after) (second : after.Kept last) :
    before.Kept last := by
  constructor
  · rw [second.symbols, first.symbols]
  · intro position entry present inner
    apply second.shadowed position entry
    · exact first.shadowed position entry present inner
    · rwa [first.symbols]

/-- Assigning in a list of bindings changes the first binding of the symbol only. -/
theorem assignIn_spec {symbol : SymbolId} {value : α} {bindings later : List (SymbolId × α)}
    (assigned : assignIn symbol value bindings = some later) :
    later.map Prod.fst = bindings.map Prod.fst ∧
      ∀ (position : Nat) (entry : SymbolId × α), bindings[position]? = some entry →
        entry.1 ≠ symbol ∨ entry.1 ∈ (bindings.map Prod.fst).take position →
          later[position]? = some entry := by
  induction bindings generalizing later with
  | nil => cases assigned
  | cons binding rest ih =>
      obtain ⟨bound, old⟩ := binding
      unfold assignIn at assigned
      by_cases same : bound = symbol
      · rw [if_pos same] at assigned
        cases assigned
        constructor
        · rfl
        · intro position entry present other
          cases position with
          | zero =>
              cases present
              rcases other with different | inner
              · exact absurd same different
              · cases inner
          | succ position => exact present
      · rw [if_neg same] at assigned
        obtain ⟨laterRest, assignedRest, rfl⟩ := Option.map_eq_some_iff.mp assigned
        obtain ⟨sameSymbols, keeps⟩ := ih assignedRest
        constructor
        · rw [List.map_cons, List.map_cons, sameSymbols]
        · intro position entry present other
          cases position with
          | zero => exact present
          | succ position =>
              apply keeps position entry present
              rcases other with different | inner
              · exact .inl different
              · rw [List.map_cons, List.take_succ_cons] at inner
                rcases List.mem_cons.mp inner with here | further
                · exact .inl (here ▸ same)
                · exact .inr further

theorem kept_assign {symbol : SymbolId} {value : α}
    (assigned : before.assign? symbol value = some after) : before.Kept after := by
  obtain ⟨later, assignedIn, rfl⟩ := Option.map_eq_some_iff.mp assigned
  obtain ⟨sameSymbols, keeps⟩ := assignIn_spec assignedIn
  exact ⟨sameSymbols, fun position entry present inner => keeps position entry present (.inr inner)⟩

theorem bindings_pushAll (stack : DynamicStack α) (bindings : List (SymbolId × α)) :
    (stack.pushAll bindings).bindings = bindings.reverse ++ stack.bindings := by
  unfold pushAll
  induction bindings generalizing stack with
  | nil => rfl
  | cons binding rest ih =>
      rw [List.foldl_cons, ih, List.reverse_cons, List.append_assoc]
      rfl

/-- Dropping new bindings leaves the old ones, each in its place. -/
theorem getElem?_unwind {stack : DynamicStack α} {bindings : List (SymbolId × α)}
    (kept : (stack.pushAll bindings).Kept after) (position : Nat) :
    (after.unwind stack.height).bindings[position]? =
      after.bindings[bindings.length + position]? := by
  have height : after.height = bindings.length + stack.height := by
    have lengths := congrArg List.length kept.symbols
    simpa [symbols, bindings_pushAll, height] using lengths
  unfold unwind
  rw [List.getElem?_drop, height, Nat.add_sub_cancel]

/-- Among the old bindings, those of the symbols that were bound anew have kept their values. -/
theorem getElem?_unwind_of_mem {stack : DynamicStack α} {bindings : List (SymbolId × α)}
    (kept : (stack.pushAll bindings).Kept after) {position : Nat} {entry : SymbolId × α}
    (present : stack.bindings[position]? = some entry)
    (inner : entry.1 ∈ bindings.map Prod.fst ∨ entry.1 ∈ stack.symbols.take position) :
    (after.unwind stack.height).bindings[position]? = some entry := by
  rw [getElem?_unwind kept]
  apply kept.shadowed
  · rw [bindings_pushAll, List.getElem?_append_right (by simp)]
    simpa using present
  · have listed : (stack.pushAll bindings).symbols =
        (bindings.map Prod.fst).reverse ++ stack.symbols := by
      simp [symbols, bindings_pushAll]
    rw [listed, List.take_append, List.mem_append]
    rcases inner with new | old
    · left
      rw [List.take_of_length_le (by simp)]
      exact List.mem_reverse.mpr new
    · right
      simpa using old

theorem kept_unwind {stack : DynamicStack α} {bindings : List (SymbolId × α)}
    (kept : (stack.pushAll bindings).Kept after) : stack.Kept (after.unwind stack.height) := by
  constructor
  · unfold symbols
    apply List.ext_getElem?
    intro position
    have same := congrArg (·[bindings.length + position]?) kept.symbols
    simp only [symbols, List.getElem?_map] at same
    rw [List.getElem?_map, getElem?_unwind kept, same, bindings_pushAll,
      List.getElem?_append_right (by simp)]
    simp
  · intro position entry present inner
    exact getElem?_unwind_of_mem kept present (.inr inner)

end DynamicStack

/-! ## The discipline of control -/

namespace Interp

/-- The frames are well formed, the configuration is this one, and the depth is within a limit. -/
structure Controlled (config : Config) (limit : Nat) (interp : Interp) : Prop where
  frames : interp.frames.WellFormed
  config : interp.config = config
  depth : interp.depth ≤ limit

/-- The depth and the active frames are as before, and the dynamic stack is kept. -/
structure Restores (before after : Interp) : Prop where
  depth : after.depth = before.depth
  active : ∀ id, after.frames.isActive id = before.frames.isActive id
  dynamic : before.dynamic.Kept after.dynamic

namespace Restores

variable {first second third : Interp}

theorem refl (interp : Interp) : interp.Restores interp :=
  ⟨rfl, fun _ => rfl, .refl interp.dynamic⟩

theorem trans (left : first.Restores second) (right : second.Restores third) :
    first.Restores third where
  depth := right.depth.trans left.depth
  active id := (right.active id).trans (left.active id)
  dynamic := left.dynamic.trans right.dynamic

end Restores

end Interp

/-- Evaluation may start from any expression and has to restore the control state. -/
def Discipline.control (config : Config) (limit : Nat) : Discipline where
  Good := Interp.Controlled config limit
  Effect := Interp.Restores
  Ready _ _ _ := True
  Body _ _ _ _ := True
  Writable _ := True

/-- The discipline of control is lawful as long as its limit admits all calls. -/
theorem Discipline.control_lawful {config : Config} {limit : Nat}
    (enough : config.maxDepth ≤ limit) : (Discipline.control config limit).Lawful where
  refl := .refl
  trans := .trans
  ready_effect _ _ := trivial
  body_effect _ _ := trivial
  ready_bind _ _ := trivial
  ready_part _ _ := trivial
  ready_let _ := trivial
  ready_top _ _ := trivial
  ready_target _ _ := trivial
  ready_default _ _ _ _ _ _ := trivial
  closure_body _ _ := trivial
  writable _ _ := trivial
  write _ good _ := ⟨⟨good.frames, good.config, good.depth⟩, ⟨rfl, fun _ => rfl, .refl _⟩⟩
  plain := by
    intro before after good same
    have sameFrames := same.frames
    constructor
    · exact ⟨sameFrames ▸ good.frames, same.config.trans good.config, same.depth ▸ good.depth⟩
    · exact ⟨same.depth, fun _ => by rw [sameFrames], same.dynamic ▸ .refl before.dynamic⟩
  close := by
    intro interp expr env template good _ _
    cases env with
    | none => exact ⟨⟨good.frames, good.config, good.depth⟩, ⟨rfl, fun _ => rfl, .refl _⟩⟩
    | some frame =>
        constructor
        · exact ⟨good.frames.pin frame, good.config, good.depth⟩
        · exact ⟨rfl, FrameStore.isActive_pin frame, .refl _⟩
  assign := by
    intro interp address expr env value good _
    constructor
    · exact ⟨good.frames.set _ _ _ _, good.config, good.depth⟩
    · exact ⟨rfl, FrameStore.isActive_set _ _ _ _, .refl _⟩
  assign_dynamic := by
    intro interp name value dynamic good assigned
    constructor
    · exact ⟨good.frames, good.config, good.depth⟩
    · exact ⟨rfl, fun _ => rfl, DynamicStack.kept_assign assigned⟩
  bind := by
    intro interp bindings good
    constructor
    · exact ⟨good.frames, good.config, good.depth⟩
    · rintro after ⟨afterGood, restores⟩
      constructor
      · exact ⟨afterGood.frames, afterGood.config, afterGood.depth⟩
      · exact ⟨restores.depth, restores.active, DynamicStack.kept_unwind restores.dynamic⟩
  call := by
    intro interp good shallow
    constructor
    · have deeper : interp.depth + 1 ≤ limit := by
        rw [good.config] at shallow
        omega
      exact ⟨good.frames, good.config, deeper⟩
    · rintro after ⟨afterGood, restores⟩
      have depth : after.shallower.depth = interp.depth := by
        change after.depth - 1 = interp.depth
        rw [restores.depth]
        rfl
      constructor
      · exact ⟨afterGood.frames, afterGood.config, depth ▸ good.depth⟩
      · exact ⟨depth, restores.active, restores.dynamic⟩
  enter := by
    intro interp slots parent body good _
    constructor
    · constructor
      · exact ⟨good.frames.alloc slots.toArray parent, good.config, good.depth⟩
      · rintro after ⟨afterGood, restores⟩
        have active : ∀ id, (after.frames.release (interp.nextFrame slots parent)).isActive id =
            interp.frames.isActive id := by
          intro id
          have entered := good.frames.isActive_alloc slots.toArray parent id
          rw [FrameStore.isActive_release, restores.active]
          by_cases same : id = interp.nextFrame slots parent
          · rw [if_pos same, same]
            exact (good.frames.not_active_alloc slots.toArray parent).symm
          · rw [if_neg same]
            exact entered.trans (if_neg same)
        constructor
        · exact ⟨afterGood.frames.release _, afterGood.config, afterGood.depth⟩
        · exact ⟨restores.depth, active, restores.dynamic⟩
    · trivial
  load := by
    intro interp good
    refine ⟨good, ?_⟩
    rintro after ⟨afterGood, restores⟩
    constructor
    · exact ⟨afterGood.frames, afterGood.config, afterGood.depth⟩
    · exact ⟨restores.depth, restores.active, restores.dynamic⟩

/-! ## Evaluation -/

variable {interp : Interp} {env : Option FrameId}

theorem Eval.final_finally_ {α : Type} (action : Eval α) (restore : Interp → Interp) :
    Eval.final (Eval.finally_ action restore interp) = restore (Eval.final (action interp)) := by
  unfold Eval.finally_
  cases action interp <;> rfl

/-- A dynamic binding form ends where its body ends, less the bindings. -/
theorem Evaluate.final_dynamicLet {steps : Nat} {bindings : List (SymbolId × Expr)} {body : Expr}
    {values : List (SymbolId × Value)} {entered : Interp}
    (started : dynamicInits (.ofFuel steps) env bindings interp = .ok values entered) :
    Eval.final ((Engine.ofFuel (steps + 1)).eval (.dynamicLet bindings body) env interp) =
      Interp.unwinding entered.dynamic.height
        (Eval.final ((Engine.ofFuel steps).eval body env (entered.binding values))) := by
  have unfolded : (Engine.ofFuel (steps + 1)).eval (.dynamicLet bindings body) env interp =
      EStateM.bind (dynamicInits (.ofFuel steps) env bindings)
        (fun values => underBindings (.ofFuel steps) env values body) interp := rfl
  rw [unfolded, EStateM.bind, started]
  exact Eval.final_finally_ _ _

namespace Interp.Controlled

variable {config : Config} {limit : Nat} (controlled : interp.Controlled config limit)
  (enough : config.maxDepth ≤ limit)

include controlled enough

/-- Every evaluation restores the control state. -/
theorem eval (fuel : Nat) (expr : Expr) (env : Option FrameId) :
    (Eval.final ((Engine.ofFuel fuel).eval expr env interp)).Controlled config limit ∧
      interp.Restores (Eval.final ((Engine.ofFuel fuel).eval expr env interp)) := by
  have outcome : (Discipline.control config limit).Outcome (fun _ => True) interp
      ((Engine.ofFuel fuel).eval expr env interp) :=
    (Discipline.control_lawful enough).outcome
      (fun _ _ engines => engines.eval controlled trivial) fuel
  exact outcome.step

theorem dynamicInits {steps : Nat} {bindings : List (SymbolId × Expr)}
    {values : List (SymbolId × Value)} {entered : Interp}
    (started : Evaluate.dynamicInits (.ofFuel steps) env bindings interp = .ok values entered) :
    entered.Controlled config limit ∧ values.map Prod.fst = bindings.map Prod.fst := by
  have outcome : (Discipline.control config limit).Outcome
      (fun values => values.map Prod.fst = bindings.map Prod.fst) interp
      (Evaluate.dynamicInits (.ofFuel steps) env bindings interp) :=
    (Discipline.control_lawful enough).outcome (fun _ _ engines =>
      Evaluate.dynamicInits_sound engines controlled fun _ _ => trivial) steps
  rw [started] at outcome
  exact ⟨outcome.1.1, outcome.2⟩

/-- The values that a dynamic binding form hides are there again when it ends. -/
theorem hidden_values {steps : Nat} {bindings : List (SymbolId × Expr)} {body : Expr}
    {values : List (SymbolId × Value)} {entered : Interp}
    (started : Evaluate.dynamicInits (.ofFuel steps) env bindings interp = .ok values entered)
    {position : Nat} {entry : SymbolId × Value}
    (present : entered.dynamic.bindings[position]? = some entry)
    (bound : entry.1 ∈ bindings.map Prod.fst) :
    (Eval.final ((Engine.ofFuel (steps + 1)).eval (.dynamicLet bindings body) env
      interp)).dynamic.bindings[position]? = some entry := by
  obtain ⟨enteredControlled, sameNames⟩ := controlled.dynamicInits enough started
  have inside : (entered.binding values).Controlled config limit :=
    ⟨enteredControlled.frames, enteredControlled.config, enteredControlled.depth⟩
  obtain ⟨_, restores⟩ := inside.eval enough steps body env
  rw [Evaluate.final_dynamicLet started]
  apply DynamicStack.getElem?_unwind_of_mem restores.dynamic present
  rw [sameNames]
  exact .inl bound

end Interp.Controlled

/-- Whatever comes of an evaluation, it leaves the depth, the active frames and the symbols of the
dynamic stack as they were, and on its way it never makes a request beyond the greatest depth.  A
dynamic binding form moreover gives its variables back the values they had below it.  The frames of
an interpreter are well formed from the start, and so they are wherever an evaluation comes. -/
theorem Interp.evaluation_restores_control (wellFormed : interp.frames.WellFormed) (fuel : Nat)
    (expr : Expr) (env : Option FrameId) :
    let final := Eval.final ((Engine.ofFuel fuel).eval expr env interp)
    final.depth = interp.depth ∧
    (∀ request reached, Reaches (fun engine => engine.eval expr env) fuel interp request reached →
      reached.depth ≤ max interp.depth interp.config.maxDepth ∧ reached.frames.WellFormed) ∧
    (∀ id, final.frames.isActive id = interp.frames.isActive id) ∧
    final.dynamic.symbols = interp.dynamic.symbols ∧ final.frames.WellFormed ∧
    ∀ steps bindings body values entered, fuel = steps + 1 → expr = .dynamicLet bindings body →
      Evaluate.dynamicInits (.ofFuel steps) env bindings interp = .ok values entered →
      ∀ (position : Nat) (entry : SymbolId × Value),
        entered.dynamic.bindings[position]? = some entry → entry.1 ∈ bindings.map Prod.fst →
          final.dynamic.bindings[position]? = some entry := by
  have enough := Nat.le_max_right interp.depth interp.config.maxDepth
  have controlled : interp.Controlled interp.config (max interp.depth interp.config.maxDepth) :=
    ⟨wellFormed, rfl, Nat.le_max_left _ _⟩
  obtain ⟨finalControlled, restores⟩ := controlled.eval enough fuel expr env
  refine ⟨restores.depth, ?_, restores.active, restores.dynamic.symbols, finalControlled.frames, ?_⟩
  · intro request reached reaches
    have admitted := (Discipline.control_lawful enough).admits_of_reaches
      (fun _ _ engines => engines.eval controlled trivial) reaches
    exact ⟨admitted.1.depth, admitted.1.frames⟩
  · rintro steps bindings body values entered rfl rfl started position entry present bound
    exact controlled.hidden_values enough started present bound

/-- An interpreter with one dynamic binding. -/
private def boundOnce : Interp := { dynamic := ⟨[(5, .null)]⟩ }

/-- Bind the variable anew and assign it. -/
private def rebinding : Expr :=
  .dynamicLet [(5, .literal (.bool true))] (.setDynamic 5 (.literal (.bool false)))

/-- The assignment inside has not reached the binding outside. -/
theorem Interp.evaluation_restores_control_after_assignment :
    boundOnce.frames.WellFormed ∧
    (Engine.ofFuel 3).eval rebinding none boundOnce = .ok (.bool false)
      (Eval.final ((Engine.ofFuel 3).eval rebinding none boundOnce)) ∧
    (Eval.final ((Engine.ofFuel 3).eval rebinding none boundOnce)).dynamic.bindings[0]? =
      some (5, .null) := by
  have wellFormed : boundOnce.frames.WellFormed := FrameStore.wellFormed_empty
  have restored := evaluation_restores_control wellFormed 3 rebinding none
  obtain ⟨_, _, _, _, _, hidden⟩ := restored
  exact ⟨wellFormed, rfl, hidden 2 _ _ _ _ rfl rfl rfl 0 (5, .null) rfl (by simp)⟩

end ObjectLisp
