import ObjectLisp.Interp.Start
import ObjectLisp.Proofs.Evaluation.Discipline
import ObjectLisp.Proofs.Frame.Chain

/-!
# Lexical addresses are safe

Analysis resolves a name to an address once; evaluation follows that address
through frames that are built much later.  The two agree because an expression is
evaluated only in a chain of frames for which it is scoped: a closure holds its
chain by pins, and a call or a `let` adds one frame of the size that the body was
analysed for.

So in every state that an interpreter can get to, each local variable that an
evaluation comes to is found, and each assignment of one is done.
-/

namespace ObjectLisp

/-! ## The discipline of scoping -/

/-- Every closure holds a chain of frames for which its function is scoped. -/
structure Interp.Scoped (interp : Interp) : Prop where
  tidy : interp.frames.Tidy
  closures : ∀ index, ∃ sizes, (interp.closure index).template.Scoped (fun _ => True) sizes ∧
    interp.frames.Chain (fun found => 0 < found.pins) (interp.closure index).env sizes

/-- Expressions are evaluated in frames for which they are scoped, and frames in use are kept. -/
def Discipline.scoping : Discipline where
  Good := Interp.Scoped
  Effect before after := before.frames.Keeps after.frames
  Ready expr env interp :=
    ∃ sizes, expr.Scoped (fun _ => True) sizes ∧ interp.frames.Chain Frame.InUse env sizes
  Body expr size parent interp :=
    ∃ sizes, expr.Scoped (fun _ => True) (size :: sizes) ∧
      interp.frames.Chain Frame.InUse parent sizes
  Writable _ := True

namespace Interp.Scoped

variable {interp : Interp}

/-- Whatever keeps the closures and their pins keeps an interpreter scoped. -/
theorem of_keeps (inScope : interp.Scoped) {later : Interp} (tidy : later.frames.Tidy)
    (keeps : interp.frames.Keeps later.frames)
    (closures : later.heap.closures = interp.heap.closures) : later.Scoped := by
  refine ⟨tidy, ?_⟩
  intro index
  obtain ⟨sizes, template, chain⟩ := inScope.closures index
  have same : later.closure index = interp.closure index := by
    simp only [Interp.closure, closures]
  rw [same]
  exact ⟨sizes, template, chain.keeps_pinned keeps⟩

theorem of_sameControl (inScope : interp.Scoped) {later : Interp}
    (same : interp.SameControl later) : later.Scoped := by
  have sameFrames := same.frames
  exact inScope.of_keeps (sameFrames ▸ inScope.tidy) (sameFrames ▸ .refl interp.frames)
    same.closures

/-- A closure can be made of a function that is scoped for the frames in use around it. -/
theorem closing (inScope : interp.Scoped) {template : Template Expr} {env : Option FrameId}
    {sizes : List Nat} (scopedTemplate : template.Scoped (fun _ => True) sizes)
    (chain : interp.frames.Chain Frame.InUse env sizes) :
    (interp.closing template env).Scoped ∧
      interp.frames.Keeps (interp.closing template env).frames := by
  -- Pinning keeps what is there and holds the chain of the new closure.
  have pinned : (interp.closing template env).frames.Tidy ∧
      interp.frames.Keeps (interp.closing template env).frames ∧
      (interp.closing template env).frames.Chain (fun found => 0 < found.pins) env sizes := by
    cases env with
    | none =>
        cases chain
        exact ⟨inScope.tidy, .refl _, .top⟩
    | some frame =>
        exact ⟨inScope.tidy.pin chain, interp.frames.keeps_pin frame, chain.pin⟩
  obtain ⟨tidy, keeps, held⟩ := pinned
  refine ⟨⟨tidy, ?_⟩, keeps⟩
  intro index
  rw [Interp.closure_closing]
  split
  · exact ⟨sizes, scopedTemplate, held⟩
  · obtain ⟨sizes', template', chain'⟩ := inScope.closures index
    exact ⟨sizes', template', chain'.keeps_pinned keeps⟩

/-- A new frame gives the body one frame more. -/
theorem entering (inScope : interp.Scoped) {slots : List Value} {parent : Option FrameId}
    {sizes : List Nat} (chain : interp.frames.Chain Frame.InUse parent sizes) :
    (interp.entering slots parent).Scoped ∧
      (interp.entering slots parent).frames.Chain Frame.InUse
        (some (interp.nextFrame slots parent)) (slots.length :: sizes) := by
  have tidy := inScope.tidy
  have keeps := tidy.keeps_alloc slots.toArray parent
  refine ⟨inScope.of_keeps (tidy.alloc slots.toArray parent) keeps rfl, ?_⟩
  have placed : (interp.entering slots parent).frames.frames[interp.nextFrame slots parent]? =
      some (FrameStore.fresh slots.toArray parent) :=
    (tidy.getElem?_alloc slots.toArray parent _).trans (if_pos rfl)
  have whole := FrameStore.Chain.frame placed (.inl rfl) (chain.keeps_inUse keeps)
  simpa [FrameStore.fresh] using whole

/-- Leaving a frame that was not in use before keeps all frames that were. -/
theorem leaving {inside after : Interp} {frame : FrameId} (afterInScope : after.Scoped)
    (unused : ∀ found, interp.frames.frames[frame]? = some found → ¬ found.InUse)
    (entered : interp.frames.Keeps inside.frames) (ran : inside.frames.Keeps after.frames) :
    (after.leaving frame).Scoped ∧ interp.frames.Keeps (after.leaving frame).frames := by
  have tidy := afterInScope.tidy
  refine ⟨⟨tidy.release frame, ?_⟩, ?_⟩
  · intro index
    obtain ⟨sizes, template, chain⟩ := afterInScope.closures index
    exact ⟨sizes, template, tidy.chain_release chain frame⟩
  · intro id found present inUse
    have different : frame ≠ id := by
      rintro rfl
      exact unused found present inUse
    obtain ⟨later, presentLater, kept⟩ := (entered.trans ran) id found present inUse
    refine ⟨later, ?_, kept⟩
    change (after.frames.release frame).frames[id]? = some later
    rw [tidy.getElem?_release, if_neg different, presentLater]

end Interp.Scoped

/-- Scoping is a lawful discipline. -/
theorem Discipline.scoping_lawful : Discipline.scoping.Lawful where
  refl interp := .refl interp.frames
  trans left right := left.trans right
  ready_effect := by
    rintro before after expr env keeps ⟨sizes, inScope, chain⟩
    exact ⟨sizes, inScope, chain.keeps_inUse keeps⟩
  body_effect := by
    rintro before after expr size parent keeps ⟨sizes, inScope, chain⟩
    exact ⟨sizes, inScope, chain.keeps_inUse keeps⟩
  ready_bind _ ready := ready
  ready_part := by
    rintro interp expr env part ⟨sizes, inScope, chain⟩ member
    exact ⟨sizes, inScope.part member, chain⟩
  ready_let := by
    rintro interp inits body env ⟨sizes, inScope, chain⟩
    exact ⟨sizes, inScope.letBody, chain⟩
  ready_top _ inScope := ⟨[], inScope, .top⟩
  ready_target _ _ := trivial
  ready_default := by
    intro interp index good param member init isInit
    obtain ⟨sizes, template, chain⟩ := good.closures index
    exact ⟨sizes, template.defaults param member init isInit, chain.mono fun _ => .inr⟩
  closure_body := by
    intro interp index good
    obtain ⟨sizes, template, chain⟩ := good.closures index
    exact ⟨sizes, template.body, chain.mono fun _ => .inr⟩
  writable _ _ := trivial
  plain := by
    intro before after good quiet
    have keeps : before.frames.Keeps after.frames := quiet.frames ▸ .refl before.frames
    exact ⟨good.of_sameControl quiet.toSameControl, keeps⟩
  write _ good _ := ⟨⟨good.tidy, good.closures⟩, .refl _⟩
  close := by
    rintro interp expr env template good ⟨sizes, inScope, chain⟩ member
    exact good.closing (inScope.template member) chain
  assign := by
    intro interp address expr env value good _
    have keeps := interp.frames.keeps_set env address.level address.index value
    exact ⟨good.of_keeps (good.tidy.set _ _ _ _) keeps rfl, keeps⟩
  assign_dynamic := by
    intro interp name value dynamic good _
    exact ⟨⟨good.tidy, good.closures⟩, .refl interp.frames⟩
  bind := by
    intro interp bindings good
    refine ⟨⟨good.tidy, good.closures⟩, ?_⟩
    rintro after ⟨afterGood, keeps⟩
    exact ⟨⟨afterGood.tidy, afterGood.closures⟩, keeps⟩
  call := by
    intro interp good _
    refine ⟨⟨good.tidy, good.closures⟩, ?_⟩
    rintro after ⟨afterGood, keeps⟩
    exact ⟨⟨afterGood.tidy, afterGood.closures⟩, keeps⟩
  enter := by
    rintro interp slots parent body good ⟨sizes, inScope, chain⟩
    obtain ⟨inside, innerChain⟩ := good.entering chain
    refine ⟨⟨inside, ?_⟩, _, inScope, innerChain⟩
    rintro after ⟨afterGood, keeps⟩
    exact Interp.Scoped.leaving afterGood
      (fun _ present => good.tidy.alloc_not_inUse slots.toArray parent present)
      (good.tidy.keeps_alloc slots.toArray parent) keeps
  load := by
    intro interp good
    refine ⟨good, ?_⟩
    rintro after ⟨afterGood, keeps⟩
    exact ⟨⟨afterGood.tidy, afterGood.closures⟩, keeps⟩

/-! ## States that an interpreter can get to -/

/-- The states that evaluating forms and texts and calling functions lead to, with any outcome.
In between a host may change everything but the control part: read data, define variables, share
symbols. -/
inductive Interp.Reachable : Interp → Prop where
  | bare (config : Config) (symbols : SymbolStore) : Reachable (.bare config symbols)
  | form {interp : Interp} (reachable : Reachable interp) (fuel : Nat) (form : Value)
      (source : SourceMap) :
      Reachable (Eval.final (Source.evalForm (.ofFuel fuel) form source interp))
  | text {interp : Interp} (reachable : Reachable interp) (fuel : Nat) (file text : String) :
      Reachable (Eval.final (Source.evalText (.ofFuel fuel) file text interp))
  | call {interp : Interp} (reachable : Reachable interp) (fuel : Nat) (function : Value)
      (arguments : List Value) (loc : Option SourceLoc) :
      Reachable (Eval.final ((Engine.ofFuel fuel).apply function arguments loc interp))
  | host {interp later : Interp} (reachable : Reachable interp)
      (same : interp.SameControl later) : Reachable later

namespace Interp

theorem sameControl_defineSystem (interp : Interp) (name : String) (value : Value) :
    interp.SameControl (interp.defineSystem name value) :=
  ⟨rfl, rfl, rfl, rfl, rfl⟩

theorem sameControl_defineSystemConstant (interp : Interp) (name : String) (value : Value) :
    interp.SameControl (interp.defineSystemConstant name value) :=
  ⟨rfl, rfl, rfl, rfl, rfl⟩

theorem sameControl_defineAll (interp : Interp) (bindings : List (String × Value)) :
    interp.SameControl (interp.defineAll bindings) := by
  induction bindings generalizing interp with
  | nil => exact .refl interp
  | cons binding bindings ih => exact (sameControl_defineSystem interp _ _).trans (ih _)

/-- An interpreter that has not evaluated anything has no frames and no closures. -/
theorem sameControl_bare (config : Config) (symbols : SymbolStore) :
    ({ config } : Interp).SameControl (bare config symbols) := by
  unfold bare
  generalize Vocabulary.install symbols = installed
  obtain ⟨words, symbols⟩ := installed
  dsimp only
  have empty : ({ config } : Interp).SameControl { config, symbols, words } :=
    ⟨rfl, rfl, rfl, rfl, rfl⟩
  have constants := ((empty.trans (sameControl_defineSystemConstant _ "true" (.bool true))).trans
    (sameControl_defineSystemConstant _ "false" (.bool false))).trans
    (sameControl_defineSystemConstant _ "null" .null)
  have classes := constants.trans (sameControl_defineSystem _ "object" (.class_ ClassId.object))
  exact (classes.trans (sameControl_defineAll _ _)).trans
    (sameControl_defineAll _ primitiveBindings)

theorem scoped_bare (config : Config) (symbols : SymbolStore) :
    (bare config symbols).Scoped := by
  have same := sameControl_bare config symbols
  have noParams : (default : Closure).template.params.list = [] := rfl
  have empty : ({ config } : Interp).Scoped := by
    refine ⟨FrameStore.tidy_empty, ?_⟩
    intro index
    exact ⟨[], ⟨by simp [Interp.closure, noParams], .literal _⟩, .top⟩
  exact empty.of_sameControl same

/-- An interpreter started by a host has been reached. -/
theorem reachable_start (config : Config) (symbols : SymbolStore) :
    (start config symbols).Reachable := by
  have prelude : ∀ interp : Interp, interp.Reachable → interp.withPrelude.Reachable :=
    fun interp reachable => .text reachable Engine.ample Prelude.fileName Prelude.text
  have entered : ∀ interp : Interp, interp.Reachable → interp.enterConfigured.Reachable :=
    fun interp reachable => .host reachable ⟨rfl, rfl, rfl, rfl, rfl⟩
  unfold start
  apply entered
  split
  · exact prelude _ (.bare config symbols)
  · exact .bare config symbols

/-- Every state that an interpreter can get to is scoped. -/
theorem Reachable.scoped {interp : Interp} (reachable : interp.Reachable) : interp.Scoped := by
  have lawful := Discipline.scoping_lawful
  induction reachable with
  | bare config symbols => exact scoped_bare config symbols
  | form _ fuel form source good =>
      exact (lawful.outcome (fun _ _ engines =>
        Source.evalForm_sound engines form source good) fuel).step.1
  | text _ fuel file text good =>
      exact (lawful.outcome (fun _ _ engines =>
        Source.evalText_sound engines file text good) fuel).step.1
  | call _ fuel function arguments loc good =>
      exact (lawful.outcome (fun _ _ engines =>
        engines.apply function arguments loc good) fuel).step.1
  | host _ same good => exact good.of_sameControl same

end Interp

/-! ## Local variables -/

variable {interp : Interp} {env : Option FrameId}

/-- In a chain of frames for which it is scoped, a local variable is found. -/
theorem Discipline.get?_of_ready {expr : Expr} {address : Address}
    (ready : Discipline.scoping.Ready expr env interp) (own : expr.address? = some address) :
    ∃ value, interp.frames.get? env address.level address.index = some value := by
  obtain ⟨sizes, inScope, chain⟩ := ready
  obtain ⟨size, atLevel, inside⟩ := inScope.inRange own
  exact chain.get?_eq_some atLevel inside

section Assignment

/-- The form `(set! x x)`. -/
private def assignmentForm : Value :=
  .cons 6 (.symbol 11) (.cons 7 (.symbol 200) (.cons 8 (.symbol 200) .null))

/-- The form `(let ((x null)) (set! x x))`. -/
private def letForm : Value :=
  .cons 0 (.symbol 13) (.cons 1
    (.cons 2 (.cons 3 (.symbol 200) (.cons 4 .null .null)) .null)
    (.cons 5 assignmentForm .null))

private def variableExpr : Expr := .local_ ⟨0, 0⟩ 200

private def assignmentExpr : Expr := .setLocal ⟨0, 0⟩ variableExpr

private def letExpr : Expr := .let_ [.literal .null] assignmentExpr

/-- What the analysis of these forms asks of an interpreter. -/
private structure KnowsForms (interp : Interp) : Prop where
  isLet : interp.words.form? 13 = some .let_
  isSet : interp.words.form? 11 = some .set
  plain : interp.symbols.kindOf 200 = .plain
  lexical : interp.symbols.isDynamic 200 = false
  assignable : interp.symbols.assignmentProblem? 200 = none

/-- An interpreter that knows the words of the language and nothing else. -/
private def worded : Interp :=
  { words := (Vocabulary.install .initial).1, symbols := (Vocabulary.install .initial).2 }

private theorem worded_reachable : worded.Reachable := by
  have emptied := (Interp.sameControl_bare {} .initial).symm
  exact .host (.bare {} .initial) (emptied.trans ⟨rfl, rfl, rfl, rfl, rfl⟩)

set_option maxRecDepth 20000 in
private theorem worded_knowsForms : KnowsForms worded where
  isLet := by decide +kernel
  isSet := by decide +kernel
  plain := by decide +kernel
  lexical := by decide +kernel
  assignable := Option.isNone_iff_eq_none.mp (by decide +kernel)

private theorem get_apply (interp : Interp) : (get : Eval Interp) interp = .ok interp interp :=
  rfl

private theorem symbolCall_special {interp : Interp} {symbol : SymbolId} {form : SpecialForm}
    (found : interp.words.form? symbol = some form) (engine : Engine) (context : Context)
    (loc : Option SourceLoc) (arguments : List Value) :
    Analysis.symbolCall engine context loc symbol arguments interp =
      Analysis.special engine context loc symbol form arguments interp := by
  simp only [Analysis.symbolCall, bind, EStateM.bind, get_apply, found]

variable {detour : Detour} {interp : Interp} (knows : KnowsForms interp)
  (silent : ∀ form context interp, detour.analyze form context interp = none)

include silent

private theorem analyze_step (fuel : Nat) (form : Value) (context : Context) :
    (Engine.detoured detour (fuel + 1)).analyze form context interp =
      Analysis.analyze (.detoured detour fuel) form context interp := by
  simp only [Engine.detoured, Eval.unless, silent]

include knows

private theorem analyze_variable (fuel : Nat) {context : Context}
    (scope : context.scope = ⟨[[200]]⟩) :
    (Engine.detoured detour (fuel + 1)).analyze (.symbol 200) context interp =
      .ok variableExpr interp := by
  have address : (⟨[[200]]⟩ : Scope).address? 200 = some ⟨0, 0⟩ := rfl
  rw [analyze_step silent]
  simp only [Analysis.analyze, Analysis.name, Analysis.resolve, knows.plain, Analysis.variable_,
    knows.lexical, scope, address, Bool.false_eq_true, if_false, variableExpr]

private theorem analyze_assignment (fuel : Nat) {context : Context}
    (scope : context.scope = ⟨[[200]]⟩) :
    (Engine.detoured detour (fuel + 2)).analyze assignmentForm context interp =
      .ok assignmentExpr interp := by
  have address : (⟨[[200]]⟩ : Scope).address? 200 = some ⟨0, 0⟩ := rfl
  rw [analyze_step silent]
  change Analysis.symbolCall _ context _ 11 [.symbol 200, .symbol 200] _ = _
  rw [symbolCall_special knows.isSet]
  simp only [Analysis.special, Analysis.assignment, bind, EStateM.bind, Eval.checkAssignable,
    knows.assignable, analyze_variable knows silent fuel scope, get_apply, knows.lexical, scope,
    address, Bool.false_eq_true, if_false]
  rfl

private theorem analyze_let :
    (Engine.detoured detour 3).analyze letForm {} interp = .ok letExpr interp := by
  have init : (Engine.detoured detour 2).analyze .null {} interp =
      .ok (.literal .null) interp := by
    rw [analyze_step silent]
    rfl
  rw [analyze_step silent]
  change Analysis.symbolCall _ {} _ 13
    [.cons 2 (.cons 3 (.symbol 200) (.cons 4 .null .null)) .null, assignmentForm] _ = _
  rw [symbolCall_special knows.isLet]
  change EStateM.bind (Analysis.bindingInits _ _ _ [(200, .null)]) _ _ = _
  simp only [EStateM.bind, Analysis.bindingInits, bind, Analysis.checkLexical, knows.lexical, pure,
    EStateM.pure, Analysis.body, Bool.false_eq_true, if_false, init]
  rw [analyze_assignment knows silent 0 rfl]
  rfl

omit silent knows

/-- The `let` evaluates its body in a new frame. -/
private theorem eval_letExpr {engine : Engine}
    (literal : engine.eval (.literal .null) none interp = .ok .null interp) :
    Evaluate.eval engine letExpr none interp =
      Eval.finally_ (engine.eval assignmentExpr (some (interp.nextFrame [.null] none)))
        (Interp.leaving (interp.nextFrame [.null] none)) (interp.entering [.null] none) := by
  simp only [letExpr, Evaluate.eval, Engine.evalAll, bind, EStateM.bind, literal, pure,
    EStateM.pure]
  rfl

/-- With a detour for one expression inside, the form evaluates the body of the `let`. -/
private theorem evalForm_detoured (knows : KnowsForms interp) {target : Expr}
    (notLet : target ≠ letExpr) (notLiteral : target ≠ .literal .null) (env : Option FrameId)
    (reached : Interp) (answer : EStateM.Result Stop Interp Value) :
    Source.evalForm (.detoured (.answering target env reached answer) 3) letForm {} interp =
      Eval.finally_
        ((Engine.detoured (.answering target env reached answer) 2).eval assignmentExpr
          (some (interp.nextFrame [.null] none)))
        (Interp.leaving (interp.nextFrame [.null] none)) (interp.entering [.null] none) := by
  have analyzed := analyze_let knows
    (fun _ _ _ => rfl : ∀ form context interp,
      (Detour.answering target env reached answer).analyze form context interp = none)
  have literal := Detour.eval_detoured_ne target env reached answer 1 notLiteral none interp
  have evaluated := Detour.eval_detoured_ne target env reached answer 2 notLet none interp
  rw [eval_letExpr literal] at evaluated
  simp only [Source.evalForm, bind, EStateM.bind]
  rw [analyzed]
  exact evaluated

private theorem reaches_assignment (knows : KnowsForms interp) :
    Reaches (fun engine => Source.evalForm engine letForm {}) 3 interp
      (.eval assignmentExpr (some (interp.nextFrame [.null] none)))
      (interp.entering [.null] none) := by
  refine reaches_of_answers (fun answer => Eval.finally_ (fun _ => answer)
    (Interp.leaving (interp.nextFrame [.null] none)) (interp.entering [.null] none)) ?_
    (.ok .null interp) (.error .spent interp) nofun
  intro answer
  have ran := evalForm_detoured knows (nofun : assignmentExpr ≠ letExpr) nofun
    (some (interp.nextFrame [.null] none)) (interp.entering [.null] none) answer
  simp only [Eval.finally_, Detour.eval_detoured_self] at ran
  exact ran

private theorem reaches_variable (knows : KnowsForms interp) :
    Reaches (fun engine => Source.evalForm engine letForm {}) 3 interp
      (.eval variableExpr (some (interp.nextFrame [.null] none)))
      (interp.entering [.null] none) := by
  refine reaches_of_answers (fun answer => Eval.finally_
    (do
      let value ← fun _ => answer
      Evaluate.assignLocal (some (interp.nextFrame [.null] none)) ⟨0, 0⟩ value
      return value)
    (Interp.leaving (interp.nextFrame [.null] none)) (interp.entering [.null] none)) ?_
    (.ok .null interp) (.error .spent interp) nofun
  intro answer
  have ran := evalForm_detoured knows (nofun : variableExpr ≠ letExpr) nofun
    (some (interp.nextFrame [.null] none)) (interp.entering [.null] none) answer
  have assigned := Detour.eval_detoured_ne variableExpr (some (interp.nextFrame [.null] none))
    (interp.entering [.null] none) answer 1 (nofun : variableExpr ≠ assignmentExpr)
    (some (interp.nextFrame [.null] none)) (interp.entering [.null] none)
  simp only [assignmentExpr, Evaluate.eval, bind, EStateM.bind, Detour.eval_detoured_self]
    at assigned
  simp only [Eval.finally_, assignmentExpr, assigned] at ran
  exact ran

end Assignment

end ObjectLisp
