import ObjectLisp.Proofs.Evaluation.Commands

/-!
# Constants keep their values

A definition asks the symbols for leave before it evaluates its parts, and an
assignment asks once, when it is analysed.  So a definition under way still
defines what its own parts made a constant, and an expression that was analysed
while its target was a variable goes on assigning it; a function can keep such an
expression for good.

Nothing that starts later gets around the check.  A constant stays a constant in
every state that an interpreter comes to, and there no definition of it and no
analysis of an assignment to it succeeds.  If besides no function made so far
assigns it, then nothing ever changes its value: whatever is analysed later
assigns other globals only, and so do the functions made from that.
-/

namespace ObjectLisp

/-! ## What an expression assigns -/

/-- The expression assigns the global, itself or somewhere inside, functions included. -/
inductive Expr.Assigns (name : SymbolId) : Expr → Prop where
  | here {expr : Expr} (own : expr.target? = some name) : Assigns name expr
  | part {expr part : Expr} (member : part ∈ expr.parts) (inside : Assigns name part) :
      Assigns name expr
  | default {expr init : Expr} {template : Template Expr} {param : Param Expr}
      (member : template ∈ expr.templates) (isParam : param ∈ template.params.list)
      (isInit : init ∈ param.init) (inside : Assigns name init) : Assigns name expr
  | body {expr : Expr} {template : Template Expr} (member : template ∈ expr.templates)
      (inside : Assigns name template.body) : Assigns name expr
  | inner {inits : List Expr} {body : Expr} (inside : Assigns name body) :
      Assigns name (.let_ inits body)

/-- The function assigns the global in a default or in its body. -/
def Template.Assigns (name : SymbolId) (template : Template Expr) : Prop :=
  (∃ param ∈ template.params.list, ∃ init ∈ param.init, init.Assigns name) ∨
    template.body.Assigns name

/-- The command brings an expression with it that assigns the global. -/
def Command.Assigns (name : SymbolId) : Command → Prop
  | .eval expr _ => expr.Assigns name
  | .form .. | .text .. | .call .. => False

variable {name : SymbolId} {value : Value}

/-- A scoped expression assigns only what may be written. -/
theorem Expr.Assigns.writable {expr : Expr} (assigns : expr.Assigns name)
    {writable : SymbolId → Prop} {sizes : List Nat} (inScope : expr.Scoped writable sizes) :
    writable name := by
  induction assigns generalizing sizes with
  | here own => exact inScope.mayWrite own
  | part member _ ih => exact ih (inScope.part member)
  | default member isParam isInit _ ih =>
      exact ih ((inScope.template member).defaults _ isParam _ isInit)
  | body member _ ih => exact ih (inScope.template member).body
  | inner _ ih => exact ih inScope.letBody

theorem Expr.Assigns.of_template {expr : Expr} {template : Template Expr}
    (member : template ∈ expr.templates) (assigns : template.Assigns name) :
    expr.Assigns name := by
  rcases assigns with ⟨param, isParam, init, isInit, inside⟩ | inside
  · exact .default member isParam isInit inside
  · exact .body member inside

/-! ## Globals and symbols -/

namespace SymbolStore

variable {store before after : SymbolStore}

theorem symbol?_of_constant (constant : store.kindOf name = .constant) :
    ∃ found, store.symbol? name = some found ∧ found.kind = .constant := by
  unfold kindOf at constant
  cases atSymbol : store.symbols[name]? with
  | none => simp [atSymbol] at constant
  | some found =>
      rw [atSymbol] at constant
      exact ⟨found, atSymbol, constant⟩

theorem assignmentProblem?_of_constant (constant : store.kindOf name = .constant) :
    store.assignmentProblem? name = some (.constantAssignment (store.nameOf name)) := by
  obtain ⟨found, atSymbol, isConstant⟩ := symbol?_of_constant constant
  unfold symbol? at atSymbol
  simp only [assignmentProblem?, nameOf, atSymbol, isConstant]

theorem makeConstant_of_constant (constant : store.kindOf name = .constant) :
    store.makeConstant name = .error (.duplicateConstant (store.nameOf name)) := by
  obtain ⟨found, atSymbol, isConstant⟩ := symbol?_of_constant constant
  unfold symbol? at atSymbol
  simp only [makeConstant, nameOf, atSymbol, isConstant]

theorem kindOf_of_makeConstant (known : (store.symbol? name).isSome)
    (made : store.makeConstant name = .ok after) : after.kindOf name = .constant := by
  obtain ⟨found, atSymbol⟩ := Option.isSome_iff_exists.mp known
  unfold symbol? at atSymbol
  cases kind : found.kind <;> simp only [makeConstant, atSymbol, kind, reduceCtorEq] at made
  cases made
  simp [kindOf, Array.getElem?_modify, atSymbol]

/-- Nothing forgets a symbol. -/
theorem lasting_known (name : SymbolId) :
    Lasting fun store => store.Reachable ∧ (store.symbol? name).isSome := by
  rintro before after ⟨reachable, known⟩ leads
  obtain ⟨found, atSymbol⟩ := Option.isSome_iff_exists.mp known
  obtain ⟨later, atLater, _⟩ := (reachable.coherent.leads leads).2.symbols atSymbol
  exact ⟨reachable.trans leads, Option.isSome_iff_exists.mpr ⟨later, atLater⟩⟩

/-- Nothing takes a constant back or renames it. -/
theorem lasting_constant (name : SymbolId) (text : String) :
    Lasting fun store => store.Reachable ∧ store.kindOf name = .constant ∧
      store.nameOf name = text := by
  rintro before after ⟨reachable, constant, named⟩ leads
  obtain ⟨found, atSymbol, isConstant⟩ := symbol?_of_constant constant
  obtain ⟨later, atLater, sameName, _, stays⟩ :=
    (reachable.coherent.leads leads).2.symbols atSymbol
  unfold symbol? at atSymbol atLater
  refine ⟨reachable.trans leads, ?_, ?_⟩
  · simp only [kindOf, atLater, stays isConstant]
  · simp only [nameOf, atSymbol] at named
    simp only [nameOf, atLater, sameName, named]

end SymbolStore

/-! ## Frozen globals -/

namespace Interp

/-- The global is a constant and has the value, and the symbols were made by operations. -/
structure Fixes (name : SymbolId) (value : Value) (interp : Interp) : Prop where
  symbols : interp.symbols.Reachable
  constant : interp.symbols.kindOf name = .constant
  bound : interp.globals.get? name = some value

/-- Besides, no function that was made assigns it. -/
structure Frozen (name : SymbolId) (value : Value) (interp : Interp) : Prop
    extends interp.Fixes name value where
  functions : ∀ index, ¬ (interp.closure index).template.Assigns name

namespace Frozen

variable {interp later : Interp}

/-- Whatever leaves the globals and the functions alone keeps a constant frozen. -/
theorem of_leads (frozen : interp.Frozen name value)
    (leads : interp.symbols.Leads later.symbols) (globals : later.globals = interp.globals)
    (closures : later.heap.closures = interp.heap.closures) : later.Frozen name value where
  symbols := frozen.symbols.trans leads
  constant := (SymbolStore.lasting_constant name _ _ _
    ⟨frozen.symbols, frozen.constant, rfl⟩ leads).2.1
  bound := globals ▸ frozen.bound
  functions index := by
    have same : later.closure index = interp.closure index := by
      simp only [closure, closures]
    rw [same]
    exact frozen.functions index

theorem write (frozen : interp.Frozen name value) {other : SymbolId} (isOther : other ≠ name)
    (given : Value) :
    Frozen name value { interp with globals := interp.globals.set other given } where
  symbols := frozen.symbols
  constant := frozen.constant
  bound := by
    rw [Globals.get?_set, if_neg isOther]
    exact frozen.bound
  functions := frozen.functions

theorem closing (frozen : interp.Frozen name value) {template : Template Expr}
    (spares : ¬ template.Assigns name) (env : Option FrameId) :
    (interp.closing template env).Frozen name value where
  symbols := frozen.symbols
  constant := frozen.constant
  bound := frozen.bound
  functions index := by
    rw [closure_closing]
    split
    · exact spares
    · exact frozen.functions index

end Frozen

end Interp

/-- Expressions that do not assign the global are evaluated while it is frozen. -/
def Discipline.freezing (name : SymbolId) (value : Value) : Discipline where
  Good := Interp.Frozen name value
  Effect _ _ := True
  Ready expr _ _ := ¬ expr.Assigns name
  Body expr _ _ _ := ¬ expr.Assigns name
  Writable other := other ≠ name

/-- A frozen constant is never among the globals that may be written. -/
theorem Discipline.freezing_lawful (name : SymbolId) (value : Value) :
    (Discipline.freezing name value).Lawful where
  refl _ := trivial
  trans _ _ := trivial
  ready_effect _ ready := ready
  body_effect _ ready := ready
  ready_bind _ ready := ready
  ready_part ready member assigns := ready (.part member assigns)
  ready_let ready assigns := ready (.inner assigns)
  ready_top _ inScope assigns := assigns.writable inScope rfl
  ready_target := by
    rintro interp expr env other ready own rfl
    exact ready (.here own)
  ready_default index good param isParam init isInit assigns :=
    good.functions index (.inl ⟨param, isParam, init, isInit, assigns⟩)
  closure_body index good assigns := good.functions index (.inr assigns)
  writable := by
    rintro interp other good noProblem rfl
    rw [SymbolStore.assignmentProblem?_of_constant good.constant] at noProblem
    cases noProblem
  plain good quiet := ⟨good.of_leads quiet.symbols quiet.globals quiet.closures, trivial⟩
  write given good isOther := ⟨good.write isOther given, trivial⟩
  close good ready member :=
    ⟨good.closing (fun assigns => ready (.of_template member assigns)) _, trivial⟩
  assign _ good _ := ⟨good.of_leads .refl rfl rfl, trivial⟩
  assign_dynamic good _ := ⟨good.of_leads .refl rfl rfl, trivial⟩
  bind _ good :=
    ⟨good.of_leads .refl rfl rfl, fun _ step => ⟨step.1.of_leads .refl rfl rfl, trivial⟩⟩
  call good _ :=
    ⟨good.of_leads .refl rfl rfl, fun _ step => ⟨step.1.of_leads .refl rfl rfl, trivial⟩⟩
  enter good ready :=
    ⟨⟨good.of_leads .refl rfl rfl, fun _ step => ⟨step.1.of_leads .refl rfl rfl, trivial⟩⟩,
      ready⟩
  load good := ⟨good, fun _ step => ⟨step.1.of_leads .refl rfl rfl, trivial⟩⟩

/-! ## Constants -/

/-- The global that an expression defines as a variable, a macro or a class. -/
def Expr.defined? : Expr → Option SymbolId
  | def_ name _ | defMacro name _ | defClass name _ _ => some name
  | _ => none

namespace Interp

/-- No definition of the global and no analysis of an assignment to it succeeds. -/
structure Refuses (name : SymbolId) (interp : Interp) : Prop where
  definition : ∀ engine env (expr : Expr), expr.defined? = some name →
    Evaluate.eval engine expr env interp =
      Eval.fail (.binding (.constantAssignment (interp.symbols.nameOf name))) interp
  redefinition : ∀ fuel env expr given after,
    (Engine.ofFuel fuel).eval expr env interp = .ok given after →
      (Engine.ofFuel (fuel + 1)).eval (.defConstant name expr) env interp =
        Eval.fail (.binding (.duplicateConstant (interp.symbols.nameOf name))) after
  assignment : ∀ engine context loc right,
    Analysis.assignment engine context loc (.symbol name) right interp =
      Eval.fail (.binding (.constantAssignment (interp.symbols.nameOf name))) interp

/-- The global stands for the value where it was analysed before and where it is analysed now. -/
structure Shows (name : SymbolId) (value : Value) (interp : Interp) : Prop where
  bound : interp.globals.get? name = some value
  evaluated : ∀ engine env, Evaluate.eval engine (.global name) env interp = .ok value interp
  analysed : ∀ engine context,
    Analysis.analyze engine (.symbol name) context interp = .ok (.literal value) interp

variable {interp : Interp}

theorem checkAssignable_of_constant (constant : interp.symbols.kindOf name = .constant) :
    Eval.checkAssignable name interp =
      Eval.fail (.binding (.constantAssignment (interp.symbols.nameOf name))) interp := by
  unfold Eval.checkAssignable
  rw [SymbolStore.assignmentProblem?_of_constant constant]
  rfl

/-- A constant is refused as it stands: only a new definition of the constant evaluates something
first, and that leaves it a constant of the same name. -/
theorem refuses_of_constant (reachable : interp.symbols.Reachable)
    (constant : interp.symbols.kindOf name = .constant) : interp.Refuses name where
  definition := by
    intro engine env expr defines
    have refused := checkAssignable_of_constant constant
    cases expr <;> cases defines <;>
      simp only [Evaluate.eval, bind, EStateM.bind, refused] <;> rfl
  redefinition := by
    intro fuel env expr given after ran
    obtain ⟨_, stillConstant, sameName⟩ :=
      (SymbolStore.lasting_constant name _).eval ran ⟨reachable, constant, rfl⟩
    have refused : Evaluate.makeConstant name after =
        Eval.fail (.binding (.duplicateConstant (interp.symbols.nameOf name))) after := by
      unfold Evaluate.makeConstant
      rw [SymbolStore.makeConstant_of_constant stillConstant, sameName]
    simp only [Engine.ofFuel, Evaluate.eval, bind, EStateM.bind, ran, refused]
    rfl
  assignment := by
    intro engine context loc right
    have refused := checkAssignable_of_constant constant
    simp only [Analysis.assignment, bind, EStateM.bind, refused]
    rfl

theorem Fixes.shows (fixes : interp.Fixes name value) : interp.Shows name value where
  bound := fixes.bound
  evaluated engine env := by
    simp only [Evaluate.eval, Evaluate.globalValue, fixes.bound]
  analysed engine context := by
    simp only [Analysis.analyze, Analysis.name, Analysis.resolve, fixes.constant, fixes.bound]

/-- A definition that succeeds fixes the value. -/
theorem fixes_of_defConstant {before after : Interp} {fuel : Nat} {expr : Expr}
    {env : Option FrameId} {result : Value} (reachable : before.symbols.Reachable)
    (known : (before.symbols.symbol? name).isSome)
    (defined : (Engine.ofFuel (fuel + 1)).eval (.defConstant name expr) env before =
      .ok result after) :
    ∃ value middle, (Engine.ofFuel fuel).eval expr env before = .ok value middle ∧
      after.Fixes name value := by
  simp only [Engine.ofFuel, Evaluate.eval, bind, EStateM.bind] at defined
  cases ran : (Engine.ofFuel fuel).eval expr env before with
  | error stop middle =>
      rw [ran] at defined
      cases defined
  | ok value middle =>
      rw [ran] at defined
      dsimp only at defined
      obtain ⟨reachableThen, knownThen⟩ : middle.symbols.Reachable ∧
          (middle.symbols.symbol? name).isSome :=
        (SymbolStore.lasting_known name).eval ran ⟨reachable, known⟩
      cases made : middle.symbols.makeConstant name with
      | error problem =>
          simp only [Evaluate.makeConstant, made] at defined
          cases defined
      | ok symbols =>
          simp only [Evaluate.makeConstant, made] at defined
          cases defined
          refine ⟨value, middle, rfl, ?_, ?_, ?_⟩
          · exact reachableThen.tail (.makeConstant made)
          · exact SymbolStore.kindOf_of_makeConstant knownThen made
          · exact (middle.globals.get?_set name name value).trans (if_pos rfl)

end Interp

/-- In every run of an interpreter, a constant definition that succeeds fixes the value that its
expression has.  In whatever follows no definition of the constant succeeds, and no assignment to
it passes the analysis.  If no function made so far assigns it, and what follows brings no
expression analysed before that does, then the constant has this value ever after. -/
theorem Interp.constants_kept (name : SymbolId) :
    (∀ config store before after fuel expr env result, SymbolStore.Reachable store →
      (start config store).Meets (fun _ => True) before →
      (before.symbols.symbol? name).isSome →
      (Engine.ofFuel (fuel + 1)).eval (.defConstant name expr) env before = .ok result after →
        ∃ value middle, (Engine.ofFuel fuel).eval expr env before = .ok value middle ∧
          after.Fixes name value) ∧
    ∀ interp value, Fixes name value interp →
      (∀ met, interp.Meets (fun _ => True) met → met.Refuses name) ∧
      ((∀ index, ¬ (interp.closure index).template.Assigns name) →
        ∀ met, interp.Meets (fun command => ¬ command.Assigns name) met →
          met.Shows name value) := by
  constructor
  · intro config store before after fuel expr env result reachable meets known defined
    have started := reachable_symbols_start reachable config
    exact fixes_of_defConstant (SymbolStore.lasting_reachable.meets meets started) known defined
  · intro interp value fixes
    constructor
    · intro met meets
      obtain ⟨reachable, constant, _⟩ := (SymbolStore.lasting_constant name _).meets meets
        ⟨fixes.symbols, fixes.constant, rfl⟩
      exact refuses_of_constant reachable constant
    · intro functions met meets
      have frozen : interp.Frozen name value := ⟨fixes, functions⟩
      have stillFrozen := (Discipline.freezing_lawful name value).good_of_meets frozen
        (fun _ _ _ spares => spares) meets
      exact stillFrozen.toFixes.shows

/-! Two sessions.  In the first one a function reads the constant, and a definition of it fails.  In
the second one a function that was made before the constant assigns it. -/

section Sessions

/-- An interpreter that knows the words of the language and nothing else. -/
private def fluent : Interp :=
  { words := (Vocabulary.install .initial).1
    symbols := (Vocabulary.install .initial).2
    package := PackageId.user }

/-- The state after a text. -/
private def afterText (text : String) (interp : Interp) : Interp :=
  Eval.final (Source.evalText (.ofFuel 20) "session" text interp)

private theorem meets_afterText (interp : Interp) (text : String) (allowed : Command → Prop)
    (isAllowed : allowed (.text "session" text)) :
    interp.Meets allowed (afterText text interp) :=
  .between (.command .start _ isAllowed 20)

private theorem eq_ofNat_of_same {found : Option Value} {number : Nat}
    (isSame : found.any (Value.same (.ofNat number)) = true) : found = some (.ofNat number) := by
  cases found with
  | none => cases isSame
  | some value => exact congrArg some (Value.eq_ofNat_of_same isSame)

/-- Here `f` is the symbol 27 and `k` the symbol 28. -/
private def reciting : Interp :=
  afterText "(def f (lambda () k)) (defconstant k 5)" fluent

/-- A function without parameters whose body is one variable or literal. -/
private def isSimple (template : Template Expr) : Bool :=
  template.params.list.isEmpty && match template.body with
    | .global _ | .literal _ => true
    | _ => false

private theorem not_assigns_of_isSimple {template : Template Expr}
    (simple : isSimple template = true) : ¬ template.Assigns name := by
  obtain ⟨noParams, small⟩ := Bool.and_eq_true_iff.mp simple
  have spares : ∀ expr : Expr, expr.target? = none → expr.parts = [] → expr.templates = [] →
      (∀ inits body, expr ≠ .let_ inits body) → ¬ expr.Assigns name := by
    intro expr noTarget noParts noTemplates noLet assigns
    cases assigns with
    | here own => simp [noTarget] at own
    | part member _ => simp [noParts] at member
    | default member _ _ _ => simp [noTemplates] at member
    | body member _ => simp [noTemplates] at member
    | inner _ => exact noLet _ _ rfl
  rintro (⟨param, isParam, _⟩ | inBody)
  · rw [List.isEmpty_iff.mp noParams] at isParam
    cases isParam
  · split at small
    · next global isGlobal =>
        rw [isGlobal] at inBody
        exact spares _ rfl rfl rfl (by simp) inBody
    · next literal isLiteral =>
        rw [isLiteral] at inBody
        exact spares _ rfl rfl rfl (by simp) inBody
    · cases small

private theorem reciting_facts :
    reciting.symbols.kindOf 28 = .constant ∧
      (reciting.globals.get? 28).any (Value.same (.ofNat 5)) = true ∧
      reciting.heap.closures.size = 1 ∧ isSimple (reciting.closure 0).template = true := by
  decide +kernel

private theorem reciting_fixes : reciting.Fixes 28 (.ofNat 5) where
  symbols := SymbolStore.lasting_reachable.meets
    (meets_afterText fluent _ (fun _ => True) trivial)
    (Vocabulary.install_leads .initial)
  constant := reciting_facts.1
  bound := eq_ofNat_of_same reciting_facts.2.1

private theorem reciting_spares (index : Nat) :
    ¬ (reciting.closure index).template.Assigns 28 := by
  obtain ⟨_, _, single, simple⟩ := reciting_facts
  apply not_assigns_of_isSimple
  cases index with
  | zero => exact simple
  | succ index =>
      have beyond : reciting.closure (index + 1) = default := by
        simp [Interp.closure, Array.getD_eq_getD_getElem?, single]
      rw [beyond]
      rfl

theorem Interp.constants_kept_after_definition :
    reciting.Fixes 28 (.ofNat 5) ∧ (afterText "(def k 6)" reciting).Refuses 28 ∧
      (afterText "(def k 6)" reciting).Shows 28 (.ofNat 5) := by
  obtain ⟨refused, kept⟩ := (Interp.constants_kept 28).2 reciting (.ofNat 5) reciting_fixes
  refine ⟨reciting_fixes, ?_, ?_⟩
  · exact refused _ (meets_afterText reciting _ (fun _ => True) trivial)
  · exact kept reciting_spares _ (meets_afterText reciting _ _ id)

/-- Here `k` is the symbol 27. -/
private def overwriting : Interp :=
  afterText "(def k 1) (def f (lambda () (set! k 2))) (defconstant k 5)" fluent

private theorem overwriting_facts :
    overwriting.symbols.kindOf 27 = .constant ∧
      (overwriting.globals.get? 27).any (Value.same (.ofNat 5)) = true ∧
      (afterText "(f)" overwriting).symbols.kindOf 27 = .constant ∧
      ((afterText "(f)" overwriting).globals.get? 27).any (Value.same (.ofNat 2)) = true := by
  decide +kernel

/-- The symbols are not asked again when an assignment is done. -/
theorem Interp.constant_changed_by_function :
    overwriting.Fixes 27 (.ofNat 5) ∧ (afterText "(f)" overwriting).Fixes 27 (.ofNat 2) := by
  obtain ⟨constant, five, stillConstant, two⟩ := overwriting_facts
  have reachable : overwriting.symbols.Reachable :=
    SymbolStore.lasting_reachable.meets (meets_afterText fluent _ (fun _ => True) trivial)
      (Vocabulary.install_leads .initial)
  have called := meets_afterText overwriting "(f)" (fun _ => True) trivial
  constructor
  · exact ⟨reachable, constant, eq_ofNat_of_same five⟩
  · exact ⟨SymbolStore.lasting_reachable.meets called reachable, stillConstant,
      eq_ofNat_of_same two⟩

end Sessions

end ObjectLisp
