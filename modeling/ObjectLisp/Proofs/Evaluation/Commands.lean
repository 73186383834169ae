import ObjectLisp.Interp.Start
import ObjectLisp.Proofs.Evaluation.Discipline

/-!
# Commands and the states they meet

An interpreter is told to evaluate forms and texts and to call functions, one
after the other, and every command may end with a value, a failure or not at all
within its fuel.  The states of interest are those between commands and those in
which a command asks its engine for something.  For a lawful regime or discipline
all of them are good if the first one is.

As a first use, symbols are only ever operated on: what holds of the store of a
new interpreter and is kept by every operation holds in every state it meets.
-/

namespace ObjectLisp

/-! ## Commands -/

/-- What an interpreter can be told to do, or has left to do. -/
inductive Command where
  | form (datum : Value) (source : SourceMap)
  | text (file content : String)
  | call (function : Value) (arguments : List Value) (loc : Option SourceLoc)
  /-- An expression that was analysed at some time before. -/
  | eval (expr : Expr) (env : Option FrameId)

namespace Command

/-- Do what a command says. -/
def run (engine : Engine) : Command → Eval Value
  | form datum source => Source.evalForm engine datum source
  | text file content => Source.evalText engine file content
  | call function arguments loc => engine.apply function arguments loc
  | eval expr env => engine.eval expr env

/-- The values that a command brings fit, and the expression that it brings is ready. -/
def Brings (regime : Regime) (interp : Interp) : Command → Prop
  | form datum _ => regime.Fit interp datum
  | text _ _ => True
  | call function arguments _ =>
      regime.Fit interp function ∧ ∀ argument ∈ arguments, regime.Fit interp argument
  | eval expr env => regime.Ready expr env interp

/-- Under a regime that does not look at values, it is enough that the expression is ready. -/
theorem brings_of_ready {regime : Regime} {interp : Interp} {command : Command}
    (fit : ∀ value, regime.Fit interp value)
    (ready : ∀ expr env, command = .eval expr env → regime.Ready expr env interp) :
    command.Brings regime interp := by
  cases command with
  | form datum source => exact fit datum
  | text file content => exact trivial
  | call function arguments loc => exact ⟨fit function, fun argument _ => fit argument⟩
  | eval expr env => exact ready expr env rfl

theorem run_carries {regime : Regime} [regime.Lawful] {engine twin : Engine} {interp : Interp}
    (engines : regime.Engines engine twin) (exact_ : regime.Exact) (command : Command)
    (good : regime.Good interp) (brings : command.Brings regime interp) :
    regime.Carries (command.run engine) (command.run twin) regime.Fit interp := by
  cases command with
  | form datum source => exact Source.evalForm_carries engines good source brings
  | text file content => exact Source.evalText_carries engines good exact_ file content
  | call function arguments loc => exact engines.apply loc good brings.1 brings.2
  | eval expr env => exact engines.eval good brings

end Command

namespace Interp

/-- The states between commands, each of which is allowed and may end in any way. -/
inductive Runs (allowed : Command → Prop) (interp : Interp) : Interp → Prop where
  | start : Runs allowed interp interp
  | command {later : Interp} (runs : Runs allowed interp later) (command : Command)
      (isAllowed : allowed command) (fuel : Nat) :
      Runs allowed interp (Eval.final (command.run (.ofFuel fuel) later))

/-- The states between commands, and those in which a command asks its engine for something. -/
inductive Meets (allowed : Command → Prop) (interp : Interp) : Interp → Prop where
  | between {later : Interp} (runs : interp.Runs allowed later) : Meets allowed interp later
  | inside {later met : Interp} {command : Command} {fuel : Nat} {request : Request}
      (runs : interp.Runs allowed later) (isAllowed : allowed command)
      (reaches : Reaches (fun engine => command.run engine) fuel later request met) :
      Meets allowed interp met

end Interp

/-- From a good state on only good states are met, if what commands bring fits. -/
theorem Regime.Exact.good_of_meets {regime : Regime} [regime.Lawful] (exact_ : regime.Exact)
    (isOpen : regime.Open) (stays : ¬ regime.Quits) {allowed : Command → Prop} {interp met : Interp}
    (good : regime.Good interp)
    (brings : ∀ command current, allowed command → regime.Good current →
      command.Brings regime current)
    (meets : interp.Meets allowed met) : regime.Good met := by
  have carries : ∀ {command current}, allowed command → regime.Good current →
      ∀ engine twin, regime.Engines engine twin →
        regime.Carries (command.run engine) (command.run twin) regime.Fit current :=
    fun isAllowed good _ _ engines =>
      Command.run_carries engines exact_ _ good (brings _ _ isAllowed good)
  have between : ∀ {later}, interp.Runs allowed later → regime.Good later := by
    intro later runs
    induction runs with
    | start => exact good
    | command _ _ isAllowed fuel ih =>
        exact (exact_.ends_run isOpen (carries isAllowed ih) fuel).step.1
  cases meets with
  | between runs => exact between runs
  | inside runs isAllowed reaches =>
      exact (exact_.admits_of_reaches isOpen (carries isAllowed (between runs)) stays reaches).good

/-- From a good state on only good states are met, if the expressions that commands bring are
ready. -/
theorem Discipline.Lawful.good_of_meets {discipline : Discipline} (lawful : discipline.Lawful)
    {allowed : Command → Prop} {interp met : Interp} (good : discipline.Good interp)
    (ready : ∀ expr env current, allowed (.eval expr env) → discipline.Ready expr env current)
    (meets : interp.Meets allowed met) : discipline.Good met := by
  have := lawful.regime
  refine discipline.exact.good_of_meets discipline.isOpen id good ?_ meets
  intro command current isAllowed _
  refine Command.brings_of_ready (fun _ => trivial) ?_
  rintro expr env rfl
  exact ready expr env current isAllowed

/-! ## Facts about symbols -/

/-- Every operation on a store keeps the fact. -/
def SymbolStore.Lasting (holds : SymbolStore → Prop) : Prop :=
  ∀ before after : SymbolStore, holds before → before.Leads after → holds after

theorem SymbolStore.lasting_reachable : Lasting Reachable :=
  fun _ _ reachable leads => reachable.trans leads

/-- Evaluation may start from any expression, with symbols of which a fact holds. -/
def Discipline.upholding (holds : SymbolStore → Prop) : Discipline where
  Good interp := holds interp.symbols
  Effect _ _ := True
  Ready _ _ _ := True
  Body _ _ _ _ := True
  Writable _ := True

/-- Evaluation only operates on the symbols, so it upholds every lasting fact. -/
theorem Discipline.upholding_lawful {holds : SymbolStore → Prop}
    (lasting : SymbolStore.Lasting holds) : (Discipline.upholding holds).Lawful where
  refl _ := trivial
  trans _ _ := trivial
  ready_effect _ _ := trivial
  body_effect _ _ := trivial
  ready_bind _ _ := trivial
  ready_part _ _ := trivial
  ready_let _ := trivial
  ready_top _ _ := trivial
  ready_target _ _ := trivial
  ready_default _ _ _ _ _ _ := trivial
  closure_body _ _ := trivial
  writable _ _ := trivial
  plain good quiet := ⟨lasting _ _ good quiet.symbols, trivial⟩
  write _ good _ := ⟨good, trivial⟩
  close good _ _ := ⟨good, trivial⟩
  assign _ good _ := ⟨good, trivial⟩
  assign_dynamic good _ := ⟨good, trivial⟩
  bind _ good := ⟨good, fun _ step => step⟩
  call good _ := ⟨good, fun _ step => step⟩
  enter good _ := ⟨⟨good, fun _ step => step⟩, trivial⟩
  load good := ⟨good, fun _ step => step⟩

theorem SymbolStore.Lasting.eval {holds : SymbolStore → Prop} (lasting : Lasting holds)
    {interp after : Interp} {fuel : Nat} {expr : Expr} {env : Option FrameId} {value : Value}
    (ran : (Engine.ofFuel fuel).eval expr env interp = .ok value after)
    (holdsNow : holds interp.symbols) : holds after.symbols := by
  have lawful := Discipline.upholding_lawful lasting
  have good : (Discipline.upholding holds).Good interp := holdsNow
  have ready : (Discipline.upholding holds).Ready expr env interp := trivial
  have outcome := lawful.outcome (fun _ _ engines => engines.eval good ready) fuel
  rw [ran] at outcome
  exact outcome.1.1

theorem SymbolStore.Lasting.meets {holds : SymbolStore → Prop} (lasting : Lasting holds)
    {allowed : Command → Prop} {interp met : Interp} (meets : interp.Meets allowed met)
    (holdsNow : holds interp.symbols) : holds met.symbols :=
  (Discipline.upholding_lawful lasting).good_of_meets holdsNow (fun _ _ _ _ => trivial) meets

/-! ## The current package -/

/-- The current package and those of the first store exist. -/
structure Interp.Placed (interp : Interp) : Prop where
  first : PackageId.user < interp.symbols.packages.size
  current : interp.package < interp.symbols.packages.size

namespace Interp.Placed

variable {before after : Interp}

theorem grow (placed : before.Placed)
    (size : before.symbols.packages.size ≤ after.symbols.packages.size)
    (package : after.package = before.package ∨ after.package < after.symbols.packages.size) :
    after.Placed := by
  refine ⟨Nat.lt_of_lt_of_le placed.first size, ?_⟩
  rcases package with same | inside
  · exact same ▸ Nat.lt_of_lt_of_le placed.current size
  · exact inside

/-- Whatever else changes, the packages are there. -/
theorem of_same (placed : before.Placed) (symbols : after.symbols = before.symbols)
    (package : after.package = before.package) : after.Placed :=
  placed.grow (symbols ▸ Nat.le_refl _) (.inl package)

end Interp.Placed

/-- Evaluation may start from any expression in a package that exists. -/
def Discipline.placing : Discipline where
  Good := Interp.Placed
  Effect before after := before.symbols.packages.size ≤ after.symbols.packages.size
  Ready _ _ _ := True
  Body _ _ _ _ := True
  Writable _ := True

/-- A package is entered by its name, so it exists, and no package is ever taken away. -/
theorem Discipline.placing_lawful : Discipline.placing.Lawful where
  refl _ := Nat.le_refl _
  trans := Nat.le_trans
  ready_effect _ _ := trivial
  body_effect _ _ := trivial
  ready_bind _ _ := trivial
  ready_part _ _ := trivial
  ready_let _ := trivial
  ready_top _ _ := trivial
  ready_target _ _ := trivial
  ready_default _ _ _ _ _ _ := trivial
  closure_body _ _ := trivial
  writable _ _ := trivial
  plain good quiet :=
    ⟨good.grow quiet.symbols.size_le quiet.package, quiet.symbols.size_le⟩
  write _ good _ := ⟨good.of_same rfl rfl, Nat.le_refl _⟩
  close good _ _ := ⟨good.of_same rfl rfl, Nat.le_refl _⟩
  assign _ good _ := ⟨good.of_same rfl rfl, Nat.le_refl _⟩
  assign_dynamic good _ := ⟨good.of_same rfl rfl, Nat.le_refl _⟩
  bind _ good :=
    ⟨good.of_same rfl rfl, fun _ step => ⟨step.1.of_same rfl rfl, step.2⟩⟩
  call good _ :=
    ⟨good.of_same rfl rfl, fun _ step => ⟨step.1.of_same rfl rfl, step.2⟩⟩
  enter good _ :=
    ⟨⟨good.of_same rfl rfl, fun _ step => ⟨step.1.of_same rfl rfl, step.2⟩⟩, trivial⟩
  load good := ⟨good, fun _ step => ⟨good.grow step.2 (.inl rfl), step.2⟩⟩

theorem Interp.Placed.meets {allowed : Command → Prop} {interp met : Interp}
    (placed : interp.Placed) (meets : interp.Meets allowed met) : met.Placed :=
  Discipline.placing_lawful.good_of_meets placed (fun _ _ _ _ => trivial) meets

theorem Library.ensurePackage_lt (name : String) (symbols : SymbolStore) :
    (ensurePackage name symbols).1 < (ensurePackage name symbols).2.packages.size := by
  unfold ensurePackage
  split
  · next found => exact (Array.findIdx?_eq_some_iff_getElem.mp found).1
  · next fresh =>
      have made : symbols.addPackage name =
          (symbols.packages.size, { symbols with packages := symbols.packages.push { name } }) := by
        simp only [SymbolStore.addPackage, fresh]
      have grown := SymbolStore.Step.size_le
        (.usePackage (symbols.addPackage name).2 (symbols.addPackage name).1 PackageId.system)
      rw [made] at grown ⊢
      exact Nat.lt_of_lt_of_le (by simp) grown

/-! ## New interpreters -/

namespace Vocabulary

theorem internSystem_leads (symbols : SymbolStore) (name : String) :
    symbols.Leads (internSystem symbols name).2 :=
  .head (.internIn symbols name PackageId.system) (.single (.exportSymbol _ _))

theorem internForms_leads (symbols : SymbolStore) (forms : Assoc SymbolId SpecialForm)
    (others : List SpecialForm) : symbols.Leads (internForms symbols forms others).2 := by
  induction others generalizing symbols forms with
  | nil => exact .refl
  | cons form others ih => exact (internSystem_leads symbols form.name).trans (ih _ _)

theorem install_leads (symbols : SymbolStore) : symbols.Leads (install symbols).2 := by
  have forms := internForms_leads symbols {} SpecialForm.all
  unfold install
  generalize internForms symbols {} SpecialForm.all = interned at forms
  obtain ⟨table, known⟩ := interned
  dsimp only at forms ⊢
  have markers := ((forms.trans (internSystem_leads known "&optional")).trans
    (internSystem_leads _ "&key")).trans (internSystem_leads _ "&rest")
  have nextMethod := markers.tail (.internIn _ "%next-method" PackageId.system)
  have qualifiers := (nextMethod.tail (.internKeyword _ "before")).tail
    (.internKeyword _ "after")
  exact qualifiers.tail (.internKeyword _ "around")

end Vocabulary

namespace Interp

theorem defineSystem_leads (interp : Interp) (name : String) (value : Value) :
    interp.symbols.Leads (interp.defineSystem name value).symbols :=
  Vocabulary.internSystem_leads interp.symbols name

theorem defineSystemConstant_leads (interp : Interp) (name : String) (value : Value) :
    interp.symbols.Leads (interp.defineSystemConstant name value).symbols := by
  have interned := Vocabulary.internSystem_leads interp.symbols name
  unfold defineSystemConstant
  dsimp only
  split
  · next made => exact interned.tail (.makeConstant made)
  · exact interned

theorem defineAll_leads (interp : Interp) (bindings : List (String × Value)) :
    interp.symbols.Leads (interp.defineAll bindings).symbols := by
  induction bindings generalizing interp with
  | nil => exact .refl
  | cons binding bindings ih => exact (interp.defineSystem_leads _ _).trans (ih _)

/-! The operators and the built-in functions are atoms. -/

theorem isAtom_operatorBindings (operators : OperatorTable (OperatorMethod Value)) :
    ∀ binding ∈ operatorBindings operators, binding.2.isAtom = true := by
  intro binding member
  obtain ⟨entry, _, rfl⟩ := List.mem_map.mp member
  rfl

theorem isAtom_primitiveBindings : ∀ binding ∈ primitiveBindings, binding.2.isAtom = true := by
  intro binding member
  obtain ⟨function, _, rfl⟩ := List.mem_map.mp member
  rfl

theorem bare_leads (config : Config) (symbols : SymbolStore) :
    symbols.Leads (bare config symbols).symbols := by
  have installed := Vocabulary.install_leads symbols
  unfold bare
  generalize Vocabulary.install symbols = vocabulary at installed
  obtain ⟨words, known⟩ := vocabulary
  dsimp only at installed ⊢
  have constants := ((installed.trans
    (defineSystemConstant_leads { config, symbols := known, words } "true" (.bool true))).trans
    (defineSystemConstant_leads _ "false" (.bool false))).trans
    (defineSystemConstant_leads _ "null" .null)
  have classes := constants.trans (defineSystem_leads _ "object" (.class_ ClassId.object))
  exact (classes.trans (defineAll_leads _ _)).trans (defineAll_leads _ primitiveBindings)

/-- An interpreter that starts with symbols made by operations has such symbols. -/
theorem reachable_symbols_start {symbols : SymbolStore} (reachable : symbols.Reachable)
    (config : Config) : (start config symbols).symbols.Reachable := by
  have bare : (bare config symbols).symbols.Reachable :=
    reachable.trans (bare_leads config symbols)
  have prelude : ∀ interp : Interp, interp.symbols.Reachable →
      interp.withPrelude.symbols.Reachable := by
    intro interp known
    have read : interp.Runs (fun _ => True) interp.withPrelude :=
      .command .start (.text Prelude.fileName Prelude.text) trivial Engine.ample
    exact SymbolStore.lasting_reachable.meets (.between read) known
  have entered : ∀ interp : Interp, interp.symbols.Reachable →
      interp.enterConfigured.symbols.Reachable :=
    fun interp known => known.trans (Library.ensurePackage_leads _ interp.symbols)
  unfold start
  apply entered
  split
  · exact prelude _ bare
  · exact bare

theorem package_defineAll (interp : Interp) (bindings : List (String × Value)) :
    (interp.defineAll bindings).package = interp.package := by
  induction bindings generalizing interp with
  | nil => rfl
  | cons binding bindings ih => exact ih _

theorem package_defineSystem (interp : Interp) (name : String) (value : Value) :
    (interp.defineSystem name value).package = interp.package := rfl

theorem package_defineSystemConstant (interp : Interp) (name : String) (value : Value) :
    (interp.defineSystemConstant name value).package = interp.package := rfl

theorem package_bare (config : Config) (symbols : SymbolStore) :
    (bare config symbols).package = PackageId.system := by
  unfold bare
  generalize Vocabulary.install symbols = vocabulary
  obtain ⟨words, known⟩ := vocabulary
  simp only [package_defineAll, package_defineSystem, package_defineSystemConstant]

/-- A new interpreter is in a package that it found or made. -/
theorem placed_start {symbols : SymbolStore} (reachable : symbols.Reachable) (config : Config) :
    (start config symbols).Placed := by
  have bare : (bare config symbols).Placed := by
    have known : SymbolStore.initial.Leads (bare config symbols).symbols :=
      reachable.trans (bare_leads config symbols)
    constructor
    · exact Nat.lt_of_lt_of_le (by decide) known.size_le
    · rw [package_bare]
      exact Nat.lt_of_lt_of_le (by decide) known.size_le
  have prelude : ∀ interp : Interp, interp.Placed → interp.withPrelude.Placed := by
    intro interp placed
    have read : interp.Runs (fun _ => True) interp.withPrelude :=
      .command .start (.text Prelude.fileName Prelude.text) trivial Engine.ample
    exact placed.meets (.between read)
  have entered : ∀ interp : Interp, interp.Placed → interp.enterConfigured.Placed :=
    fun interp placed => placed.grow (Library.ensurePackage_leads _ interp.symbols).size_le
      (.inr (Library.ensurePackage_lt _ interp.symbols))
  unfold start
  apply entered
  split
  · exact prelude _ bare
  · exact bare

end Interp

end ObjectLisp
