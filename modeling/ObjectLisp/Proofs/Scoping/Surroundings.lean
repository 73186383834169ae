import ObjectLisp.Proofs.Evaluation.Informed
import ObjectLisp.Proofs.Scoping.Resolution

/-!
# Surroundings

While forms are resolved, two facts are known of the names that are bound around
them.  They are no dynamic variables: that is checked where they are bound, and a
lexical name stays lexical.  And a parameter as written is neither a keyword nor a
constant: that is checked where the list is parsed, and a symbol becomes a constant
only by a definition.  The names of a `let` are not checked in this way.

This module has these facts, the rules by which actions that resolve compose, and
the actions of analysis that ask no engine.
-/

namespace ObjectLisp

open Regime

/-! ## Constants -/

/-- All constants of the second store were constants in the first one. -/
def SymbolStore.NoNewConstants (origin later : SymbolStore) : Prop :=
  ∀ symbol, later.kindOf symbol = .constant → origin.kindOf symbol = .constant

theorem SymbolStore.NoNewConstants.before {origin middle after : SymbolStore}
    (settled : origin.NoNewConstants after) (leads : middle.Leads after) :
    origin.NoNewConstants middle :=
  fun symbol constant => settled symbol (leads.kindOf_eq_constant constant)

/-! ## Surroundings -/

/-- What is known of a name that is bound, if analysis began with the symbols `origin`. -/
structure Scope.Entry.Proper (origin symbols : SymbolStore) (entry : Scope.Entry) : Prop where
  known : entry.name < symbols.count
  lexical : symbols.isDynamic entry.name = false
  variable_ : entry.binder = .parameter →
    symbols.kindOf entry.name ≠ .keyword ∧ origin.kindOf entry.name ≠ .constant

theorem Scope.Entry.Proper.leads {origin before after : SymbolStore} {entry : Scope.Entry}
    (proper : entry.Proper origin before) (leads : before.Leads after) :
    entry.Proper origin after where
  known := leads.known proper.known
  lexical := leads.isDynamic_eq_false proper.known proper.lexical
  variable_ isParameter :=
    (proper.variable_ isParameter).imp_left (leads.kindOf_ne_keyword proper.known)

namespace Resolution

open Scope

variable {origin : SymbolStore} {ribs : Ribs} {context : Context} {interp : Interp}

/-- The ribs describe the frames of the context, and what they bind is proper. -/
structure Surrounds (origin : SymbolStore) (ribs : Ribs) (context : Context) (interp : Interp) :
    Prop where
  informed : interp.Informed
  since : origin.Leads interp.symbols
  frames : context.scope.frames = ribs.frames
  proper : ∀ rib ∈ ribs, ∀ entry ∈ rib, entry.Proper origin interp.symbols

namespace Surrounds

variable (surrounds : Surrounds origin ribs context interp)

include surrounds

theorem step {after : Interp} (step : Regime.informed.Step interp after) :
    Surrounds origin ribs context after where
  informed := step.1
  since := surrounds.since.trans step.2.1
  frames := surrounds.frames
  proper rib member entry isEntry := (surrounds.proper rib member entry isEntry).leads step.2.1

theorem push {rib : List Entry} {names : List SymbolId}
    (proper : ∀ entry ∈ rib, entry.Proper origin interp.symbols)
    (named : names = rib.map Entry.name) :
    Surrounds origin (rib :: ribs) (context.push names) interp where
  informed := surrounds.informed
  since := surrounds.since
  frames := by
    change names :: context.scope.frames = _
    rw [surrounds.frames, named]
    rfl
  proper := List.forall_mem_cons.mpr ⟨proper, surrounds.proper⟩

theorem exists_innermost {name : SymbolId} {address : Address}
    (found : context.scope.address? name = some address) :
    ∃ binder, Innermost name ribs binder address := by
  unfold address? at found
  rw [surrounds.frames] at found
  exact Scope.exists_innermost found

theorem not_binds {name : SymbolId} (absent : context.scope.address? name = none) :
    ¬ Binds ribs name := by
  unfold address? at absent
  rw [surrounds.frames] at absent
  exact Scope.not_binds absent

/-- A dynamic variable is not bound lexically. -/
theorem not_binds_of_isDynamic {name : SymbolId}
    (dynamic : interp.symbols.isDynamic name = true) : ¬ Binds ribs name := by
  rintro ⟨rib, member, entry, isEntry, rfl⟩
  have lexical := (surrounds.proper rib member entry isEntry).lexical
  rw [dynamic] at lexical
  cases lexical

/-- A name that stands for a value is no parameter. -/
theorem not_innermost_parameter {name : SymbolId} {value : Value}
    (settled : origin.NoNewConstants interp.symbols) (fixed : Fixed interp name value)
    (address : Address) : ¬ Innermost name ribs .parameter address := by
  intro innermost
  obtain ⟨rib, member, isEntry⟩ := innermost.exists_mem
  obtain ⟨noKeyword, noConstant⟩ := (surrounds.proper rib member _ isEntry).variable_ rfl
  cases fixed with
  | keyword kind => exact noKeyword kind
  | constant kind _ => exact noConstant (settled name kind)

end Surrounds

/-! ## Actions that resolve -/

section Actions

variable {α β : Type} {action : Eval α} {next : α → Eval β}
  {judgement : Interp → α → Interp → Prop} {judgement' : Interp → β → Interp → Prop}

/-- The action leaves the state as it is. -/
abbrev Looks (action : Eval α) (fits : α → Prop) (interp : Interp) : Prop :=
  Regime.informed.Keeps action (fun after value => after = interp ∧ fits value) interp

/-- What the action gives is judged right, if there are no new constants at the end. -/
abbrev Resolves (origin : SymbolStore) (action : Eval α) (judgement : Interp → α → Interp → Prop)
    (interp : Interp) : Prop :=
  Regime.informed.Keeps action
    (fun after value => origin.NoNewConstants after.symbols → judgement interp value after) interp

namespace Resolves

theorem pure {value : α} (informed : interp.Informed) (judged : judgement interp value interp) :
    Resolves origin (Pure.pure value) judgement interp :=
  Carries.pure informed fun _ => judged

theorem get_bind {next : Interp → Eval β} (tail : Resolves origin (next interp) judgement' interp) :
    Resolves origin (get >>= next) judgement' interp :=
  tail

theorem imp {stronger : Interp → α → Interp → Prop}
    (resolves : Resolves origin action stronger interp)
    (rule : ∀ {value after}, stronger interp value after → judgement interp value after) :
    Resolves origin action judgement interp :=
  resolves.mono fun _ _ judged settled => rule (judged settled)

/-- An action that only looks at the state comes before another one. -/
theorem look {fits : α → Prop} (head : Looks action fits interp)
    (tail : ∀ value, fits value → Resolves origin (next value) judgement' interp) :
    Resolves origin (action >>= next) judgement' interp := by
  refine Carries.bind head ?_
  rintro value _ - ⟨rfl, fit⟩
  exact tail value fit

/-- An action that keeps the regime comes before another one. -/
theorem keep {fits : Interp → α → Prop} (head : Regime.informed.Keeps action fits interp)
    (tail : ∀ value middle, Regime.informed.Step interp middle → fits middle value →
      action interp = .ok value middle →
        Resolves origin (next value) (fun _ => judgement' interp) middle) :
    Resolves origin (action >>= next) judgement' interp := by
  refine Carries.bind (Carries.ran head) ?_
  rintro value middle step ⟨found, _, fit⟩
  exact tail value middle step fit found

/-- The second action may rely on what fits, and its judgement on the judgement of the first. -/
theorem bind_fit {fits : Interp → α → Prop}
    (head : Regime.informed.Keeps action (fun after value => fits after value ∧
      (origin.NoNewConstants after.symbols → judgement interp value after)) interp)
    (tail : ∀ value middle, Regime.informed.Step interp middle → fits middle value →
      Resolves origin (next value)
        (fun _ result after => judgement interp value middle → judgement' interp result after)
        middle) :
    Resolves origin (action >>= next) judgement' interp := by
  refine Carries.bind head ?_
  rintro value middle step ⟨fit, judged⟩
  refine (Carries.ran (tail value middle step fit)).mono ?_
  rintro after result ⟨_, later, judged'⟩ settled
  -- A constant of the middle state is one at the end, so there were no new ones before either.
  exact judged' settled (judged (settled.before later.2.1))

theorem bind (head : Resolves origin action judgement interp)
    (tail : ∀ value middle, Regime.informed.Step interp middle →
      Resolves origin (next value)
        (fun _ result after => judgement interp value middle → judgement' interp result after)
        middle) :
    Resolves origin (action >>= next) judgement' interp := by
  have judged : Regime.informed.Keeps action (fun after value => True ∧
      (origin.NoNewConstants after.symbols → judgement interp value after)) interp :=
    head.mono fun _ _ judged => ⟨trivial, judged⟩
  exact bind_fit judged fun value middle step _ => tail value middle step

end Resolves

end Actions

end Resolution

namespace Analysis

open Resolution Scope

variable {interp : Interp} (loc : Option SourceLoc)

/-! ## Looking at the state -/

section Looks

variable (informed : interp.Informed)

include informed

theorem checkLexical_looks (symbol : SymbolId) :
    Looks (checkLexical loc symbol) (fun _ => interp.symbols.isDynamic symbol = false) interp := by
  unfold Looks Keeps Carries checkLexical
  split
  · exact .failure _ (.refl informed)
  · next lexical => exact .ok (.refl informed) ⟨rfl, Bool.not_eq_true _ ▸ lexical⟩

theorem checkDynamic_looks (symbol : SymbolId) :
    Looks (checkDynamic loc symbol) (fun _ => interp.symbols.isDynamic symbol = true) interp := by
  unfold Looks Keeps Carries checkDynamic
  split
  · next dynamic => exact .ok (.refl informed) ⟨rfl, dynamic⟩
  · exact .failure _ (.refl informed)

theorem checkAssignable_looks (symbol : SymbolId) :
    Looks (Eval.checkAssignable symbol)
      (fun _ => interp.symbols.assignmentProblem? symbol = none) interp := by
  unfold Looks Keeps Carries Eval.checkAssignable
  split
  · next assignable => exact .ok (.refl informed) ⟨rfl, assignable⟩
  · exact .failure _ (.refl informed)

theorem nameOf_looks (symbol : SymbolId) :
    Looks (Eval.nameOf symbol) (fun text => text = interp.symbols.nameOf symbol) interp :=
  .ok (.refl informed) ⟨rfl, rfl⟩

theorem definitionName_looks (value : Value) :
    Looks (definitionName loc value) (fun name => value = .symbol name) interp := by
  cases value with
  | symbol name => exact .pure informed ⟨rfl, rfl⟩
  | _ => exact malformed_keeps informed loc _

theorem bindings_looks {list : Value} (known : list.Known interp.symbols) :
    Looks (bindings loc list)
      (fun pairs => list.toList?.bind (·.mapM binding?) = some pairs ∧
        ∀ pair ∈ pairs, (Value.symbol pair.1).Known interp.symbols ∧
          pair.2.Known interp.symbols) interp := by
  unfold bindings
  split
  · next pairs found =>
      obtain ⟨items, listed, written⟩ := Option.bind_eq_some_iff.mp found
      have itemsKnown : ∀ item ∈ items, Regime.informed.Fit interp item :=
        fitAll_of_toList? known listed
      exact .pure informed ⟨rfl, found, fit_of_bindings written itemsKnown⟩
  · exact malformed_keeps informed loc _

theorem qualified_looks {rest : List Value} (known : ∀ form ∈ rest, form.Known interp.symbols) :
    Looks (qualified loc rest)
      (fun shape => qualified loc rest interp = .ok shape interp ∧
        shape.2.1.Known interp.symbols ∧ ∀ form ∈ shape.2.2, form.Known interp.symbols)
      interp := by
  have unchanged : ∀ {shape after}, qualified loc rest interp = .ok shape after →
      after = interp := by
    intro shape after found
    unfold qualified at found
    repeat' split at found
    all_goals cases found
    all_goals rfl
  refine (Carries.ran (qualified_keeps informed loc known)).mono ?_
  rintro after shape ⟨found, _, parts⟩
  obtain rfl := unchanged found
  exact ⟨rfl, found, parts⟩

end Looks

/-! ## Names -/

variable {origin : SymbolStore} {ribs : Ribs} {context : Context}
  (surrounds : Surrounds origin ribs context interp)

include surrounds

theorem name_variable_ {symbol : SymbolId} (variable_ : ∀ value, ¬ Fixed interp symbol value) :
    Name ribs symbol interp (Analysis.variable_ interp.symbols context.scope symbol) := by
  unfold Analysis.variable_
  split
  · next dynamic => exact .dynamic (surrounds.not_binds_of_isDynamic dynamic) variable_ dynamic
  · next lexical =>
      split
      · next address found =>
          obtain ⟨binder, innermost⟩ := surrounds.exists_innermost found
          exact .slot innermost variable_
      · next absent =>
          exact .global (surrounds.not_binds absent) variable_ (Bool.not_eq_true _ ▸ lexical)

theorem name_resolves (symbol : SymbolId) :
    Resolves origin (name context symbol) (Form ribs (.symbol symbol)) interp := by
  refine .ok (.refl surrounds.informed) fun settled => .name ?_
  have value : ∀ {value}, Fixed interp symbol value → Name ribs symbol interp (.literal value) :=
    fun fixed => .value fixed (surrounds.not_innermost_parameter settled fixed)
  unfold resolve
  split
  · next kind => exact value (.keyword kind)
  · next kind =>
      split
      · next defined => exact value (.constant kind defined)
      · next undefined =>
          refine name_variable_ surrounds fun value fixed => ?_
          cases fixed <;> simp_all
  · next kind =>
      refine name_variable_ surrounds fun value fixed => ?_
      cases fixed <;> simp_all

theorem continuation_looks (symbol : SymbolId) :
    Looks (continuation context loc symbol)
      (fun next => ∃ binder address, Innermost interp.words.nextMethod ribs binder address ∧
        next = .local_ address interp.words.nextMethod) interp := by
  unfold Looks Keeps Carries continuation
  split
  · next address found =>
      obtain ⟨binder, innermost⟩ := surrounds.exists_innermost found
      exact .ok (.refl surrounds.informed) ⟨rfl, binder, address, innermost, rfl⟩
  · exact .failure _ (.refl surrounds.informed)

/-! ## Parameter lists -/

/-- What is known of a parameter of a list that was parsed. -/
structure Accepted (origin symbols : SymbolStore) (param : Param Value) : Prop where
  known : param.name < symbols.count
  variable_ : symbols.kindOf param.name ≠ .keyword ∧ origin.kindOf param.name ≠ .constant
  init : ∀ form ∈ param.init, form.Known symbols

omit surrounds in
theorem Accepted.leads {before after : SymbolStore} {param : Param Value}
    (accepted : Accepted origin before param) (leads : before.Leads after) :
    Accepted origin after param where
  known := leads.known accepted.known
  variable_ := accepted.variable_.imp_left (leads.kindOf_ne_keyword accepted.known)
  init form isForm := (accepted.init form isForm).leads leads

/-- The parameters of a list that is accepted are neither keywords nor constants. -/
theorem parameterList_parses {list : Value} (known : list.Known interp.symbols) :
    Regime.informed.Keeps (parameterList loc list)
      (fun after params =>
        (LambdaList.parse interp.words.markers interp.symbols list = (.ok params, after.symbols) ∧
          after = { interp with symbols := after.symbols }) ∧
        ∀ param ∈ params, Accepted origin after.symbols param) interp := by
  have interns := LambdaList.parse_internsKeywords interp.words.markers interp.symbols list
  have step : Regime.informed.Step interp { interp with symbols := _ } :=
    Lawful.move surrounds.informed (.symbols interns.leads)
  unfold Keeps Carries parameterList
  dsimp only
  split
  · next params found =>
      refine .ok step ⟨⟨by rw [← found], rfl⟩, fun param member => ?_⟩
      have fits : ∀ param ∈ params, Regime.informed.Fit interp (.symbol param.name) ∧
          ∀ form ∈ param.init, Regime.informed.Fit interp form :=
        LambdaList.fit_of_parse found known
      have exists_ := Value.known_symbol.mp (fits param member).1
      -- The name is plain, so it was no constant from the beginning.
      have plain := LambdaList.plain_of_parse found param member exists_
      refine Accepted.leads ⟨exists_, ⟨by simp [plain], ?_⟩, (fits param member).2⟩ interns.leads
      intro constant
      rw [surrounds.since.kindOf_eq_constant constant] at plain
      cases plain
  · exact .failure _ step

end Analysis

end ObjectLisp
