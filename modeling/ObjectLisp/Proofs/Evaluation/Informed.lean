import ObjectLisp.Proofs.Calls.Grammar
import ObjectLisp.Proofs.Evaluation.Commands
import ObjectLisp.Proofs.Evaluation.Gains

/-!
# Symbols in values

A value refers to symbols by number.  A number that no symbol has yet says nothing:
the symbol that gets it may turn out to be a keyword or a dynamic variable.

No program comes across such a number.  The symbols in all values that a state
holds exist, in every state that evaluation comes to, and so do those in the values
that functions give and in the forms that macros make.  New symbols come from
interning and from the reader, and the names that definitions give were read
before.
-/

namespace ObjectLisp

/-! ## Values, expressions and states -/

namespace Value

variable {store later : SymbolStore} {value : Value}

theorem Known.leads (known : value.Known store) (leads : store.Leads later) :
    value.Known later :=
  fun symbol member => leads.known (known symbol member)

theorem known_symbol {symbol : SymbolId} :
    (Value.symbol symbol).Known store ↔ symbol < store.count := by
  simp [Known, symbols]

theorem known_cons {id : Nat} {car cdr : Value} :
    (Value.cons id car cdr).Known store ↔ car.Known store ∧ cdr.Known store :=
  List.forall_mem_append

/-- Only symbols and cells refer to symbols. -/
theorem known_of_isAtom (atom : value.isAtom = true) : value.Known store := by
  cases value with
  | symbol => cases atom
  | cons => cases atom
  | _ => simp [Known, symbols]

theorem known_class (id : ClassId) : (Value.class_ id).Known store := by
  simp [Known, symbols]

end Value

/-- The symbols in all values that are given anywhere in the expression exist. -/
def Expr.Known (store : SymbolStore) (expr : Expr) : Prop :=
  ∀ inner : Expr, inner.Inside expr → ∀ value ∈ inner.results, value.Known store

/-- The symbols in all values that are given anywhere in the function exist. -/
def Template.Known (store : SymbolStore) (template : Template Expr) : Prop :=
  ∀ inner, template.Contains inner → ∀ value ∈ inner.results, value.Known store

theorem Expr.Known.leads {store later : SymbolStore} {expr : Expr} (known : expr.Known store)
    (leads : store.Leads later) : expr.Known later :=
  fun inner inside value member => (known inner inside value member).leads leads

theorem Template.Known.leads {store later : SymbolStore} {template : Template Expr}
    (known : template.Known store) (leads : store.Leads later) : template.Known later :=
  fun inner contained value member => (known inner contained value member).leads leads

theorem Expr.Known.bears {store : SymbolStore} {expr : Expr} {value : Value}
    (known : expr.Known store) (bears : expr.Bears value) : value.Known store := by
  obtain ⟨inner, inside, member⟩ := bears.exists_inside
  exact known inner inside value (mem_results_of_mem_values member)

theorem Expr.Known.template {store : SymbolStore} {expr : Expr} {template : Template Expr}
    (known : expr.Known store) (member : template ∈ expr.templates) : template.Known store := by
  intro inner contained
  rcases contained with ⟨param, isParam, init, isInit, inside⟩ | inside
  · exact known inner (.default member isParam isInit inside)
  · exact known inner (.body member inside)

/-- The symbols in all values of a state exist, those in the code of closures and the hidden
parameter of methods included, which is bound lexically. -/
structure Interp.Informed (interp : Interp) : Prop where
  coherent : interp.symbols.Coherent
  held : ∀ value, interp.Holds value → value.Known interp.symbols
  code : ∀ closure ∈ interp.heap.closures, closure.template.Known interp.symbols
  hidden : interp.words.nextMethod < interp.symbols.count
  lexical : interp.symbols.isDynamic interp.words.nextMethod = false

/-- Values that are handed around have symbols that exist. -/
def Regime.informed : Regime where
  Good := Interp.Informed
  Effect before after := before.symbols.Leads after.symbols ∧ after.words = before.words
  Fit interp value := value.Known interp.symbols
  Ready expr _ interp := expr.Known interp.symbols
  Body expr _ _ interp := expr.Known interp.symbols
  Writable _ := True
  Stops _ stop stop' := stop' = stop

theorem Regime.informed_exact : Regime.informed.Exact := fun _ _ _ => Iff.rfl

theorem Regime.informed_open : Regime.informed.Open := fun _ _ _ => trivial

/-! ## Moves -/

namespace Interp

variable {interp before after : Interp}

/-- A state stays informed if it gets only values and code whose symbols exist. -/
theorem Informed.grow (informed : before.Informed) (leads : before.symbols.Leads after.symbols)
    (words : after.words = before.words)
    (held : ∀ value, after.Holds value → before.Holds value ∨ value.Known before.symbols)
    (code : ∀ closure ∈ after.heap.closures, closure ∈ before.heap.closures ∨
      closure.template.Known before.symbols) : after.Informed := by
  refine ⟨(informed.coherent.leads leads).1, ?_, ?_, ?_, ?_⟩
  · intro value holds
    rcases held value holds with old | known
    · exact (informed.held value old).leads leads
    · exact known.leads leads
  · intro closure member
    rcases code closure member with old | known
    · exact (informed.code closure old).leads leads
    · exact known.leads leads
  · rw [words]
    exact leads.known informed.hidden
  · rw [words]
    exact leads.isDynamic_eq_false informed.hidden informed.lexical

/-- A change that leaves symbols, words and closures alone. -/
theorem Informed.of_same (informed : before.Informed)
    (symbols : after.symbols = before.symbols) (words : after.words = before.words)
    (closures : after.heap.closures = before.heap.closures)
    (held : ∀ value, after.Holds value → before.Holds value ∨ value.Known before.symbols) :
    after.Informed := by
  refine informed.grow (symbols ▸ .refl) words held ?_
  intro closure member
  rw [closures] at member
  exact .inl member

theorem Informed.move (informed : before.Informed) (move : Regime.informed.Move before after) :
    Regime.informed.Step before after := by
  have bearing : ∀ {expr env} {interp : Interp} {value}, Regime.informed.Ready expr env interp →
      expr.Bears value → Regime.informed.Fit interp value :=
    fun known bears => Expr.Known.bears known bears
  have held : ∀ value, after.Holds value → before.Holds value ∨ value.Known before.symbols :=
    fun value holds => move.holds bearing holds
  cases move with
  | store quiet =>
      refine ⟨informed.grow quiet.symbols quiet.words held ?_, quiet.symbols, quiet.words⟩
      intro closure member
      rw [quiet.closures] at member
      exact .inl member
  | close ready isTemplate =>
      refine ⟨informed.grow .refl rfl held ?_, .refl, rfl⟩
      intro closure member
      rcases Array.mem_push.mp member with old | rfl
      · exact .inl old
      · exact .inr (Expr.Known.template ready isTemplate)
  | slot | object | own | linearize | chain | addSlot | removeSlot | addBehavior | extend | define
  | write | assign | assignDynamic => exact ⟨informed.of_same rfl rfl rfl held, .refl, rfl⟩

/-- The symbols in the code of a closure exist. -/
theorem Informed.known_code (informed : interp.Informed) (index : Nat) :
    (interp.closure index).template.Known interp.symbols := by
  unfold closure
  rw [Array.getD_eq_getD_getElem?]
  cases found : interp.heap.closures[index]? with
  | some closure => exact informed.code closure (Array.mem_of_getElem? found)
  | none =>
      -- There is no such closure, and the one that takes its place gives null.
      rintro inner (⟨param, isParam, _⟩ | inside)
      · cases isParam
      · cases inside with
        | self =>
            intro value member
            obtain rfl : value = .null := List.mem_singleton.mp member
            exact Value.known_of_isAtom rfl
        | part member => cases member
        | default member => cases member
        | body member => cases member

end Interp

/-! ## The regime -/

instance Regime.informed_lawful : Regime.informed.Lawful where
  refl _ := ⟨.refl, rfl⟩
  trans first second := ⟨first.1.trans second.1, second.2.trans first.2⟩
  fit_effect effect known := Value.Known.leads known effect.1
  fit_same same known := Value.Known.leads known (same.symbols ▸ .refl)
  fit_atom := Value.known_of_isAtom
  fit_cons := Value.known_cons
  fit_symbol informed step exists_ := Value.known_symbol.mpr (exists_ informed.coherent)
  fit_held informed holds := informed.held _ holds
  fit_order _ _ _ := Value.known_class _
  fit_nominal _ _ := Value.known_class _
  fit_defined _ _ := Value.known_class _
  ready_effect effect known := Expr.Known.leads known effect.1
  body_effect effect known := Expr.Known.leads known effect.1
  ready_bind _ known := known
  ready_part known member inner inside := known inner (.part member inside)
  ready_let known inner inside := known inner (.inner inside)
  ready_top admissible := admissible.fits
  ready_value known member := known _ .self _ member
  ready_target _ _ := trivial
  ready_default := by
    intro interp index informed param isParam init isInit inner inside
    exact informed.known_code index inner (.inl ⟨param, isParam, init, isInit, inside⟩)
  closure_body := by
    intro interp index informed inner inside
    exact informed.known_code index inner (.inr inside)
  writable _ _ := trivial
  storable_default _ _ _ := trivial
  move := Interp.Informed.move
  bind := by
    intro interp bindings informed fits
    constructor
    · refine informed.of_same ?_ ?_ ?_ ?_
      · rfl
      · rfl
      · rfl
      · intro value holds
        rcases Interp.holds_binding holds with old | ⟨binding, member, rfl⟩
        · exact .inl old
        · exact .inr (fits binding member)
    · rintro after ⟨informedAfter, effect⟩
      exact ⟨informedAfter.of_same rfl rfl rfl
        fun value holds => .inl (Interp.holds_unwinding holds), effect⟩
  call := by
    intro interp informed _
    constructor
    · exact informed.of_same rfl rfl rfl
        fun value holds => .inl (holds.of_eq rfl rfl rfl rfl rfl rfl)
    · rintro after ⟨informedAfter, effect⟩
      exact ⟨informedAfter.of_same rfl rfl rfl
        fun value holds => .inl (holds.of_eq rfl rfl rfl rfl rfl rfl), effect⟩
  enter := by
    intro interp slots parent body informed fits known
    refine ⟨⟨?_, ?_⟩, known⟩
    · exact informed.of_same rfl rfl rfl
        fun value holds => (Interp.holds_entering holds).imp_right (fits value)
    · rintro after ⟨informedAfter, effect⟩
      exact ⟨informedAfter.of_same rfl rfl rfl
        fun value holds => .inl (Interp.holds_leaving holds), effect⟩
  load := by
    intro interp informed
    refine ⟨informed, ?_⟩
    rintro after ⟨informedAfter, effect⟩
    exact ⟨informedAfter.of_same rfl rfl rfl
      fun value holds => .inl (holds.of_eq rfl rfl rfl rfl rfl rfl), effect⟩
  stops_failure _ _ := rfl
  stops_spent _ := rfl
  stops_same _ same := same

/-! ## New interpreters -/

/-- The hidden parameter of methods is a symbol that is bound lexically. -/
theorem Vocabulary.install_nextMethod {symbols : SymbolStore} (reachable : symbols.Reachable) :
    (install symbols).1.nextMethod < (install symbols).2.count ∧
      (install symbols).2.isDynamic (install symbols).1.nextMethod = false := by
  have forms := internForms_leads symbols {} SpecialForm.all
  unfold install
  generalize internForms symbols {} SpecialForm.all = interned at forms
  obtain ⟨table, known⟩ := interned
  dsimp only at forms ⊢
  have markers := ((forms.trans (internSystem_leads known "&optional")).trans
    (internSystem_leads _ "&key")).trans (internSystem_leads _ "&rest")
  generalize (internSystem _ "&rest").2 = store at markers ⊢
  have before : store.Reachable := reachable.trans markers
  have made : store.Leads (store.internIn "%next-method" PackageId.system).2 :=
    .single (.internIn store _ _)
  have exists_ := before.coherent.lt_count_internIn "%next-method" PackageId.system
  have named := before.coherent.nameOf_internIn "%next-method" PackageId.system
  generalize store.internIn "%next-method" PackageId.system = method at made exists_ named ⊢
  have lexical : method.2.isDynamic method.1 = false := by
    have after : method.2.Reachable := before.trans made
    apply after.isDynamic_eq_false
    rw [named]
    decide
  have qualifiers : method.2.Leads _ :=
    .tail (.tail (.single (.internKeyword _ "before")) (.internKeyword _ "after"))
      (.internKeyword _ "around")
  exact ⟨qualifiers.known exists_, qualifiers.isDynamic_eq_false exists_ lexical⟩

namespace Interp

variable {interp : Interp}

theorem informed_new {symbols : SymbolStore} {words : Vocabulary} (config : Config)
    (coherent : symbols.Coherent) (hidden : words.nextMethod < symbols.count)
    (lexical : symbols.isDynamic words.nextMethod = false) :
    ({ config, symbols, words } : Interp).Informed where
  coherent := coherent
  held _ holds := absurd holds not_holds_new
  code closure member := by simp at member
  hidden := hidden
  lexical := lexical

/-- A global may be set to a value whose symbols exist. -/
theorem Informed.setGlobal (informed : interp.Informed) {symbols : SymbolStore} (name : SymbolId)
    {value : Value} (leads : interp.symbols.Leads symbols) (known : value.Known interp.symbols) :
    ({ interp with symbols, globals := interp.globals.set name value } : Interp).Informed := by
  apply informed.grow
  · exact leads
  · rfl
  · intro other holds
    rcases holds_setGlobal holds with old | rfl
    · exact .inl old
    · exact .inr known
  · exact fun closure => .inl

theorem Informed.defineSystem (informed : interp.Informed) (name : String) {value : Value}
    (known : value.Known interp.symbols) : (interp.defineSystem name value).Informed :=
  informed.setGlobal _ (Vocabulary.internSystem_leads _ name) known

theorem Informed.defineAll (informed : interp.Informed) {bindings : List (String × Value)}
    (atoms : ∀ binding ∈ bindings, binding.2.isAtom = true) :
    (interp.defineAll bindings).Informed := by
  induction bindings generalizing interp with
  | nil => exact informed
  | cons binding bindings ih =>
      obtain ⟨first, others⟩ := List.forall_mem_cons.mp atoms
      exact ih (informed.defineSystem _ (Value.known_of_isAtom first)) others

theorem informed_bare {symbols : SymbolStore} (reachable : symbols.Reachable) (config : Config) :
    (bare config symbols).Informed := by
  have constant : ∀ {interp : Interp} (name : String) (value : Value), interp.Informed →
      value.isAtom = true → (interp.defineSystemConstant name value).Informed :=
    fun name value informed atom => informed.setGlobal _
      (defineSystemConstant_leads _ name value) (Value.known_of_isAtom atom)
  have installed := reachable.trans (Vocabulary.install_leads symbols)
  have method := Vocabulary.install_nextMethod reachable
  unfold bare
  generalize Vocabulary.install symbols = vocabulary at installed method
  obtain ⟨words, known⟩ := vocabulary
  dsimp only at installed method ⊢
  have coherent := SymbolStore.Reachable.coherent installed
  have fresh := informed_new config coherent method.1 method.2
  have booleans := constant "false" (.bool false) (constant "true" (.bool true) fresh rfl) rfl
  have constants := constant "null" .null booleans rfl
  have root := constants.defineSystem "object" (Value.known_class ClassId.object)
  exact (root.defineAll (isAtom_operatorBindings _)).defineAll isAtom_primitiveBindings

/-- An informed state is followed by informed states, if commands bring only known symbols. -/
theorem Informed.meets {allowed : Command → Prop} {met : Interp} (informed : interp.Informed)
    (brings : ∀ command current, allowed command → Interp.Informed current →
      command.Brings Regime.informed current)
    (meets : interp.Meets allowed met) : met.Informed :=
  Regime.informed_exact.good_of_meets Regime.informed_open id informed brings meets

/-- All states that an interpreter meets while it evaluates texts are informed. -/
theorem informed_of_texts {symbols : SymbolStore} (reachable : symbols.Reachable)
    (config : Config) {met : Interp}
    (meets : (start config symbols).Meets (fun command => ∃ file content,
      command = .text file content) met) : met.Informed := by
  have text : ∀ command current, (∃ file content, command = Command.text file content) →
      Interp.Informed current → command.Brings Regime.informed current := by
    rintro _ current ⟨file, content, rfl⟩ _
    exact trivial
  have prelude : ∀ interp : Interp, interp.Informed → interp.withPrelude.Informed := by
    intro interp informed
    have read : interp.Runs (fun command => ∃ file content, command = .text file content)
        interp.withPrelude :=
      .command .start (.text Prelude.fileName Prelude.text) ⟨_, _, rfl⟩ Engine.ample
    exact informed.meets text (.between read)
  have entered : ∀ interp : Interp, interp.Informed → interp.enterConfigured.Informed :=
    fun interp informed => informed.grow (Library.ensurePackage_leads _ interp.symbols) rfl
      (fun value holds => .inl (holds.of_eq rfl rfl rfl rfl rfl rfl)) fun closure => .inl
  refine Informed.meets ?_ text meets
  unfold start
  apply entered
  split
  · exact prelude _ (informed_bare reachable config)
  · exact informed_bare reachable config

end Interp

end ObjectLisp
