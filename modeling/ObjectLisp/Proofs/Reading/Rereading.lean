import ObjectLisp.Proofs.Symbols.Arrangement
import ObjectLisp.Proofs.Symbols.Interning
import ObjectLisp.Reader.All

/-!
# Reading a text twice

All that reading does to a store is to intern names.  So a text that was read once
is read again in the same way, and the second time nothing is interned, also if
more names were interned in between.  Two things are needed for this.  The current
package has to exist, since names that belong nowhere are made anew each time.  And
no package may inherit the keywords, since a new keyword is exported at once and
could hide what was found before.
-/

namespace ObjectLisp

/-! ## Actions on a store -/

/-- Results that carry a store, which can be exchanged. -/
class HasStore (ρ : Type) where
  store : ρ → SymbolStore
  put : SymbolStore → ρ → ρ
  put_store : ∀ result, put (store result) result = result

namespace SymbolStore

open HasStore

variable {ρ σ : Type} [HasStore ρ] [HasStore σ] {package : PackageId} {symbols : SymbolStore}

/-- From a store, the action hides nothing.  Done again later, it has the same result and leaves
the store as it is. -/
def RepeatsAt (symbols : SymbolStore) (action : SymbolStore → ρ) : Prop :=
  symbols.Widens (store (action symbols)) ∧
    ∀ later, (store (action symbols)).Widens later → action later = put later (action symbols)

/-- The action can be repeated from every store that names can be interned in. -/
def Repeats (package : PackageId) (action : SymbolStore → ρ) : Prop :=
  ∀ symbols : SymbolStore, symbols.Receives package → symbols.RepeatsAt action

theorem RepeatsAt.still {action : SymbolStore → ρ} (keeps : store (action symbols) = symbols)
    (same : ∀ later, symbols.Widens later → action later = put later (action symbols)) :
    symbols.RepeatsAt action := by
  constructor
  · rw [keeps]
    exact .refl symbols
  · rw [keeps]
    exact same

/-- An action that only hands the store on. -/
theorem Repeats.still {action : SymbolStore → ρ}
    (keeps : ∀ symbols later,
      (store (action later), action later) = (later, put later (action symbols))) :
    Repeats package action := by
  intro symbols _
  refine .still (congrArg Prod.fst (keeps symbols symbols)) fun later _ => ?_
  exact congrArg Prod.snd (keeps symbols later)

theorem Repeats.ite {condition : Prop} [Decidable condition] {first second : SymbolStore → ρ}
    (holds : Repeats package first) (fails : Repeats package second) :
    Repeats package fun symbols => if condition then first symbols else second symbols := by
  by_cases decided : condition
  · simp only [if_pos decided]
    exact holds
  · simp only [if_neg decided]
    exact fails

/-- Two actions, of which the second one works on the result of the first. -/
theorem Repeats.andThen {action : SymbolStore → σ} {first : SymbolStore → ρ} (second : ρ → σ)
    (splits : ∀ symbols, action symbols = second (first symbols)) (head : Repeats package first)
    (tail : ∀ result, Repeats package fun symbols => second (put symbols result)) :
    Repeats package action := by
  intro symbols receives
  obtain ⟨widens, again⟩ := head symbols receives
  obtain ⟨widens', again'⟩ := tail (first symbols) _ (receives.widens widens)
  dsimp only at widens' again'
  rw [put_store, ← splits] at widens' again'
  refine ⟨widens.trans widens', ?_⟩
  intro later knows
  rw [splits later, again later (widens'.trans knows)]
  exact again' later knows

instance {α : Type} : HasStore (α × SymbolStore) where
  store result := result.2
  put symbols result := (result.1, symbols)
  put_store _ := rfl

theorem Receives.repeatsAt_internIn (receives : symbols.Receives package) (name : String) :
    symbols.RepeatsAt fun symbols => symbols.internIn name package :=
  ⟨receives.widens_internIn name, fun _ widens => internIn_again receives.current name widens⟩

/-- Names are interned in the system package whatever the current one is. -/
theorem Receives.inSystem (receives : symbols.Receives package) :
    symbols.Receives PackageId.system :=
  { receives with current := receives.system }

theorem Receives.inKeyword (receives : symbols.Receives package) :
    symbols.Receives PackageId.keyword :=
  { receives with current := receives.keyword }

end SymbolStore

open SymbolStore (Repeats)

/-! ## Tokens -/

namespace Token

variable {α β : Type} {package : PackageId}

instance : HasStore (EStateM.Result SyntaxProblem SymbolStore α) where
  store := left
  put symbols
    | .ok value _ => .ok value symbols
    | .error problem _ => .error problem symbols
  put_store result := by cases result <;> rfl

theorem pure_repeats (value : α) : Repeats package (pure value : Interning α) :=
  .still fun _ _ => rfl

theorem bind_repeats {first : Interning α} {next : α → Interning β}
    (head : Repeats package first) (tail : ∀ value, Repeats package (next value)) :
    Repeats package (first >>= next) := by
  refine .andThen (fun result => match result with
    | .ok value symbols => next value symbols
    | .error problem symbols => .error problem symbols) ?_ head ?_
  · intro symbols
    change EStateM.bind first next symbols = _
    unfold EStateM.bind
    cases first symbols <;> rfl
  · intro result
    cases result with
    | ok value _ => exact tail value
    | error problem _ => exact .still fun _ _ => rfl

theorem internKeyword_repeats (name : String) :
    Repeats package fun symbols => symbols.internKeyword name :=
  fun _ receives => receives.inKeyword.repeatsAt_internIn name

/-- A name is found in the same package again, or the package that it mentions is missing again. -/
theorem intern_repeats (name : List Char) : Repeats package (intern package name) := by
  intro symbols receives
  have inPackage : ∀ (plain : String) (target : PackageId), symbols.Receives target →
      (∀ later : SymbolStore, symbols.Widens later → intern package name later =
        .ok (.symbol (later.internIn plain target).1) (later.internIn plain target).2) →
      symbols.RepeatsAt (intern package name) := by
    intro plain target receives interns
    obtain ⟨widens, again⟩ := receives.repeatsAt_internIn plain
    unfold SymbolStore.RepeatsAt
    rw [interns symbols (.refl symbols)]
    refine ⟨widens, fun later knows => ?_⟩
    have same : later.internIn plain target = ((symbols.internIn plain target).1, later) :=
      again later knows
    rw [interns later (widens.trans knows), same]
    rfl
  cases split : Symbol.splitQualified? (String.ofList name) with
  | none =>
      refine inPackage (String.ofList name) package receives fun later _ => ?_
      simp only [intern, SymbolStore.intern, split]
  | some parts =>
      cases found : symbols.findPackage? parts.1 with
      | some target =>
          refine inPackage parts.2 target (receives.named found) fun later widens => ?_
          have foundLater := (widens.arranged.findPackage?_eq parts.1).trans found
          simp only [intern, SymbolStore.intern, split, foundLater]
      | none =>
          have missing : ∀ later : SymbolStore, symbols.Widens later →
              intern package name later = .error (.unknownPackage parts.1) later := by
            intro later widens
            have foundLater := (widens.arranged.findPackage?_eq parts.1).trans found
            simp only [intern, SymbolStore.intern, split, foundLater]
          have now := missing symbols (.refl symbols)
          refine .still ?_ fun later widens => ?_
          · rw [now]
            rfl
          · rw [now, missing later widens]
            rfl

theorem symbol_repeats (token : List Char) : Repeats package (symbol package token) := by
  cases isKeyword : keywordName? token with
  | none =>
      have plain : symbol package token = intern package token := by
        funext symbols
        simp only [symbol, isKeyword]
      rw [plain]
      exact intern_repeats token
  | some name =>
      refine .andThen (fun result => .ok (.symbol result.1) result.2) (fun symbols => ?_)
        (internKeyword_repeats (String.ofList name)) fun _ => .still fun _ _ => rfl
      simp only [symbol, isKeyword]

theorem accessMembers_repeats (line : Nat) (datum : Datum) (members : List (List Char)) :
    Repeats package (accessMembers package line datum members) := by
  induction members generalizing datum with
  | nil => exact pure_repeats datum
  | cons member members ih => exact bind_repeats (symbol_repeats _) fun accessor => ih _

theorem memberRoot_repeats (part : List Char) : Repeats package (memberRoot package part) := by
  unfold memberRoot
  split
  · exact pure_repeats _
  · exact symbol_repeats part

theorem read_repeats (line : Nat) (token : List Char) :
    Repeats package (read package line token) := by
  unfold read
  split
  · exact pure_repeats _
  · split
    · exact pure_repeats _
    · split
      · exact bind_repeats (memberRoot_repeats _) fun root => accessMembers_repeats line root _
      · exact symbol_repeats token

end Token

/-! ## Characters -/

namespace Reader

instance : HasStore Step where
  store := Step.symbols
  put symbols
    | .next state => .next { state with symbols }
    | .datum datum line _ => .datum datum line symbols
    | .failed problem line _ => .failed problem line symbols
  put_store step := by cases step <;> rfl

instance : HasStore Outcome where
  store := Outcome.symbols
  put symbols
    | .datum datum rest line _ => .datum datum rest line symbols
    | .finished line _ => .finished line symbols
    | .failed problem line _ => .failed problem line symbols
  put_store outcome := by cases outcome <;> rfl

variable (table : ReadTable) (package : PackageId) (state : State) (c : Char)
  (ahead : Option Char)

theorem deliver_repeats (line : Nat) (datum : Datum) (pending : List Pending) :
    Repeats package fun symbols => deliver line symbols datum pending := by
  induction pending generalizing datum with
  | nil => exact .still fun _ _ => rfl
  | cons form outer ih =>
      cases form with
      | wrap head start =>
          exact .andThen
            (fun result => deliver line result.2
              (.list (some start) [.symbol result.1, datum]) outer)
            (fun _ => rfl) (fun _ receives => receives.inSystem.repeatsAt_internIn head)
            fun result => ih (.list (some start) [.symbol result.1, datum])
      | _ => exact .still fun _ _ => rfl

/-- What the end of a token leads to. -/
def afterToken (line : Nat) (pending : List Pending) :
    EStateM.Result SyntaxProblem SymbolStore Datum → Step
  | .ok datum symbols => deliver line symbols datum pending
  | .error problem symbols => .failed problem line symbols

theorem continueToken_repeats (start : Nat) (taken : List Char) (line : Nat) :
    Repeats package fun symbols =>
      continueToken table package { state with symbols } start taken line ahead := by
  unfold continueToken
  by_cases ends : endsToken table ahead = true
  · simp only [if_pos ends]
    refine .andThen (afterToken line state.pending) (fun _ => rfl)
      (Token.read_repeats start taken.reverse) ?_
    intro result
    cases result with
    | ok datum _ => exact deliver_repeats package line datum state.pending
    | error problem _ => exact .still fun _ _ => rfl
  · simp only [if_neg ends]
    exact .still fun _ _ => rfl

theorem startMacro_repeats (line : Nat) (reader : ReaderMacro) :
    Repeats package fun symbols => startMacro { state with symbols } line c reader := by
  cases reader <;> exact .still fun _ _ => rfl

theorem start_repeats :
    Repeats package fun symbols => start table package { state with symbols } c ahead := by
  have token := continueToken_repeats table package state ahead state.line [c]
    (advance state.line c)
  unfold start
  cases table.classOf c with
  | terminating =>
      cases table.macroOf? c with
      | some reader => exact startMacro_repeats package state c (advance state.line c) reader
      | none => exact .still fun _ _ => rfl
  | nonterminating =>
      cases table.macroOf? c with
      | some reader => exact startMacro_repeats package state c (advance state.line c) reader
      | none => exact token
  | _ => exact token

theorem element_repeats :
    Repeats package fun symbols => element table package { state with symbols } c ahead := by
  unfold element
  dsimp only
  cases close? c state.pending with
  | some closed => exact deliver_repeats package _ closed.1 closed.2
  | none => exact start_repeats table package state c ahead

theorem between_repeats (boundary : Boundary) :
    Repeats package fun symbols =>
      between table package { state with symbols } boundary c ahead := by
  have inside := element_repeats table package state c ahead
  obtain ⟨mode, pending, line, symbols⟩ := state
  unfold between
  cases boundary with
  | comment => exact .ite (.still fun _ _ => rfl) inside
  | element =>
      rcases pending with _ | ⟨form, outer⟩
      · exact .ite (.still fun _ _ => rfl) inside
      · cases form with
        | list start items =>
            refine .ite (.still fun _ _ => rfl) (.ite ?_ inside)
            exact .ite (.still fun _ _ => rfl) (.still fun _ _ => rfl)
        | _ => exact .ite (.still fun _ _ => rfl) inside
  | comma =>
      rcases pending with _ | ⟨form, outer⟩
      · exact .ite (.still fun _ _ => rfl) inside
      · cases form with
        | wrap head start =>
            exact .ite (.still fun _ _ => rfl) (.ite (.still fun _ _ => rfl) inside)
        | _ => exact .ite (.still fun _ _ => rfl) inside

/-- What one character leads to, it leads to again. -/
theorem step_repeats :
    Repeats package fun symbols => step table package { state with symbols } c ahead := by
  obtain ⟨mode, pending, line, symbols⟩ := state
  unfold step
  cases mode <;> dsimp only
  case between boundary =>
    exact between_repeats table package ⟨.between boundary, pending, line, symbols⟩ c ahead boundary
  case token start taken =>
    exact continueToken_repeats table package ⟨.token start taken, pending, line, symbols⟩ ahead
      start (c :: taken) (advance line c)
  case string close taken =>
    exact .ite (deliver_repeats package (advance line c) _ pending)
      (.ite (.still fun _ _ => rfl) (.still fun _ _ => rfl))
  case escape close taken => cases unescape? c <;> exact .still fun _ _ => rfl
  case lineComment => exact .ite (.still fun _ _ => rfl) (.still fun _ _ => rfl)
  case blockComment depth mark =>
    obtain ⟨depth, mark⟩ := blockStep depth mark c
    cases depth <;> exact .still fun _ _ => rfl
  case dispatch trigger =>
    cases table.dispatchOf? trigger c with
    | none => exact .still fun _ _ => rfl
    | some reader =>
        exact startMacro_repeats package ⟨.dispatch trigger, pending, line, symbols⟩ c
          (advance line c) reader

/-! ## Texts -/

theorem run_repeats (text : List Char) :
    Repeats package fun symbols => run table package { state with symbols } text := by
  induction text generalizing state with
  | nil =>
      obtain ⟨mode, pending, line, symbols⟩ := state
      unfold run atEnd
      cases mode <;> cases pending <;> exact .still fun _ _ => rfl
  | cons c rest ih =>
      refine .andThen (fun result => match result with
        | .next state => run table package state rest
        | .datum datum line symbols => .datum datum rest line symbols
        | .failed problem line symbols => .failed problem line symbols) (fun _ => rfl)
        (step_repeats table package state c rest.head?) ?_
      intro result
      cases result with
      | next after => exact ih after
      | datum datum line _ => exact .still fun _ _ => rfl
      | failed problem line _ => exact .still fun _ _ => rfl

/-- With all that reading the next datum taught, it is read again in the same way. -/
theorem next_again {symbols : SymbolStore} (receives : symbols.Receives package) (line : Nat)
    (text : List Char) :
    next table package (next table package symbols line text).symbols line text =
      next table package symbols line text := by
  have again := (run_repeats table package { line, symbols } text symbols receives).2 _ (.refl _)
  exact again.trans (HasStore.put_store (next table package symbols line text))

/-! ## What follows the last datum -/

/-- The step leads to a state without open forms only from one, and without interning. -/
def Step.Bare (state : State) : Step → Prop
  | next after => after.pending = [] → state.pending = [] ∧ after.symbols = state.symbols
  | datum .. | failed .. => True

theorem deliver_bare (line : Nat) (symbols : SymbolStore) (datum : Datum)
    (pending : List Pending) : (deliver line symbols datum pending).Bare state := by
  induction pending generalizing symbols datum with
  | nil => exact trivial
  | cons form outer ih =>
      cases form with
      | wrap head start => exact ih _ _
      | closing => exact trivial
      | _ => exact nofun

theorem continueToken_bare (start : Nat) (taken : List Char) (line : Nat) :
    (continueToken table package state start taken line ahead).Bare state := by
  unfold continueToken
  split
  · split
    · exact deliver_bare state _ _ _ _
    · exact trivial
  · exact fun empty => ⟨empty, rfl⟩

theorem startMacro_bare (line : Nat) (reader : ReaderMacro) :
    (startMacro state line c reader).Bare state := by
  cases reader with
  | list | vector | quote | quasiquote | unquote => exact nofun
  | closer => exact trivial
  | string | lineComment | dispatch | blockComment => exact fun empty => ⟨empty, rfl⟩

theorem start_bare : (start table package state c ahead).Bare state := by
  unfold start
  dsimp only
  split
  · exact startMacro_bare state c _ _
  · exact startMacro_bare state c _ _
  · exact trivial
  · exact continueToken_bare table package state ahead _ _ _

theorem element_bare : (element table package state c ahead).Bare state := by
  unfold element
  split
  · exact deliver_bare state _ _ _ _
  · exact start_bare table package state c ahead

theorem between_bare (boundary : Boundary) :
    (between table package state boundary c ahead).Bare state := by
  have inside := element_bare table package state c ahead
  unfold between
  split
  · split
    · exact nofun
    · split
      · exact fun empty => ⟨empty, rfl⟩
      · exact inside
  · split
    · exact fun empty => ⟨empty, rfl⟩
    · split
      · split
        · exact trivial
        · exact nofun
      · exact inside
  · split
    · exact fun empty => ⟨empty, rfl⟩
    · exact inside

theorem step_bare : (step table package state c ahead).Bare state := by
  unfold step
  dsimp only
  split
  · exact between_bare table package state c ahead _
  · exact continueToken_bare table package state ahead _ _ _
  · split
    · exact deliver_bare state _ _ _ _
    · split <;> exact fun empty => ⟨empty, rfl⟩
  · split
    · exact fun empty => ⟨empty, rfl⟩
    · exact trivial
  · split <;> exact fun empty => ⟨empty, rfl⟩
  · split <;> exact fun empty => ⟨empty, rfl⟩
  · split
    · exact startMacro_bare state c _ _
    · exact trivial

/-- A text in which there is no datum is read without interning. -/
theorem run_finished {text : List Char} {line : Nat} {symbols : SymbolStore}
    (finished : run table package state text = .finished line symbols) :
    state.pending = [] ∧ symbols = state.symbols := by
  induction text generalizing state with
  | nil =>
      unfold run atEnd at finished
      split at finished
      · next empty =>
          cases finished
          exact ⟨empty, rfl⟩
      · next empty =>
          cases finished
          exact ⟨empty, rfl⟩
      · cases finished
  | cons c rest ih =>
      have bare := step_bare table package state c rest.head?
      unfold run at finished
      cases result : step table package state c rest.head? with
      | next after =>
          rw [result] at finished bare
          obtain ⟨empty, same⟩ := ih after finished
          exact ⟨(bare empty).1, same.trans (bare empty).2⟩
      | datum datum line symbols =>
          rw [result] at finished
          cases finished
      | failed problem line symbols =>
          rw [result] at finished
          cases finished

variable {file : String} {symbols : SymbolStore}

theorem readAtMost_nil {bound line : Nat} {text : List Char}
    (readable : (readAtMost table package file bound symbols line text).error? = none)
    (empty : (readAtMost table package file bound symbols line text).data = []) :
    (readAtMost table package file bound symbols line text).symbols = symbols := by
  cases bound with
  | zero => rfl
  | succ bound =>
      unfold readAtMost at readable empty ⊢
      cases outcome : next table package symbols line text with
      | datum datum rest line symbols =>
          rw [outcome] at empty
          cases empty
      | finished line symbols => exact (run_finished table package _ outcome).2
      | failed problem line symbols =>
          rw [outcome] at readable
          cases readable

/-- A text with one datum at most teaches what its first datum teaches. -/
theorem readAll_symbols_of_short {text : String}
    (readable : (readAll table package file symbols text).error? = none)
    (short : (readAll table package file symbols text).data.length ≤ 1) :
    (readAll table package file symbols text).symbols =
      (next table package symbols 1 text.toList).symbols := by
  unfold readAll readAtMost at readable short ⊢
  dsimp only at readable short ⊢
  cases outcome : next table package symbols 1 text.toList with
  | datum datum rest line symbols =>
      rw [outcome] at readable short
      have nothingMore :=
        List.eq_nil_of_length_eq_zero (Nat.le_zero.mp (Nat.le_of_succ_le_succ short))
      exact readAtMost_nil table package readable nothingMore
  | finished line symbols => rfl
  | failed problem line symbols =>
      rw [outcome] at readable
      cases readable

end Reader

end ObjectLisp
