import ObjectLisp.Proofs.Symbols.Identity
import ObjectLisp.Reader.Machine

/-!
# Reading interns and does nothing else

A text is read with the symbols that are known so far, and what the reader
learns stays known even if the reading fails.  Every outcome therefore carries a
store, and this module shows that it is one that the operations on stores lead
to from the store at the start.
-/

namespace ObjectLisp

/-! ## Tokens -/

namespace Token

variable {α β : Type}

/-- The store that a computation leaves, whatever its outcome. -/
def left : EStateM.Result SyntaxProblem SymbolStore α → SymbolStore
  | .ok _ symbols | .error _ symbols => symbols

/-- A computation that does nothing to a store but operate on it. -/
def Leading (action : Interning α) : Prop :=
  ∀ symbols : SymbolStore, symbols.Leads (left (action symbols))

theorem Leading.pure (value : α) : Leading (Pure.pure value) :=
  fun _ => .refl

theorem Leading.bind {first : Interning α} {next : α → Interning β} (head : Leading first)
    (tail : ∀ value, Leading (next value)) : Leading (first >>= next) := by
  intro symbols
  have headLeads := head symbols
  change symbols.Leads (left (EStateM.bind first next symbols))
  unfold EStateM.bind
  cases outcome : first symbols with
  | ok value middle =>
      rw [outcome] at headLeads
      exact headLeads.trans (tail value middle)
  | error problem middle =>
      rw [outcome] at headLeads
      exact headLeads

theorem intern_leading (package : PackageId) (name : List Char) :
    Leading (intern package name) := by
  intro symbols
  unfold intern
  split
  · next interned => exact .single (.intern interned)
  · exact .refl

theorem symbol_leading (package : PackageId) (token : List Char) :
    Leading (symbol package token) := by
  intro symbols
  unfold symbol
  split
  · exact .single (.internKeyword symbols _)
  · exact intern_leading package token symbols

theorem accessMembers_leading (package : PackageId) (line : Nat) (datum : Datum)
    (members : List (List Char)) : Leading (accessMembers package line datum members) := by
  induction members generalizing datum with
  | nil => exact .pure datum
  | cons member members ih =>
      exact .bind (symbol_leading package _) fun accessor => ih _

theorem memberRoot_leading (package : PackageId) (part : List Char) :
    Leading (memberRoot package part) := by
  unfold memberRoot
  split
  · exact .pure _
  · exact symbol_leading package part

theorem read_leading (package : PackageId) (line : Nat) (token : List Char) :
    Leading (read package line token) := by
  unfold read
  split
  · exact .pure _
  · split
    · exact .pure _
    · split
      · exact .bind (memberRoot_leading package _) fun root =>
          accessMembers_leading package line root _
      · exact symbol_leading package token

end Token

/-! ## Texts -/

namespace Reader

/-- The store after one character. -/
def Step.symbols : Step → SymbolStore
  | next state => state.symbols
  | datum _ _ symbols | failed _ _ symbols => symbols

/-- The store after a reading. -/
def Outcome.symbols : Outcome → SymbolStore
  | datum _ _ _ symbols | finished _ symbols | failed _ _ symbols => symbols

variable (table : ReadTable) (package : PackageId) (state : State) (c : Char)
  (ahead : Option Char)

theorem deliver_leads (line : Nat) (symbols : SymbolStore) (datum : Datum)
    (pending : List Pending) : symbols.Leads (deliver line symbols datum pending).symbols := by
  induction pending generalizing symbols datum with
  | nil => exact .refl
  | cons form outer ih =>
      cases form with
      | wrap head start =>
          have implied : symbols.Step (symbols.internIn head PackageId.system).2 :=
            .internIn symbols head PackageId.system
          exact .head implied (ih _ _)
      | _ => exact .refl

theorem continueToken_leads (start : Nat) (taken : List Char) (line : Nat) :
    state.symbols.Leads (continueToken table package state start taken line ahead).symbols := by
  have readLeads := Token.read_leading package start taken.reverse state.symbols
  unfold continueToken
  split
  · split
    · next datum symbols result =>
        rw [result] at readLeads
        exact readLeads.trans (deliver_leads line symbols datum state.pending)
    · next problem symbols result =>
        rw [result] at readLeads
        exact readLeads
  · exact .refl

theorem startMacro_leads (line : Nat) (reader : ReaderMacro) :
    state.symbols.Leads (startMacro state line c reader).symbols := by
  cases reader <;> exact .refl

theorem start_leads : state.symbols.Leads (start table package state c ahead).symbols := by
  unfold start
  dsimp only
  split
  · exact startMacro_leads state c _ _
  · exact startMacro_leads state c _ _
  · exact .refl
  · exact continueToken_leads table package state ahead _ _ _

theorem element_leads : state.symbols.Leads (element table package state c ahead).symbols := by
  unfold element
  split
  · exact deliver_leads _ _ _ _
  · exact start_leads table package state c ahead

theorem between_leads (boundary : Boundary) :
    state.symbols.Leads (between table package state boundary c ahead).symbols := by
  have inside := element_leads table package state c ahead
  unfold between
  split
  · split
    · exact .refl
    · split
      · exact .refl
      · exact inside
  · split
    · exact .refl
    · split
      · split <;> exact .refl
      · exact inside
  · split
    · exact .refl
    · exact inside

/-- One character interns the symbols of the token or the form that it ends. -/
theorem step_leads : state.symbols.Leads (step table package state c ahead).symbols := by
  unfold step
  dsimp only
  split
  · exact between_leads table package state c ahead _
  · exact continueToken_leads table package state ahead _ _ _
  · split
    · exact deliver_leads _ _ _ _
    · split <;> exact .refl
  · split <;> exact .refl
  · split <;> exact .refl
  · split <;> exact .refl
  · split
    · exact startMacro_leads state c _ _
    · exact .refl

theorem run_leads (text : List Char) :
    state.symbols.Leads (run table package state text).symbols := by
  induction text generalizing state with
  | nil =>
      unfold run atEnd
      split <;> exact .refl
  | cons c rest ih =>
      have first := step_leads table package state c rest.head?
      unfold run
      cases result : step table package state c rest.head? with
      | next after =>
          rw [result] at first
          exact first.trans (ih after)
      | datum datum line symbols =>
          rw [result] at first
          exact first
      | failed problem line symbols =>
          rw [result] at first
          exact first

/-- Reading one datum leads the store on. -/
theorem next_leads (symbols : SymbolStore) (line : Nat) (text : List Char) :
    symbols.Leads (next table package symbols line text).symbols :=
  run_leads table package { line, symbols } text

end Reader

end ObjectLisp
