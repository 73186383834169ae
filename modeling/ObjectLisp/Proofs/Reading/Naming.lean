import ObjectLisp.Proofs.Symbols.Interning
import ObjectLisp.Proofs.Symbols.Records

/-!
# Symbols of data that are read

A datum refers to symbols by number, and the numbers that the reader puts into it
are those of symbols that the store has by then.  They come from interning, and
what comes later takes no symbol away.  So it is enough to follow the data that
the reader keeps in its pending forms from character to character.
-/

namespace ObjectLisp

/-! ## Data -/

namespace Datum

mutual

/-- The symbols that a datum is built of. -/
def symbols : Datum → List SymbolId
  | symbol id => [id]
  | cons _ car cdr => car.symbols ++ cdr.symbols
  | vec _ items => symbolsIn items
  | _ => []

/-- The symbols that several data are built of. -/
def symbolsIn : List Datum → List SymbolId
  | [] => []
  | item :: items => item.symbols ++ symbolsIn items

end

/-- All symbols of the datum are in the store. -/
def Known (store : SymbolStore) (datum : Datum) : Prop :=
  ∀ symbol ∈ datum.symbols, symbol < store.count

variable {store : SymbolStore}

theorem mem_symbolsIn {id : SymbolId} {items : List Datum} :
    id ∈ symbolsIn items ↔ ∃ item ∈ items, id ∈ item.symbols := by
  induction items with
  | nil => simp [symbolsIn]
  | cons item items ih => simp [symbolsIn, ih]

theorem Known.leads {later : SymbolStore} {datum : Datum} (known : datum.Known store)
    (leads : store.Leads later) : datum.Known later :=
  fun id member => leads.known (known id member)

theorem known_symbol {id : SymbolId} (known : id < store.count) : (symbol id).Known store := by
  simpa [Known, symbols] using known

theorem known_cons {line : Option Nat} {car cdr : Datum} (carKnown : car.Known store)
    (cdrKnown : cdr.Known store) : (cons line car cdr).Known store := by
  intro id member
  rcases List.mem_append.mp member with inCar | inCdr
  · exact carKnown id inCar
  · exact cdrKnown id inCdr

theorem known_vec {line : Option Nat} {items : List Datum}
    (known : ∀ item ∈ items, item.Known store) : (vec line items).Known store := by
  intro id member
  obtain ⟨item, isItem, inItem⟩ := mem_symbolsIn.mp member
  exact known item isItem id inItem

theorem known_chain {line : Option Nat} {items : List Datum} {tail : Datum}
    (known : ∀ item ∈ items, item.Known store) (tailKnown : tail.Known store) :
    (chain line items tail).Known store := by
  induction items generalizing line with
  | nil => exact tailKnown
  | cons item items ih =>
      obtain ⟨first, others⟩ := List.forall_mem_cons.mp known
      exact known_cons first (ih others)

theorem known_null : null.Known store := by
  simp [Known, symbols]

theorem known_list {line : Option Nat} {items : List Datum}
    (known : ∀ item ∈ items, item.Known store) : (list line items).Known store :=
  known_chain known known_null

end Datum

/-! ## Tokens -/

namespace Token

variable {symbols : SymbolStore} (package : PackageId)

/-- From a store, the computation gives a datum of symbols that the store it leaves has. -/
def Naming (action : Interning Datum) (symbols : SymbolStore) : Prop :=
  ∀ datum later, action symbols = .ok datum later → datum.Known later

theorem Naming.pure {datum : Datum} (known : datum.Known symbols) :
    Naming (Pure.pure datum) symbols := by
  intro result later ran
  cases ran
  exact known

theorem Naming.bind {first : Interning Datum} {next : Datum → Interning Datum}
    (leading : Leading first) (head : Naming first symbols)
    (tail : ∀ datum later, symbols.Leads later → datum.Known later → Naming (next datum) later) :
    Naming (first >>= next) symbols := by
  intro result last ran
  have leads := leading symbols
  change EStateM.bind first next symbols = .ok result last at ran
  unfold EStateM.bind at ran
  cases outcome : first symbols with
  | ok datum later =>
      rw [outcome] at ran leads
      exact tail datum later leads (head datum later outcome) result last ran
  | error problem later =>
      rw [outcome] at ran
      cases ran

variable (coherent : symbols.Coherent)

include coherent

theorem symbol_naming (token : List Char) : Naming (symbol package token) symbols := by
  intro datum later ran
  unfold symbol at ran
  split at ran
  · cases ran
    exact Datum.known_symbol (coherent.lt_count_internIn _ _)
  · unfold intern at ran
    split at ran
    · next id after interned =>
        cases ran
        exact Datum.known_symbol (coherent.lt_count_intern interned)
    · cases ran

theorem accessMembers_naming (line : Nat) {datum : Datum} (known : datum.Known symbols)
    (members : List (List Char)) : Naming (accessMembers package line datum members) symbols := by
  induction members generalizing symbols datum with
  | nil => exact .pure known
  | cons member members ih =>
      refine .bind (symbol_leading package _) (symbol_naming package coherent _)
        fun accessor later leads accessorKnown => ih (coherent.leads leads).1 ?_
      exact Datum.known_list (by simpa using ⟨accessorKnown, known.leads leads⟩)

theorem memberRoot_naming (part : List Char) : Naming (memberRoot package part) symbols := by
  unfold memberRoot
  split
  · exact .pure (by simp [Datum.Known, Datum.symbols])
  · exact symbol_naming package coherent part

theorem read_naming (line : Nat) (token : List Char) :
    Naming (read package line token) symbols := by
  unfold read
  split
  · exact .pure (by simp [Datum.Known, Datum.symbols])
  · split
    · exact .pure (by simp [Datum.Known, Datum.symbols])
    · split
      · exact .bind (memberRoot_leading package _) (memberRoot_naming package coherent _)
          fun root later leads known =>
            accessMembers_naming package (coherent.leads leads).1 line known _
      · exact symbol_naming package coherent token

end Token

/-! ## Texts -/

namespace Reader

/-- The data that a pending form has got so far. -/
def Pending.data : Pending → List Datum
  | list _ items | tail _ items | vector _ items => items
  | closing _ items last => last :: items
  | wrap .. => []

/-- All symbols of the data in the pending forms are in the store. -/
def Holding (symbols : SymbolStore) (pending : List Pending) : Prop :=
  ∀ form ∈ pending, ∀ datum ∈ form.data, datum.Known symbols

theorem Holding.leads {symbols later : SymbolStore} {pending : List Pending}
    (holding : Holding symbols pending) (leads : symbols.Leads later) : Holding later pending :=
  fun form isPending datum isDatum => (holding form isPending datum isDatum).leads leads

theorem holding_cons {symbols : SymbolStore} {form : Pending} {outer : List Pending} :
    Holding symbols (form :: outer) ↔
      (∀ datum ∈ form.data, datum.Known symbols) ∧ Holding symbols outer :=
  List.forall_mem_cons

/-- What one character leads to has symbols of the store only. -/
def Step.Names : Step → Prop
  | next state => Holding state.symbols state.pending
  | datum found _ symbols => found.Known symbols
  | failed .. => True

theorem names_deliver (line : Nat) {symbols : SymbolStore} {datum : Datum}
    {pending : List Pending} (coherent : symbols.Coherent) (known : datum.Known symbols)
    (holding : Holding symbols pending) : (deliver line symbols datum pending).Names := by
  induction pending generalizing symbols datum with
  | nil => exact known
  | cons form outer ih =>
      obtain ⟨here, around⟩ := holding_cons.mp holding
      cases form with
      | list start items => exact holding_cons.mpr ⟨List.forall_mem_cons.mpr ⟨known, here⟩, around⟩
      | tail start items => exact holding_cons.mpr ⟨List.forall_mem_cons.mpr ⟨known, here⟩, around⟩
      | closing start items last => exact trivial
      | vector start items => exact holding_cons.mpr ⟨List.forall_mem_cons.mpr ⟨known, here⟩, around⟩
      | wrap head start =>
          have implied : symbols.Leads (symbols.internIn head PackageId.system).2 :=
            .single (.internIn symbols head PackageId.system)
          refine ih (coherent.leads implied).1 (Datum.known_list ?_) (around.leads implied)
          simpa using ⟨Datum.known_symbol (coherent.lt_count_internIn head _), known.leads implied⟩

theorem known_of_close? {c : Char} {pending outer : List Pending} {datum : Datum}
    {symbols : SymbolStore} (closed : close? c pending = some (datum, outer))
    (holding : Holding symbols pending) : datum.Known symbols ∧ Holding symbols outer := by
  have reversed : ∀ {items : List Datum}, (∀ item ∈ items, item.Known symbols) →
      ∀ item ∈ items.reverse, item.Known symbols :=
    fun known item member => known item (List.mem_reverse.mp member)
  unfold close? at closed
  split at closed
  · obtain ⟨here, around⟩ := holding_cons.mp holding
    split at closed <;> cases closed
    exact ⟨Datum.known_list (reversed here), around⟩
  · obtain ⟨here, around⟩ := holding_cons.mp holding
    obtain ⟨last, items⟩ := List.forall_mem_cons.mp here
    split at closed <;> cases closed
    exact ⟨Datum.known_chain (reversed items) last, around⟩
  · obtain ⟨here, around⟩ := holding_cons.mp holding
    split at closed <;> cases closed
    exact ⟨Datum.known_vec (reversed here), around⟩
  · cases closed

variable (table : ReadTable) (package : PackageId) {state : State} (c : Char)
  (ahead : Option Char) (coherent : state.symbols.Coherent)
  (holding : Holding state.symbols state.pending)

include holding in
theorem names_startMacro (line : Nat) (reader : ReaderMacro) :
    (startMacro state line c reader).Names := by
  cases reader with
  | list | vector | quote | quasiquote | unquote =>
      exact holding_cons.mpr ⟨by simp [Pending.data], holding⟩
  | closer => exact trivial
  | string | lineComment | dispatch | blockComment => exact holding

include coherent holding

theorem names_continueToken (start : Nat) (taken : List Char) (line : Nat) :
    (continueToken table package state start taken line ahead).Names := by
  have leads := Token.read_leading package start taken.reverse state.symbols
  unfold continueToken
  split
  · split
    · next datum symbols result =>
        have known := Token.read_naming package coherent start taken.reverse datum symbols result
        rw [result] at leads
        exact names_deliver line (coherent.leads leads).1 known (holding.leads leads)
    · exact trivial
  · exact holding

theorem names_start : (start table package state c ahead).Names := by
  unfold start
  dsimp only
  split
  · exact names_startMacro c holding _ _
  · exact names_startMacro c holding _ _
  · exact trivial
  · exact names_continueToken table package ahead coherent holding _ _ _

theorem names_element : (element table package state c ahead).Names := by
  unfold element
  split
  · next datum outer closed =>
      obtain ⟨known, around⟩ := known_of_close? closed holding
      exact names_deliver _ coherent known around
  · exact names_start table package c ahead coherent holding

theorem names_between (boundary : Boundary) :
    (between table package state boundary c ahead).Names := by
  have inside := names_element table package c ahead coherent holding
  unfold between
  split
  · next line outer isPending =>
      rw [isPending] at holding
      obtain ⟨_, around⟩ := holding_cons.mp holding
      split
      · exact holding_cons.mpr ⟨by simp [Pending.data], around⟩
      · split
        · rw [← isPending] at holding
          exact holding
        · exact inside
  · next line items outer isPending =>
      split
      · exact holding
      · split
        · rw [isPending] at holding
          obtain ⟨here, around⟩ := holding_cons.mp holding
          split
          · exact trivial
          · exact holding_cons.mpr ⟨here, around⟩
        · exact inside
  · split
    · exact holding
    · exact inside

/-- What the reader keeps has symbols of the store after each character. -/
theorem names_step : (step table package state c ahead).Names := by
  unfold step
  dsimp only
  split
  · exact names_between table package c ahead coherent holding _
  · exact names_continueToken table package ahead coherent holding _ _ _
  · split
    · exact names_deliver _ coherent (by simp [Datum.Known, Datum.symbols]) holding
    · split <;> exact holding
  · split
    · exact holding
    · exact trivial
  · split <;> exact holding
  · split <;> exact holding
  · split
    · exact names_startMacro c holding _ _
    · exact trivial

theorem known_of_run {text rest : List Char} {datum : Datum} {line : Nat} {symbols : SymbolStore}
    (ran : run table package state text = .datum datum rest line symbols) :
    datum.Known symbols := by
  induction text generalizing state with
  | nil =>
      unfold run atEnd at ran
      split at ran <;> cases ran
  | cons c text ih =>
      have names := names_step table package c text.head? coherent holding
      have leads := step_leads table package state c text.head?
      unfold run at ran
      cases result : step table package state c text.head? with
      | next after =>
          rw [result] at ran names leads
          exact ih (coherent.leads leads).1 names ran
      | datum datum line symbols =>
          rw [result] at ran names
          cases ran
          exact names
      | failed problem line symbols =>
          rw [result] at ran
          cases ran

omit coherent holding

/-- All symbols of a datum that is read are in the store after it. -/
theorem known_of_next {symbols later : SymbolStore} {line last : Nat} {text rest : List Char}
    {datum : Datum} (coherent : symbols.Coherent)
    (read : next table package symbols line text = .datum datum rest last later) :
    datum.Known later := by
  refine known_of_run table package ?_ ?_ read
  · exact coherent
  · simp [Holding]

end Reader

end ObjectLisp
