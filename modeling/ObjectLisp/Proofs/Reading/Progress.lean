import ObjectLisp.Proofs.Reading.Comments

/-!
# Reading makes progress

Whatever the read table says, every character is taken once, and what it does is a
single step: it ends the reading, or leads to the next character.  A character opens
at most one reader macro, so macros are never nested deeper than characters were
taken.  A datum takes at least one character, and the end of the text is reported
only where nothing is left of it.

Reading all data of a text is a loop that goes on behind each datum.  The number of
characters bounds the number of its rounds, whatever the data are.
-/

namespace ObjectLisp.Reader

variable {table : ReadTable} {package : PackageId} {file : String} {state later : State}
  {c : Char} {ahead : Option Char} {text left rest : List Char}

/-! ## Nesting -/

/-- Is a reader macro at work in this mode that waits for no datum? -/
def Mode.inMacro : Mode → Bool
  | between _ | token .. => false
  | string .. | escape .. | lineComment | blockComment .. | dispatch _ => true

/-- Number of reader macros that are at work. -/
def State.nesting (state : State) : Nat :=
  state.pending.length + state.mode.inMacro.toNat

theorem State.length_pending_le_nesting (state : State) : state.pending.length ≤ state.nesting :=
  Nat.le_add_right _ _

/-- A datum that is delivered opens nothing. -/
theorem nesting_of_deliver {line : Nat} {symbols : SymbolStore} {datum : Datum}
    {pending : List Pending} (went : deliver line symbols datum pending = .next later) :
    later.nesting ≤ pending.length := by
  induction pending generalizing symbols datum with
  | nil => cases went
  | cons form outer deliverOuter =>
      cases form with
      | list => cases went; exact Nat.le_refl _
      | tail => cases went; exact Nat.le_refl _
      | closing => cases went
      | vector => cases went; exact Nat.le_refl _
      | wrap head start => exact Nat.le_succ_of_le (deliverOuter went)

theorem nesting_of_continueToken {start line : Nat} {taken : List Char}
    (went : continueToken table package state start taken line ahead = .next later) :
    later.nesting ≤ state.pending.length := by
  unfold continueToken at went
  split at went
  · split at went
    · exact nesting_of_deliver went
    · cases went
  · cases went
    exact Nat.le_refl _

/-- A macro opens one level, also where it takes the place of a dispatch. -/
theorem nesting_of_startMacro {line : Nat} {reader : ReaderMacro}
    (went : startMacro state line c reader = .next later) :
    later.nesting ≤ state.pending.length + 1 := by
  cases reader <;> cases went <;> exact Nat.le_refl _

theorem length_of_close? {pending outer : List Pending} {datum : Datum}
    (closed : close? c pending = some (datum, outer)) : outer.length < pending.length := by
  unfold close? at closed
  repeat' split at closed
  all_goals cases closed
  all_goals exact Nat.lt_succ_self _

theorem nesting_of_element (went : element table package state c ahead = .next later) :
    later.nesting ≤ state.pending.length + 1 := by
  unfold element at went
  split at went
  · next closed =>
      have inner := nesting_of_deliver went
      have closes := length_of_close? closed
      omega
  · unfold start at went
    dsimp only at went
    split at went
    · exact nesting_of_startMacro went
    · exact nesting_of_startMacro went
    · cases went
    · exact Nat.le_succ_of_le (nesting_of_continueToken went)

theorem nesting_of_between {boundary : Boundary} (mode : state.mode = .between boundary)
    (went : between table package state boundary c ahead = .next later) :
    later.nesting ≤ state.pending.length + 1 := by
  unfold between at went
  split at went
  · next form line outer pending =>
      split at went
      · cases went
        simp [State.nesting, Mode.inMacro, pending]
      · split at went
        · cases went
          exact Nat.le_succ _
        · exact nesting_of_element went
  · next line items outer pending =>
      split at went
      · cases went
        simp [State.nesting, Mode.inMacro, mode]
      · split at went
        · split at went
          · cases went
          · cases went
            simp [State.nesting, Mode.inMacro, pending]
        · exact nesting_of_element went
  · split at went
    · cases went
      simp [State.nesting, Mode.inMacro, mode]
    · exact nesting_of_element went

/-- A character opens at most one reader macro. -/
theorem nesting_of_step (went : step table package state c ahead = .next later) :
    later.nesting ≤ state.nesting + 1 := by
  have open_ := state.length_pending_le_nesting
  unfold step at went
  dsimp only at went
  split at went
  · next mode => exact Nat.le_trans (nesting_of_between mode went) (Nat.succ_le_succ open_)
  · exact Nat.le_succ_of_le (Nat.le_trans (nesting_of_continueToken went) open_)
  · split at went
    · exact Nat.le_succ_of_le (Nat.le_trans (nesting_of_deliver went) open_)
    · split at went <;> cases went <;> exact Nat.succ_le_succ open_
  · split at went <;> cases went
    exact Nat.succ_le_succ open_
  · split at went <;> cases went
    · exact Nat.le_succ_of_le open_
    · next mode _ => simp [State.nesting, Mode.inMacro, mode]
  · split at went <;> cases went
    · exact Nat.le_succ_of_le open_
    · exact Nat.succ_le_succ open_
  · split at went
    · exact Nat.le_trans (nesting_of_startMacro went) (Nat.succ_le_succ open_)
    · cases went

/-! ## The way of the reader through a text -/

/-- The reader comes from one state and text to another state with the rest of that text, taking
the characters between them one by one. -/
inductive Advances (table : ReadTable) (package : PackageId) :
    State → List Char → State → List Char → Prop where
  | refl (state : State) (text : List Char) : Advances table package state text state text
  | step {state middle later : State} {c : Char} {text rest : List Char}
      (went : step table package state c text.head? = .next middle)
      (others : Advances table package middle text later rest) :
      Advances table package state (c :: text) later rest

/-- What the reader does where it stands ends the reading with an outcome. -/
inductive Ends (table : ReadTable) (package : PackageId) (state : State) :
    List Char → Outcome → Prop where
  | text : Ends table package state [] (atEnd state)
  | datum {c : Char} {rest : List Char} {datum : Datum} {line : Nat} {symbols : SymbolStore}
      (found : step table package state c rest.head? = .datum datum line symbols) :
      Ends table package state (c :: rest) (.datum datum rest line symbols)
  | failed {c : Char} {rest : List Char} {problem : SyntaxProblem} {line : Nat}
      {symbols : SymbolStore}
      (found : step table package state c rest.head? = .failed problem line symbols) :
      Ends table package state (c :: rest) (.failed problem line symbols)

namespace Advances

theorem exists_taken (advances : Advances table package state text later rest) :
    ∃ taken, text = taken ++ rest := by
  induction advances with
  | refl => exact ⟨[], rfl⟩
  | @step state middle later c text rest went others ih =>
      obtain ⟨taken, rfl⟩ := ih
      exact ⟨c :: taken, rfl⟩

/-- Macros are opened by characters that are then taken. -/
theorem nesting_le (advances : Advances table package state text later rest) :
    later.nesting + rest.length ≤ state.nesting + text.length := by
  induction advances with
  | refl => exact Nat.le_refl _
  | step went others ih =>
      have opened := nesting_of_step went
      rw [List.length_cons]
      omega

end Advances

/-- From every state the reader comes to where it ends. -/
theorem exists_ends (table : ReadTable) (package : PackageId) (state : State)
    (text : List Char) :
    ∃ last left, Advances table package state text last left ∧
      Ends table package last left (run table package state text) := by
  induction text generalizing state with
  | nil => exact ⟨state, [], .refl state [], .text⟩
  | cons c rest endsLater =>
      rw [run]
      cases found : step table package state c rest.head? with
      | next middle =>
          obtain ⟨last, left, advances, ends⟩ := endsLater middle
          exact ⟨last, left, .step found advances, ends⟩
      | datum datum line symbols => exact ⟨state, c :: rest, .refl _ _, .datum found⟩
      | failed problem line symbols => exact ⟨state, c :: rest, .refl _ _, .failed found⟩

/-- The datum ends with a character that was not taken before. -/
theorem exists_taken_of_datum {datum : Datum} {line : Nat} {symbols : SymbolStore}
    (read : run table package state text = .datum datum rest line symbols) :
    ∃ taken, taken ≠ [] ∧ text = taken ++ rest := by
  obtain ⟨last, left, advances, ends⟩ := exists_ends table package state text
  obtain ⟨taken, rfl⟩ := advances.exists_taken
  rw [read] at ends
  generalize outcome : Outcome.datum datum rest line symbols = given at ends
  cases ends with
  | text => exact absurd outcome.symm atEnd_ne_datum
  | @datum c =>
      cases outcome
      exact ⟨taken ++ [c], by simp, by simp⟩
  | failed => cases outcome

theorem advances_of_finished {line : Nat} {symbols : SymbolStore}
    (read : run table package state text = .finished line symbols) :
    ∃ last, Advances table package state text last [] ∧ atEnd last = .finished line symbols := by
  obtain ⟨last, left, advances, ends⟩ := exists_ends table package state text
  rw [read] at ends
  generalize outcome : Outcome.finished line symbols = given at ends ⊢
  cases ends with
  | text => exact ⟨last, advances, rfl⟩
  | datum => cases outcome
  | failed => cases outcome

/-! ## The loop over the data of a text -/

/-- Reading on behind each datum gives this reading, for as long as it takes. -/
inductive ReadsAll (table : ReadTable) (package : PackageId) (file : String) :
    SymbolStore → (line : Nat) → List Char → Reading → Prop where
  | finished {symbols after : SymbolStore} {line last : Nat} {text : List Char}
      (ended : next table package symbols line text = .finished last after) :
      ReadsAll table package file symbols line text ⟨[], none, after⟩
  | failed {symbols after : SymbolStore} {line last : Nat} {text : List Char}
      {problem : SyntaxProblem}
      (ended : next table package symbols line text = .failed problem last after) :
      ReadsAll table package file symbols line text (.failed file problem last after)
  | datum {symbols after : SymbolStore} {line last : Nat} {text rest : List Char}
      {datum : Datum} {reading : Reading}
      (found : next table package symbols line text = .datum datum rest last after)
      (others : ReadsAll table package file after last rest reading) :
      ReadsAll table package file symbols line text (reading.withFirst datum last)

namespace ReadsAll

variable {symbols : SymbolStore} {line : Nat} {reading other : Reading}

/-- Each round takes a character, so there are at most as many data as characters. -/
theorem length_le (reads : ReadsAll table package file symbols line text reading) :
    reading.data.length ≤ text.length := by
  induction reads with
  | finished => exact Nat.zero_le _
  | failed => exact Nat.zero_le _
  | @datum symbols after line last text rest datum reading found others ih =>
      obtain ⟨taken, nonempty, rfl⟩ := exists_taken_of_datum found
      have positive := List.length_pos_iff.mpr nonempty
      rw [List.length_append]
      change reading.data.length + 1 ≤ _
      omega

theorem unique (reads : ReadsAll table package file symbols line text reading)
    (others : ReadsAll table package file symbols line text other) : other = reading := by
  induction reads generalizing other with
  | finished ended =>
      cases others with
      | finished ended' => rw [ended] at ended'; cases ended'; rfl
      | failed ended' => rw [ended] at ended'; cases ended'
      | datum found => rw [ended] at found; cases found
  | failed ended =>
      cases others with
      | finished ended' => rw [ended] at ended'; cases ended'
      | failed ended' => rw [ended] at ended'; cases ended'; rfl
      | datum found => rw [ended] at found; cases found
  | datum found _ ih =>
      cases others with
      | finished ended => rw [found] at ended; cases ended
      | failed ended => rw [found] at ended; cases ended
      | datum found' others' =>
          rw [found] at found'
          cases found'
          rw [ih others']

end ReadsAll

/-- A bound above the number of characters cuts no loop off. -/
theorem readsAll_readAtMost {bound : Nat} (symbols : SymbolStore) (line : Nat)
    (enough : text.length < bound) :
    ReadsAll table package file symbols line text
      (readAtMost table package file bound symbols line text) := by
  induction bound generalizing symbols line text with
  | zero => exact absurd enough (Nat.not_lt_zero _)
  | succ bound readsLater =>
      rw [readAtMost]
      cases found : next table package symbols line text with
      | finished last after => exact .finished found
      | failed problem last after => exact .failed found
      | datum datum rest last after =>
          obtain ⟨taken, nonempty, rfl⟩ := exists_taken_of_datum found
          have positive := List.length_pos_iff.mpr nonempty
          rw [List.length_append] at enough
          exact .datum found (readsLater after last (by omega))

/-- Lists begin with `<`, a parenthesis is a blank that would be a list, dispatches can follow each
other, and `!` is a macro character without a macro. -/
private def edited : ReadTable :=
  ((((ReadTable.standard.setMacro '<' (some .list) true).setClass '(' .whitespace).setDispatch
    '#' '#' (some .dispatch)).setDispatch '#' '\'' (some .quote)).setClass '!' .terminating

end ObjectLisp.Reader
