import ObjectLisp.Proofs.Reading.RoundTrip

/-!
# Comments between data

A comment separates data as blanks do.  Whether a place of a text stands between
data can be told from the characters before it, without building data: the places
of a text are followed here by a small automaton of their own, and the reader is
shown to agree with it as long as it finds nothing wrong.

At such a place a comment and blanks with as many line breaks lead the reader to
states that differ only in what the gap follows.  The reader looks at that for one
thing: a dot that stands alone starts the tail of a list behind an element and
behind the opening parenthesis, but not behind a comment.
-/

namespace ObjectLisp.Reader

variable {package : PackageId} {file : String} {state later : State} {c : Char}
  {ahead other : Option Char}

/-! ## Reading a whole text in one pass -/

/-- The reading that ends with a problem. -/
def Reading.failed (file : String) (problem : SyntaxProblem) (line : Nat)
    (symbols : SymbolStore) : Reading :=
  ⟨[], some ⟨⟨file, line⟩, problem⟩, symbols⟩

/-- The reading with one more datum in front. -/
def Reading.withFirst (datum : Datum) (line : Nat) (reading : Reading) : Reading :=
  { reading with data := ⟨datum, line⟩ :: reading.data }

/-- Read all data of a text from a state on. -/
def readOn (table : ReadTable) (package : PackageId) (file : String) :
    State → List Char → Reading
  | state, [] =>
      match atEnd state with
      | .datum _ _ _ symbols | .finished _ symbols => ⟨[], none, symbols⟩
      | .failed problem line symbols => .failed file problem line symbols
  | state, c :: rest =>
      match step table package state c rest.head? with
      | .next state => readOn table package file state rest
      | .datum datum line symbols =>
          .withFirst datum line (readOn table package file { line, symbols } rest)
      | .failed problem line symbols => .failed file problem line symbols

/-- Read all further data after the outcome of the first one. -/
def readRest (table : ReadTable) (package : PackageId) (file : String) (bound : Nat) :
    Outcome → Reading
  | .datum datum rest line symbols =>
      .withFirst datum line (readAtMost table package file bound symbols line rest)
  | .finished _ symbols => ⟨[], none, symbols⟩
  | .failed problem line symbols => .failed file problem line symbols

theorem readAtMost_succ (table : ReadTable) (bound : Nat) (symbols : SymbolStore) (line : Nat)
    (text : List Char) : readAtMost table package file (bound + 1) symbols line text =
      readRest table package file bound (run table package { line, symbols } text) := by
  rw [readAtMost, next]
  split <;> next outcome => rw [outcome]; rfl

theorem atEnd_ne_datum {datum : Datum} {rest : List Char} {line : Nat} {symbols : SymbolStore} :
    atEnd state ≠ .datum datum rest line symbols := by
  unfold atEnd
  split <;> nofun

/-- A bound that the text cannot exceed does not matter. -/
theorem readRest_run (table : ReadTable) {bound : Nat} (state : State) {text : List Char}
    (short : text.length ≤ bound) :
    readRest table package file bound (run table package state text) =
      readOn table package file state text := by
  induction text generalizing state bound with
  | nil =>
      rw [run, readOn]
      cases ended : atEnd state with
      | datum => exact absurd ended atEnd_ne_datum
      | finished => rfl
      | failed => rfl
  | cons c rest readTail =>
      have shorter : rest.length < bound := short
      rw [run, readOn]
      cases step table package state c rest.head? with
      | next state => exact readTail state (Nat.le_of_lt shorter)
      | datum datum line symbols =>
          obtain ⟨bound, rfl⟩ := Nat.exists_eq_add_one_of_ne_zero (Nat.ne_zero_of_lt shorter)
          dsimp only
          rw [readRest, readAtMost_succ, readTail _ (Nat.le_of_lt_succ shorter)]
      | failed => rfl

theorem readAll_eq_readOn (table : ReadTable) (symbols : SymbolStore) (text : List Char) :
    readAll table package file symbols (String.ofList text) =
      readOn table package file { line := 1, symbols } text := by
  simp only [readAll, String.toList_ofList]
  rw [readAtMost_succ, readRest_run table _ (Nat.le_refl _)]

/-! ## Places in a text -/

/-- Inside what a place of a text stands. -/
inductive Place where
  | gap
  /-- Behind a comma, which a `@` may extend. -/
  | comma
  | token
  | string
  /-- In a string behind a backslash. -/
  | escape
  | lineComment
  | blockComment (depth : Nat) (mark : Mark)
  /-- Behind a `#` that is not part of a token. -/
  | hash
deriving Repr, DecidableEq

namespace Place

/-- The place behind a character that does not continue anything. -/
def opened (c : Char) : Place :=
  match c with
  | '"' => string
  | ';' => lineComment
  | '#' => hash
  | ',' => comma
  | _ => if ReadTable.standard.isDelimiter c then gap else token

/-- The place behind one more character. -/
def next : Place → Char → Place
  | gap, c => opened c
  | comma, c => if c = '@' then gap else opened c
  | token, c => if ReadTable.standard.isDelimiter c then opened c else token
  | string, c => if c = '"' then gap else if c = '\\' then escape else string
  | escape, _ => string
  | lineComment, c => if c = '\n' then gap else lineComment
  | blockComment depth mark, c =>
      match blockStep depth mark c with
      | (0, _) => gap
      | (depth, mark) => blockComment depth mark
  | hash, c => if c = '|' then blockComment 1 .none else token

/-- The place at the end of a text. -/
def ofText (text : List Char) : Place := text.foldl next gap

/-- Does something new start at the place if this character follows?  So it does between data, and
behind a token if the character ends it. -/
def isBoundary : Place → Char → Bool
  | gap, _ | comma, _ => true
  | token, c => ReadTable.standard.isDelimiter c
  | _, _ => false

/-- The reader stands at the place.  As it looks ahead, it has left a token that ends. -/
def Holds (place : Place) (ahead : Option Char) (state : State) : Prop :=
  match place with
  | gap => state.mode = .between .element ∨ state.mode = .between .comment
  | comma => state.mode = .between .comma ∧
      ∃ head line outer, state.pending = .wrap head line :: outer
  | token =>
      if endsToken .standard ahead then state.mode = .between .element
      else ∃ start taken, state.mode = .token start taken
  | string => ∃ taken, state.mode = .string '"' taken
  | escape => ∃ taken, state.mode = .escape '"' taken
  | lineComment => state.mode = .lineComment
  | blockComment depth mark => state.mode = .blockComment depth mark
  | hash => state.mode = .dispatch '#'

end Place

/-- The state that a step leads to; a finished datum is left behind. -/
def Step.later? : Step → Option State
  | .next state => some state
  | .datum _ line symbols => some { line, symbols }
  | .failed .. => none

/-- The state in which the reader stands behind a text, with what follows it in sight, unless it
fails before. -/
def stateAfter (package : PackageId) (state : State) (text : List Char) (ahead : Option Char) :
    Option State :=
  match text with
  | [] => some state
  | c :: rest =>
      (step .standard package state c (rest.head?.or ahead)).later?.bind
        (stateAfter package · rest ahead)

/-! ## The reader follows the places -/

theorem mode_of_deliver {line : Nat} {symbols : SymbolStore} {datum : Datum}
    {pending : List Pending} (delivered : (deliver line symbols datum pending).later? = some later) :
    later.mode = .between .element := by
  induction pending generalizing symbols datum with
  | nil =>
      cases delivered
      rfl
  | cons form outer deliverOuter =>
      cases form with
      | list => cases delivered; rfl
      | tail => cases delivered; rfl
      | closing => cases delivered
      | vector => cases delivered; rfl
      | wrap head start => exact deliverOuter delivered

namespace Place

theorem holds_token {start line : Nat} {taken : List Char}
    (went : (continueToken .standard package state start taken line ahead).later? = some later) :
    token.Holds ahead later := by
  unfold continueToken at went
  rw [Holds]
  split at went
  · next ends =>
      rw [if_pos ends]
      split at went
      · exact mode_of_deliver went
      · cases went
  · next goesOn =>
      rw [if_neg goesOn]
      cases went
      exact ⟨start, taken, rfl⟩

theorem opened_blank (blank : ReadTable.standard.isWhitespace c = true) : opened c = gap := by
  have listed : c = ' ' ∨ c = '\t' ∨ c = '\n' ∨ c = '\r' ∨ c = '\x0c' := by
    simpa [ReadTable.standard, ReadTable.standardMacros] using
      ReadTable.mem_classes (of_decide_eq_true blank) (by decide)
  rcases listed with rfl | rfl | rfl | rfl | rfl <;> rfl

theorem opened_constituent (here : ReadTable.standard.classOf c = .constituent) :
    opened c = token := by
  have inside := ReadTable.not_delimiter_of_constituent here
  unfold opened
  split
  all_goals first | cases here | simp [inside]

/-- A character that starts something leads to the place that it opens. -/
theorem holds_start (unblank : ReadTable.standard.isWhitespace c = false)
    (went : (start .standard package state c ahead).later? = some later) :
    (opened c).Holds ahead later := by
  cases here : ReadTable.standard.classOf c with
  | whitespace => simp [ReadTable.isWhitespace, here] at unblank
  | constituent =>
      rw [opened_constituent here]
      unfold start at went
      rw [here] at went
      exact holds_token went
  | nonterminating =>
      cases ReadTable.eq_hash_of_nonterminating here
      cases went
      rfl
  | terminating =>
      have listed : c = '(' ∨ c = ')' ∨ c = '[' ∨ c = ']' ∨ c = '"' ∨ c = '\'' ∨ c = '\x60' ∨
          c = ',' ∨ c = ';' := by
        simpa [ReadTable.standard, ReadTable.standardMacros] using
          ReadTable.mem_classes here (by decide)
      rcases listed with rfl | rfl | rfl | rfl | rfl | rfl | rfl | rfl | rfl
      · cases went; exact .inl rfl
      · cases went
      · cases went; exact .inl rfl
      · cases went
      · cases went; exact ⟨_, rfl⟩
      · cases went; exact .inl rfl
      · cases went; exact .inl rfl
      · cases went; exact ⟨rfl, _, _, _, rfl⟩
      · cases went; rfl

theorem holds_element (unblank : ReadTable.standard.isWhitespace c = false)
    (went : (element .standard package state c ahead).later? = some later) :
    (opened c).Holds ahead later := by
  unfold element at went
  split at went
  · next datum outer closes =>
      have bracket : c = ')' ∨ c = ']' := by
        unfold close? at closes
        split at closes <;> simp_all
      have isGap : opened c = gap := by
        rcases bracket with rfl | rfl <;> rfl
      rw [isGap]
      exact .inl (mode_of_deliver went)
  · exact holds_start unblank went

theorem holds_between {boundary : Boundary} (settled : boundary ≠ .comma)
    (mode : state.mode = .between boundary)
    (went : (between .standard package state boundary c ahead).later? = some later) :
    (opened c).Holds ahead later := by
  have stays : ∀ line, gap.Holds ahead { state with line } := by
    intro line
    cases boundary with
    | element => exact .inl mode
    | comment => exact .inr mode
    | comma => exact absurd rfl settled
  unfold between at went
  split at went
  · exact absurd rfl settled
  · split at went
    · next blank =>
        cases went
        rw [opened_blank blank]
        exact stays _
    · next unblank =>
        split at went
        · next alone =>
            obtain ⟨rfl, ends⟩ : c = '.' ∧ endsToken .standard ahead = true := by
              simpa using alone
            split at went
            · cases went
            · cases went
              change token.Holds ahead _
              rw [Holds, if_pos ends]
        · exact holds_element (by simpa using unblank) went
  · split at went
    · next blank =>
        cases went
        rw [opened_blank blank]
        exact stays _
    · next unblank => exact holds_element (by simpa using unblank) went

theorem holds_comma (stands : comma.Holds (some c) state)
    (went : (step .standard package state c ahead).later? = some later) :
    (comma.next c).Holds ahead later := by
  obtain ⟨mode, head, line, outer, pending⟩ := stands
  simp only [step, mode, between, pending] at went
  rw [next]
  split at went
  · next extended =>
      rw [if_pos extended]
      cases went
      exact .inl rfl
  · next unextended =>
      rw [if_neg unextended]
      split at went
      · next blank =>
          rw [opened_blank blank]
          cases went
          exact .inl rfl
      · next unblank => exact holds_element (by simpa using unblank) went

/-- One character leads the reader from place to place. -/
theorem holds_step {place : Place} (stands : place.Holds (some c) state)
    (went : (step .standard package state c ahead).later? = some later) :
    (place.next c).Holds ahead later := by
  cases place with
  | gap =>
      rcases stands with mode | mode
      · exact holds_between (by decide) mode (by simpa only [step, mode] using went)
      · exact holds_between (by decide) mode (by simpa only [step, mode] using went)
  | comma => exact holds_comma stands went
  | token =>
      rw [Holds] at stands
      rw [next]
      split at stands
      · next ends =>
          rw [if_pos (by exact ends)]
          exact holds_between (by decide) stands (by simpa only [step, stands] using went)
      · next goesOn =>
          rw [if_neg (by exact goesOn)]
          obtain ⟨start, taken, mode⟩ := stands
          simp only [step, mode] at went
          exact holds_token went
  | string =>
      obtain ⟨taken, mode⟩ := stands
      simp only [step, mode] at went
      rw [next]
      split at went
      · next closes =>
          rw [if_pos closes]
          exact .inl (mode_of_deliver went)
      · next inside =>
          rw [if_neg inside]
          split at went
          · next escaped => rw [if_pos escaped]; cases went; exact ⟨_, rfl⟩
          · next unescaped => rw [if_neg unescaped]; cases went; exact ⟨_, rfl⟩
  | escape =>
      obtain ⟨taken, mode⟩ := stands
      simp only [step, mode] at went
      split at went
      · cases went; exact ⟨_, rfl⟩
      · cases went
  | lineComment =>
      have mode : state.mode = .lineComment := stands
      simp only [step, mode] at went
      rw [next]
      split at went
      · next ends => rw [if_pos ends]; cases went; exact .inr rfl
      · next goesOn => rw [if_neg goesOn]; cases went; rfl
  | blockComment depth mark =>
      have mode : state.mode = .blockComment depth mark := stands
      simp only [step, mode] at went
      rw [next]
      generalize blockStep depth mark c = after at went ⊢
      obtain ⟨_ | depth, mark⟩ := after
      · cases went; exact .inr rfl
      · cases went; rfl
  | hash =>
      have mode : state.mode = .dispatch '#' := stands
      simp only [step, mode] at went
      rw [next]
      by_cases bar : c = '|'
      · subst bar
        cases went
        rfl
      · have missing : ReadTable.standard.dispatchOf? '#' c = none := by
          simp [ReadTable.dispatchOf?, ReadTable.standard, Assoc.find?, Assoc.findIn, Ne.symm bar]
        rw [missing] at went
        cases went

theorem element_ahead (unblank : ReadTable.standard.isWhitespace c = false)
    (notToken : opened c ≠ token) :
    element .standard package state c ahead = element .standard package state c other := by
  unfold element
  split
  · rfl
  · unfold start
    cases here : ReadTable.standard.classOf c with
    | whitespace => simp [ReadTable.isWhitespace, here] at unblank
    | constituent => exact absurd (opened_constituent here) notToken
    | nonterminating =>
        cases ReadTable.eq_hash_of_nonterminating here
        rfl
    | terminating => cases ReadTable.standard.macroOf? c <;> rfl

theorem between_ahead (boundary : Boundary) (notToken : opened c ≠ token) :
    between .standard package state boundary c ahead =
      between .standard package state boundary c other := by
  have undotted : c ≠ '.' := by
    rintro rfl
    exact notToken rfl
  by_cases blank : ReadTable.standard.isWhitespace c = true
  · unfold between
    simp only [blank, if_true]
  · have same : element .standard package state c ahead = element .standard package state c other :=
      element_ahead (by simpa using blank) notToken
    unfold between
    simp only [undotted, decide_false, Bool.false_and, Bool.false_eq_true, if_false, same]

/-- What follows a character matters only if it may go on a token. -/
theorem step_ahead {place : Place} (stands : place.Holds (some c) state)
    (same : place.next c = token → endsToken .standard ahead = endsToken .standard other) :
    step .standard package state c ahead = step .standard package state c other := by
  by_cases isToken : place.next c = token
  · have sameEnd := same isToken
    unfold step between element start continueToken
    simp only [sameEnd]
  · cases place with
    | gap =>
        rcases stands with mode | mode <;> simp only [step, mode] <;> exact between_ahead _ isToken
    | comma =>
        obtain ⟨mode, head, line, outer, pending⟩ := stands
        simp only [step, mode]
        by_cases extended : c = '@'
        · simp only [between, pending, extended, if_true]
        · rw [next, if_neg extended] at isToken
          exact between_ahead _ isToken
    | token =>
        rw [Holds] at stands
        rw [next] at isToken
        split at stands
        · next ends =>
            rw [if_pos (by exact ends)] at isToken
            simp only [step, stands]
            exact between_ahead _ isToken
        · next goesOn => exact absurd (if_neg (by exact goesOn)) isToken
    | string => obtain ⟨taken, mode⟩ := stands; simp only [step, mode]
    | escape => obtain ⟨taken, mode⟩ := stands; simp only [step, mode]
    | lineComment =>
        have mode : state.mode = .lineComment := stands
        simp only [step, mode]
    | blockComment depth mark =>
        have mode : state.mode = .blockComment depth mark := stands
        simp only [step, mode]
    | hash =>
        have mode : state.mode = .dispatch '#' := stands
        simp only [step, mode]

end Place

/-! ## What stands before the comment -/

/-- Two texts behind the same one are read alike if they are from the state behind it. -/
theorem readOn_append {place : Place} {before text text' : List Char}
    (stands : place.Holds (before ++ text).head? state)
    (sameEnd : before.foldl Place.next place = .token →
      endsToken .standard text.head? = endsToken .standard text'.head?)
    (alike : ∀ later, stateAfter package state before text.head? = some later →
      (before.foldl Place.next place).Holds text.head? later →
        readOn .standard package file later text = readOn .standard package file later text') :
    readOn .standard package file state (before ++ text) =
      readOn .standard package file state (before ++ text') := by
  induction before generalizing place state with
  | nil => exact alike state rfl stands
  | cons c rest readTail =>
      have sameStep : step .standard package state c (rest ++ text).head? =
          step .standard package state c (rest ++ text').head? := by
        apply Place.step_ahead stands
        intro isToken
        cases rest with
        | nil => exact sameEnd isToken
        | cons => rfl
      have goesOn : ∀ later,
          (step .standard package state c (rest ++ text).head?).later? = some later →
            readOn .standard package file later (rest ++ text) =
              readOn .standard package file later (rest ++ text') := by
        intro later went
        apply readTail (Place.holds_step stands went) sameEnd
        intro last reached
        apply alike
        rw [stateAfter, ← List.head?_append, went]
        exact reached
      rw [List.cons_append, List.cons_append, readOn, readOn, ← sameStep]
      cases stepped : step .standard package state c (rest ++ text).head? with
      | next later => exact goesOn later (by rw [stepped]; rfl)
      | datum datum line symbols =>
          dsimp only
          rw [goesOn _ (by rw [stepped]; rfl)]
      | failed => rfl

/-! ## Comments and blanks -/

/-- The text closes so many block comments that are open, the outermost one with its end. -/
inductive Closes : Nat → List Char → Prop where
  | last : Closes 1 ['|', '#']
  | close {depth : Nat} {text : List Char} (rest : Closes (depth + 1) text) :
      Closes (depth + 2) ('|' :: '#' :: text)
  | nest {depth : Nat} {text : List Char} (rest : Closes (depth + 2) text) :
      Closes (depth + 1) ('#' :: '|' :: text)
  | char {depth : Nat} {c : Char} {text : List Char}
      (plain : ∀ rest, c :: text ≠ '|' :: '#' :: rest ∧ c :: text ≠ '#' :: '|' :: rest)
      (rest : Closes (depth + 1) text) : Closes (depth + 1) (c :: text)

/-- The text is a comment if this follows.  The line break that ends a comment may be taken as
part of it or not. -/
inductive Comment : (comment after : List Char) → Prop where
  | line {body : List Char} (unbroken : '\n' ∉ body) (after : List Char) :
      Comment (';' :: body ++ ['\n']) after
  | restOfLine {body after : List Char} (unbroken : '\n' ∉ body)
      (ends : after.head? = none ∨ after.head? = some '\n') : Comment (';' :: body) after
  | block {body : List Char} (closes : Closes 1 body) (after : List Char) :
      Comment ('#' :: '|' :: body) after

/-- The line behind a text. -/
theorem advance_eq (line : Nat) (c : Char) (rest : List Char) :
    advance line c + rest.count '\n' = line + (c :: rest).count '\n' := by
  unfold advance
  by_cases breaks : c = '\n'
  · simp [breaks]; omega
  · simp [breaks]

/-- The state behind a comment, or behind blanks, that take so many lines. -/
def State.pass (state : State) (boundary : Boundary) (breaks : Nat) : State :=
  { state with mode := .between boundary, line := state.line + breaks }

theorem readOn_blockChar {depth depth' : Nat} {mark mark' : Mark} (rest : List Char)
    (mode : state.mode = .blockComment depth mark)
    (inside : blockStep depth mark c = (depth' + 1, mark')) :
    readOn .standard package file state (c :: rest) =
      readOn .standard package file
        { state with mode := .blockComment (depth' + 1) mark', line := advance state.line c }
        rest := by
  rw [readOn]
  simp only [step, mode, inside]

theorem readOn_blockEnd {depth : Nat} {mark mark' : Mark} (rest : List Char)
    (mode : state.mode = .blockComment depth mark) (ends : blockStep depth mark c = (0, mark')) :
    readOn .standard package file state (c :: rest) =
      readOn .standard package file
        { state with mode := .between .comment, line := advance state.line c } rest := by
  rw [readOn]
  simp only [step, mode, ends]

/-- A character that completes no bracket is remembered if it may start one. -/
theorem blockStep_char {depth : Nat} {mark : Mark} (barred : mark = .bar → c ≠ '#')
    (hashed : mark = .hash → c ≠ '|') :
    blockStep depth mark c = (depth, if c = '|' then .bar else if c = '#' then .hash else .none) := by
  unfold blockStep
  split
  · exact absurd rfl (barred rfl)
  · exact absurd rfl (hashed rfl)
  · rfl
  · rfl
  · grind

/-- A block comment is passed over up to where it closes.  The mark only reminds the reader of the
character before, which must not be the first half of a bracket that the text completes. -/
theorem readOn_block {depth : Nat} {mark : Mark} {text : List Char} (after : List Char)
    (closes : Closes depth text) (mode : state.mode = .blockComment depth mark)
    (barred : mark = .bar → text.head? ≠ some '#') (hashed : mark = .hash → text.head? ≠ some '|') :
    readOn .standard package file state (text ++ after) =
      readOn .standard package file (state.pass .comment (text.count '\n')) after := by
  induction closes generalizing state mark with
  | last =>
      have bar : blockStep 1 mark '|' = (1, .bar) :=
        blockStep_char (fun _ => by decide) (fun isHash => absurd rfl (hashed isHash))
      have ends : blockStep 1 .bar '#' = (0, .none) := rfl
      rw [List.cons_append, readOn_blockChar _ mode bar, List.cons_append,
        readOn_blockEnd _ rfl ends]
      rfl
  | @close depth text rest readRest =>
      have bar : blockStep (depth + 2) mark '|' = (depth + 1 + 1, .bar) :=
        blockStep_char (fun _ => by decide) (fun isHash => absurd rfl (hashed isHash))
      have closed : blockStep (depth + 1 + 1) .bar '#' = (depth + 1, .none) := rfl
      rw [List.cons_append, readOn_blockChar _ mode bar, List.cons_append,
        readOn_blockChar _ rfl closed]
      refine (readRest rfl ?_ ?_).trans ?_
      · nofun
      · nofun
      · simp [State.pass, advance]
  | @nest depth text rest readRest =>
      have hash : blockStep (depth + 1) mark '#' = (depth + 1, .hash) :=
        blockStep_char (fun isBar => absurd rfl (barred isBar)) (fun _ => by decide)
      have opened : blockStep (depth + 1) .hash '|' = (depth + 1 + 1, .none) := rfl
      rw [List.cons_append, readOn_blockChar _ mode hash, List.cons_append,
        readOn_blockChar _ rfl opened]
      refine (readRest rfl ?_ ?_).trans ?_
      · nofun
      · nofun
      · simp [State.pass, advance]
  | @char depth c text plain rest readRest =>
      have inside := @blockStep_char c (depth + 1) mark
        (fun isBar isHash => barred isBar (by rw [isHash]; rfl))
        (fun isHash isBar => hashed isHash (by rw [isBar]; rfl))
      rw [List.cons_append, readOn_blockChar _ mode inside]
      refine (readRest rfl ?_ ?_).trans ?_
      · intro bar starts
        obtain ⟨more, rfl⟩ := List.head?_eq_some_iff.mp starts
        have isBar : c = '|' := by grind
        exact (plain more).1 (by rw [isBar])
      · intro hash starts
        obtain ⟨more, rfl⟩ := List.head?_eq_some_iff.mp starts
        have isHash : c = '#' := by grind
        exact (plain more).2 (by rw [isHash])
      · simp [State.pass, advance_eq]

/-- A comment is passed over up to the end of its line. -/
theorem readOn_line {body : List Char} (unbroken : '\n' ∉ body) (after : List Char)
    (mode : state.mode = .lineComment) :
    readOn .standard package file state (body ++ after) =
      readOn .standard package file state after := by
  induction body generalizing state with
  | nil => rfl
  | cons c body readRest =>
      simp only [List.mem_cons, not_or] at unbroken
      have same : step .standard package state c (body ++ after).head? = .next state := by
        simp only [step, mode, advance, if_neg (Ne.symm unbroken.1)]
        rw [← mode]
      rw [List.cons_append, readOn, same]
      exact readRest unbroken.2 mode

/-- A line break that ends a comment could as well stand behind it. -/
theorem readOn_lineEnd {after : List Char}
    (ends : after.head? = none ∨ after.head? = some '\n') (mode : state.mode = .lineComment) :
    readOn .standard package file state after =
      readOn .standard package file (state.pass .comment 0) after := by
  obtain ⟨_, pending, line, symbols⟩ := state
  cases mode
  cases after with
  | nil => cases pending <;> rfl
  | cons c rest =>
      obtain rfl : c = '\n' := by simpa using ends
      cases pending with
      | nil => rfl
      | cons form outer => cases form <;> rfl

/-- Where something new can start, a comment starts. -/
theorem step_comment {boundary : Boundary} (mode : state.mode = .between boundary)
    (starts : c = ';' ∨ c = '#') :
    step .standard package state c ahead = start .standard package state c ahead := by
  have unblank : ReadTable.standard.isWhitespace c = false := by
    rcases starts with rfl | rfl <;> rfl
  have unclosed : close? c state.pending = none := by
    unfold close?
    rcases starts with rfl | rfl <;> split <;> rfl
  have odd : c ≠ '@' ∧ c ≠ '.' := by
    rcases starts with rfl | rfl <;> decide
  simp only [step, mode]
  unfold between
  split <;> simp [element, unblank, unclosed, odd]

/-- A comment between data is passed over. -/
theorem readOn_comment {comment after : List Char} {boundary : Boundary}
    (isComment : Comment comment after) (mode : state.mode = .between boundary) :
    readOn .standard package file state (comment ++ after) =
      readOn .standard package file (state.pass .comment (comment.count '\n')) after := by
  have semicolon : ∀ rest, readOn .standard package file state (';' :: rest) =
      readOn .standard package file { state with mode := .lineComment } rest := by
    intro rest
    rw [readOn, step_comment mode (.inl rfl)]
    rfl
  cases isComment with
  | @line body unbroken =>
      have none : body.count '\n' = 0 := List.count_eq_zero.mpr unbroken
      rw [List.cons_append, List.cons_append, semicolon, List.append_assoc,
        readOn_line unbroken _ rfl]
      simp [State.pass, none, readOn, step, advance]
  | @restOfLine body _ unbroken ends =>
      have none : body.count '\n' = 0 := List.count_eq_zero.mpr unbroken
      rw [List.cons_append, semicolon, readOn_line unbroken _ rfl, readOn_lineEnd ends rfl]
      simp [State.pass, none]
  | @block body closes =>
      have opened : ∀ rest, readOn .standard package file state ('#' :: '|' :: rest) =
          readOn .standard package file { state with mode := .blockComment 1 .none } rest := by
        intro rest
        rw [readOn, step_comment mode (.inr rfl)]
        rfl
      rw [List.cons_append, List.cons_append, opened]
      refine (readOn_block after closes rfl ?_ ?_).trans ?_
      · intro isBar
        cases isBar
      · intro isHash
        cases isHash
      · simp [State.pass]

/-! ## Blanks -/

/-- Blanks between data are passed over. -/
theorem readOn_blanks {blanks : List Char} {boundary : Boundary} (after : List Char)
    (blank : ∀ c ∈ blanks, ReadTable.standard.isWhitespace c = true) (settled : boundary ≠ .comma)
    (mode : state.mode = .between boundary) :
    readOn .standard package file state (blanks ++ after) =
      readOn .standard package file (state.pass boundary (blanks.count '\n')) after := by
  induction blanks generalizing state with
  | nil => simp [State.pass, ← mode]
  | cons c blanks readRest =>
      obtain ⟨first, others⟩ := List.forall_mem_cons.mp blank
      have stepped : step .standard package state c (blanks ++ after).head? =
          .next { state with line := advance state.line c } := by
        simp only [step, mode]
        unfold between
        split
        · exact absurd rfl settled
        · simp [first, mode]
        · simp [first, mode]
      rw [List.cons_append, readOn, stepped]
      have passed := @readRest { state with line := advance state.line c } others mode
      dsimp only
      rw [passed]
      simp [State.pass, advance_eq]

/-- What a gap follows once there are blanks in it: a `@` no longer extends the comma. -/
def Boundary.spaced : Boundary → Boundary
  | .element | .comma => .element
  | .comment => .comment

/-- The first blank settles what a gap follows. -/
theorem readOn_gap {blanks : List Char} {boundary : Boundary} (after : List Char)
    (blank : ∀ c ∈ blanks, ReadTable.standard.isWhitespace c = true) (some : blanks ≠ [])
    (mode : state.mode = .between boundary)
    (extended : boundary = .comma → ∃ head line outer, state.pending = .wrap head line :: outer) :
    readOn .standard package file state (blanks ++ after) =
      readOn .standard package file (state.pass boundary.spaced (blanks.count '\n')) after := by
  by_cases comma : boundary = .comma
  · subst comma
    obtain ⟨head, line, outer, pending⟩ := extended rfl
    cases blanks with
    | nil => exact absurd rfl some
    | cons c blanks =>
        obtain ⟨first, others⟩ := List.forall_mem_cons.mp blank
        have unextended : c ≠ '@' := by
          rintro rfl
          exact absurd first (by decide)
        have stepped : step .standard package state c (blanks ++ after).head? =
            .next { state with mode := .between .element, line := advance state.line c } := by
          simp [step, mode, between, pending, first, unextended]
        rw [List.cons_append, readOn, stepped]
        dsimp only
        rw [readOn_blanks after others (by decide) rfl]
        simp [State.pass, advance_eq, Boundary.spaced]
  · have same : boundary.spaced = boundary := by
      cases boundary with
      | comma => exact absurd rfl comma
      | _ => rfl
    rw [same]
    exact readOn_blanks after blank comma mode

/-! ## What follows the comment -/

/-- Does a dot follow, behind blanks at most, that stands alone? -/
def dotFollows (text : List Char) : Bool :=
  match text.dropWhile ReadTable.standard.isWhitespace with
  | '.' :: rest => endsToken .standard rest.head?
  | _ => false

/-- Does the reader stand in a list, behind an element or the opening parenthesis?  A dot would
start the tail of the list there. -/
def State.awaitsTail (state : State) : Bool :=
  match state.mode, state.pending with
  | .between .element, .list _ _ :: _ => true
  | _, _ => false

/-- The mode between data is forgotten by whatever starts there. -/
theorem element_pass (breaks : Nat) (boundary boundary' : Boundary) :
    element .standard package (state.pass boundary breaks) c ahead =
      element .standard package (state.pass boundary' breaks) c ahead := by
  unfold element start startMacro continueToken
  rfl

/-- What a gap follows matters only to a dot in a list. -/
theorem step_pass (breaks : Nat) (unblank : ReadTable.standard.isWhitespace c = false)
    (undotted : (state.pass .element 0).awaitsTail = true →
      (c = '.' && endsToken .standard ahead) = false) :
    step .standard package (state.pass .element breaks) c ahead =
      step .standard package (state.pass .comment breaks) c ahead := by
  have alike : element .standard package (state.pass .element breaks) c ahead =
      element .standard package (state.pass .comment breaks) c ahead := element_pass breaks _ _
  have behindComment : step .standard package (state.pass .comment breaks) c ahead =
      element .standard package (state.pass .comment breaks) c ahead := by
    simp [step, State.pass, between, unblank]
  rw [behindComment, ← alike]
  cases pending : state.pending with
  | nil => simp [step, State.pass, between, unblank, pending]
  | cons form outer =>
      cases form with
      | list line items =>
          have notTail := undotted (by simp [State.pass, State.awaitsTail, pending])
          simp [step, State.pass, between, unblank, pending, notTail]
      | _ => simp [step, State.pass, between, unblank, pending]

theorem readOn_pass {after : List Char} (breaks : Nat)
    (undotted : (state.pass .element 0).awaitsTail = true → dotFollows after = false) :
    readOn .standard package file (state.pass .element breaks) after =
      readOn .standard package file (state.pass .comment breaks) after := by
  generalize blanksAre : after.takeWhile ReadTable.standard.isWhitespace = blanks
  generalize restIs : after.dropWhile ReadTable.standard.isWhitespace = rest
  have split : after = blanks ++ rest := by
    rw [← blanksAre, ← restIs, List.takeWhile_append_dropWhile]
  have blank : ∀ c ∈ blanks, ReadTable.standard.isWhitespace c = true := by
    rw [← blanksAre]
    exact List.all_eq_true.mp List.all_takeWhile
  have skipped : ∀ boundary : Boundary, boundary ≠ .comma →
      readOn .standard package file (state.pass boundary breaks) after =
        readOn .standard package file (state.pass boundary (breaks + blanks.count '\n')) rest := by
    intro boundary settled
    rw [split, readOn_blanks rest blank settled rfl]
    simp [State.pass, Nat.add_assoc]
  rw [skipped .element (by decide), skipped .comment (by decide)]
  cases rest with
  | nil => cases pending : state.pending <;> simp [readOn, atEnd, State.pass, pending]
  | cons c rest =>
      have unblank : ReadTable.standard.isWhitespace c = false := by
        have notBlank := List.head?_dropWhile_not ReadTable.standard.isWhitespace after
        rw [restIs] at notBlank
        exact notBlank
      rw [readOn, readOn, step_pass _ unblank]
      intro awaits
      have alone := undotted awaits
      rw [dotFollows, restIs] at alone
      by_cases dotted : c = '.'
      · subst dotted
        simpa using alone
      · simp [dotted]

/-! ## Comments are blank -/

/-- Does something new start where the first text ends and the second one begins? -/
def meetsBoundary (before : List Char) : List Char → Bool
  | [] => false
  | c :: _ => (Place.ofText before).isBoundary c

/-- At a boundary the reader stands between data. -/
theorem between_of_isBoundary {place : Place} (boundary : place.isBoundary c = true)
    (stands : place.Holds (some c) state) :
    ∃ boundary, state.mode = .between boundary ∧
      (boundary = .comma → ∃ head line outer, state.pending = .wrap head line :: outer) := by
  cases place with
  | gap =>
      rcases stands with mode | mode
      · exact ⟨.element, mode, nofun⟩
      · exact ⟨.comment, mode, nofun⟩
  | comma => exact ⟨.comma, stands.1, fun _ => stands.2⟩
  | token =>
      rw [Place.Holds, if_pos (by exact boundary)] at stands
      exact ⟨.element, stands, nofun⟩
  | _ => cases boundary

/-- From a state between data a comment and blanks are read alike. -/
theorem readOn_comment_eq_blanks {comment blanks after : List Char} {boundary : Boundary}
    (isComment : Comment comment after)
    (blank : ∀ c ∈ blanks, ReadTable.standard.isWhitespace c = true) (nonempty : blanks ≠ [])
    (sameBreaks : blanks.count '\n' = comment.count '\n')
    (mode : state.mode = .between boundary)
    (extended : boundary = .comma → ∃ head line outer, state.pending = .wrap head line :: outer)
    (undotted : state.awaitsTail = true → dotFollows after = false) :
    readOn .standard package file state (comment ++ after) =
      readOn .standard package file state (blanks ++ after) := by
  rw [readOn_comment isComment mode, readOn_gap after blank nonempty mode extended, sameBreaks]
  cases boundary with
  | comment => rfl
  | element =>
      symm
      apply readOn_pass
      intro awaits
      apply undotted
      simpa [State.awaitsTail, State.pass, mode] using awaits
  | comma =>
      symm
      apply readOn_pass
      intro awaits
      obtain ⟨head, line, outer, pending⟩ := extended rfl
      simp [State.awaitsTail, State.pass, pending] at awaits

/-- Reading does not tell a comment between data from blanks.  Wherever something new can start
in a text, a comment may be replaced by one or more blanks with as many line breaks: the same
data are read, on the same lines and with the same symbols, or the same problem is met.  The only
exception is a dot that stands alone, behind blanks at most, where the reader stands in a list
behind an element or the opening parenthesis. -/
theorem comments_are_blank {before comment blanks after : List Char} (symbols : SymbolStore)
    (boundary : meetsBoundary before comment = true) (isComment : Comment comment after)
    (blank : ∀ c ∈ blanks, ReadTable.standard.isWhitespace c = true) (nonempty : blanks ≠ [])
    (sameBreaks : blanks.count '\n' = comment.count '\n')
    (undotted : ∀ state,
      stateAfter package { line := 1, symbols } before comment.head? = some state →
        state.awaitsTail = true → dotFollows after = false) :
    readAll .standard package file symbols (String.ofList (before ++ comment ++ after)) =
      readAll .standard package file symbols (String.ofList (before ++ blanks ++ after)) := by
  obtain ⟨first, rest, rfl⟩ : ∃ first rest, comment = first :: rest := by
    cases comment with
    | nil => cases boundary
    | cons first rest => exact ⟨first, rest, rfl⟩
  rw [readAll_eq_readOn, readAll_eq_readOn, List.append_assoc, List.append_assoc]
  have start : ∀ ahead, Place.gap.Holds ahead { line := 1, symbols } := fun _ => .inl rfl
  apply readOn_append (start _)
  · intro isToken
    have ends : ReadTable.standard.isDelimiter first = true := by
      rw [meetsBoundary, Place.ofText, isToken] at boundary
      exact boundary
    obtain ⟨space, others, rfl⟩ := List.exists_cons_of_ne_nil nonempty
    have isBlank := blank space List.mem_cons_self
    have alsoEnds : ReadTable.standard.isDelimiter space = true := by
      rw [ReadTable.isDelimiter, of_decide_eq_true isBlank]
    exact ends.trans alsoEnds.symm
  · intro state reached stands
    obtain ⟨kind, mode, extended⟩ := between_of_isBoundary boundary stands
    exact readOn_comment_eq_blanks isComment blank nonempty sameBreaks mode extended
      (undotted state reached)

/-- The comment stands between a comma and the `@` that it keeps from extending it. -/
theorem comments_are_blank_behind_comma :
    meetsBoundary ['(', 'f', ' ', ','] ['#', '|', '\n', '|', '#'] = true ∧
      readAll .standard PackageId.user "notes" .initial
          (String.ofList (['(', 'f', ' ', ','] ++ ['#', '|', '\n', '|', '#'] ++
            ['@', 'x', ' ', '.', ' ', 'y', ')'])) =
        readAll .standard PackageId.user "notes" .initial
          (String.ofList (['(', 'f', ' ', ','] ++ [' ', '\n'] ++
            ['@', 'x', ' ', '.', ' ', 'y', ')'])) := by
  have boundary : meetsBoundary ['(', 'f', ' ', ','] ['#', '|', '\n', '|', '#'] = true := rfl
  have isComment : Comment ['#', '|', '\n', '|', '#'] ['@', 'x', ' ', '.', ' ', 'y', ')'] :=
    .block (.char (by simp) .last) _
  have blank : ∀ c ∈ [' ', '\n'], ReadTable.standard.isWhitespace c = true := by
    simp only [List.forall_mem_cons]
    exact ⟨rfl, rfl, nofun⟩
  exact ⟨boundary, comments_are_blank .initial boundary isComment blank (by simp) rfl
    fun _ _ _ => rfl⟩

/-- Behind a comment a dot is an element of the list, behind blanks it starts the tail. -/
theorem dot_behind_comment :
    meetsBoundary ['(', 'a', ' '] [';', 'c', '\n'] = true ∧
      Comment [';', 'c', '\n'] ['.', ' ', 'b', ')'] ∧
      (readAll .standard PackageId.user "notes" .initial
          (String.ofList (['(', 'a', ' '] ++ [';', 'c', '\n'] ++ ['.', ' ', 'b', ')']))).data =
        [⟨.list (some 1) [.symbol 0, .symbol 1, .symbol 2], 2⟩] ∧
      (readAll .standard PackageId.user "notes" .initial
          (String.ofList (['(', 'a', ' '] ++ [' ', '\n'] ++ ['.', ' ', 'b', ')']))).data =
        [⟨.cons (some 1) (.symbol 0) (.symbol 1), 2⟩] := by
  have isComment : Comment [';', 'c', '\n'] ['.', ' ', 'b', ')'] :=
    @Comment.line ['c'] (by decide) _
  exact ⟨rfl, isComment, rfl, rfl⟩

end ObjectLisp.Reader
