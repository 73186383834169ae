import ObjectLisp.Proofs.Reading.Comments

/-!
# Reading one text after another

A text that can be read is read the same way when more text follows on a new line,
and what follows is read as if it stood alone.  Three facts carry this.  The reader
looks at most one character ahead, and the end of the text and a line break look
alike to it.  Where a text that can be read has ended, the reader is back between
data with nothing open, so a line break leads it to where it would start afresh.
And lines are only counted: a reading that starts on a later line is the same
reading with all its lines moved.
-/

namespace ObjectLisp

/-! ## Data on later lines -/

namespace Datum

mutual

/-- The datum as it is read so many lines further down. -/
def shifted (lines : Nat) : Datum → Datum
  | cons line car cdr => cons (line.map (· + lines)) (car.shifted lines) (cdr.shifted lines)
  | vec line items => vec (line.map (· + lines)) (shiftedAll lines items)
  | null => null
  | int value => int value
  | float value => float value
  | str text => str text
  | symbol id => symbol id

/-- Several data as they are read so many lines further down. -/
def shiftedAll (lines : Nat) : List Datum → List Datum
  | [] => []
  | item :: items => item.shifted lines :: shiftedAll lines items

end

variable (lines : Nat)

theorem shiftedAll_eq (items : List Datum) :
    shiftedAll lines items = items.map (shifted lines) := by
  induction items with
  | nil => rfl
  | cons item items mapRest => rw [shiftedAll, mapRest, List.map_cons]

theorem shifted_vec (line : Option Nat) (items : List Datum) :
    (vec line items).shifted lines =
      vec (line.map (· + lines)) (items.map (shifted lines)) := by
  rw [shifted, shiftedAll_eq]

theorem shifted_chain (line : Option Nat) (items : List Datum) (tail : Datum) :
    (chain line items tail).shifted lines =
      chain (line.map (· + lines)) (items.map (shifted lines)) (tail.shifted lines) := by
  induction items generalizing line with
  | nil => rfl
  | cons item items chainRest => rw [chain, shifted, chainRest, List.map_cons, chain]; rfl

theorem shifted_list (line : Option Nat) (items : List Datum) :
    (list line items).shifted lines =
      list (line.map (· + lines)) (items.map (shifted lines)) :=
  shifted_chain lines line items null

mutual

/-- Moving a datum changes nothing but its lines. -/
theorem unlocated_shifted : (datum : Datum) → (datum.shifted lines).unlocated = datum.unlocated
  | cons _ car cdr => by
      rw [shifted, unlocated, unlocated, unlocated_shifted car, unlocated_shifted cdr]
  | vec _ items => by
      rw [shifted, unlocated, unlocated, unlocatedAll_shiftedAll items]
  | null | int _ | float _ | str _ | symbol _ => rfl

theorem unlocatedAll_shiftedAll : (items : List Datum) →
    unlocatedAll (shiftedAll lines items) = unlocatedAll items
  | [] => rfl
  | item :: items => by
      rw [shiftedAll, unlocatedAll, unlocatedAll, unlocated_shifted item,
        unlocatedAll_shiftedAll items]

end

end Datum

/-! ## Tokens on later lines -/

namespace Token

variable (lines : Nat) (package : PackageId)

/-- A symbol has no lines. -/
theorem map_shifted_symbol (token : List Char) :
    Datum.shifted lines <$> symbol package token = symbol package token := by
  funext symbols
  change EStateM.map _ _ _ = _
  unfold EStateM.map symbol
  cases keywordName? token with
  | some name => rfl
  | none =>
      dsimp only
      unfold intern
      cases symbols.intern (String.ofList token) package <;> rfl

theorem accessMembers_shifted (line : Nat) (datum : Datum) (members : List (List Char)) :
    accessMembers package (line + lines) (datum.shifted lines) members =
      Datum.shifted lines <$> accessMembers package line datum members := by
  induction members generalizing datum with
  | nil => rfl
  | cons member members accessRest =>
      rw [accessMembers, accessMembers, map_bind, ← map_shifted_symbol lines package,
        bind_map_left, map_shifted_symbol]
      congr
      funext accessor
      rw [← accessRest, Datum.shifted_list]
      rfl

theorem map_shifted_memberRoot (part : List Char) :
    Datum.shifted lines <$> memberRoot package part = memberRoot package part := by
  unfold memberRoot
  split
  · rfl
  · exact map_shifted_symbol lines package part

/-- A token further down is the same token, and only an access to a member has lines. -/
theorem read_shifted (line : Nat) (token : List Char) :
    read package (line + lines) token = Datum.shifted lines <$> read package line token := by
  unfold read
  split
  · rfl
  · split
    · rfl
    · split
      · next part members _ =>
          rw [map_bind, ← map_shifted_memberRoot lines package, bind_map_left,
            map_shifted_memberRoot]
          congr
          funext root
          exact accessMembers_shifted lines package line root members
      · exact (map_shifted_symbol lines package token).symm

end Token

namespace Reader

variable {table : ReadTable} {package : PackageId} {file : String} {state later : State}
  {c : Char} {ahead other : Option Char}

/-! ## The reader on later lines -/

/-- The mode so many lines further down. -/
def Mode.shifted (lines : Nat) : Mode → Mode
  | token line taken => token (line + lines) taken
  | mode => mode

/-- The waiting form so many lines further down. -/
def Pending.shifted (lines : Nat) : Pending → Pending
  | list line items => list (line + lines) (items.map (Datum.shifted lines))
  | tail line items => tail (line + lines) (items.map (Datum.shifted lines))
  | closing line items last =>
      closing (line + lines) (items.map (Datum.shifted lines)) (last.shifted lines)
  | vector line items => vector (line + lines) (items.map (Datum.shifted lines))
  | wrap head line => wrap head (line + lines)

/-- The state so many lines further down. -/
def State.shifted (lines : Nat) (state : State) : State where
  mode := state.mode.shifted lines
  pending := state.pending.map (Pending.shifted lines)
  line := state.line + lines
  symbols := state.symbols

/-- The step so many lines further down. -/
def Step.shifted (lines : Nat) : Step → Step
  | .next state => .next (state.shifted lines)
  | .datum found line symbols => .datum (found.shifted lines) (line + lines) symbols
  | .failed problem line symbols => .failed problem (line + lines) symbols

section Shifted

variable (lines : Nat)

theorem advance_shifted (line : Nat) (c : Char) :
    advance (line + lines) c = advance line c + lines := by
  unfold advance
  split
  · exact Nat.add_right_comm line lines 1
  · rfl

theorem deliver_shifted (line : Nat) (symbols : SymbolStore) (datum : Datum)
    (pending : List Pending) :
    deliver (line + lines) symbols (datum.shifted lines) (pending.map (Pending.shifted lines)) =
      (deliver line symbols datum pending).shifted lines := by
  induction pending generalizing symbols datum with
  | nil => rfl
  | cons form outer deliverOuter =>
      cases form with
      | list => rfl
      | tail => rfl
      | closing => rfl
      | vector => rfl
      | wrap head start =>
          rw [List.map_cons, Pending.shifted, deliver, deliver, ← deliverOuter,
            Datum.shifted_list]
          rfl

theorem continueToken_shifted (start : Nat) (taken : List Char) (line : Nat) :
    continueToken table package (state.shifted lines) (start + lines) taken (line + lines) ahead =
      (continueToken table package state start taken line ahead).shifted lines := by
  unfold continueToken
  split
  · simp only [Token.read_shifted, State.shifted, Functor.map, EStateM.map]
    cases Token.read package start taken.reverse state.symbols with
    | ok datum symbols => exact deliver_shifted lines line symbols datum state.pending
    | error problem symbols => rfl
  · rfl

theorem startMacro_shifted (line : Nat) (c : Char) (reader : ReaderMacro) :
    startMacro (state.shifted lines) (line + lines) c reader =
      (startMacro state line c reader).shifted lines := by
  cases reader <;> rfl

theorem start_shifted :
    start table package (state.shifted lines) c ahead =
      (start table package state c ahead).shifted lines := by
  have moved : advance (state.shifted lines).line c = advance state.line c + lines :=
    advance_shifted lines state.line c
  unfold start
  dsimp only
  rw [moved]
  split
  · exact startMacro_shifted lines _ c _
  · exact startMacro_shifted lines _ c _
  · rfl
  · exact continueToken_shifted lines state.line [c] _

theorem close?_shifted (c : Char) (pending : List Pending) :
    close? c (pending.map (Pending.shifted lines)) =
      (close? c pending).map fun closed =>
        (closed.1.shifted lines, closed.2.map (Pending.shifted lines)) := by
  cases pending with
  | nil => rfl
  | cons form outer =>
      cases form with
      | list start items =>
          simp only [List.map_cons, Pending.shifted, close?]
          split
          · simp [Datum.shifted_list]
          · rfl
      | closing start items last =>
          simp only [List.map_cons, Pending.shifted, close?]
          split
          · simp [Datum.shifted_chain]
          · rfl
      | vector start items =>
          simp only [List.map_cons, Pending.shifted, close?]
          split
          · simp [Datum.shifted_vec]
          · rfl
      | tail => rfl
      | wrap => rfl

theorem element_shifted :
    element table package (state.shifted lines) c ahead =
      (element table package state c ahead).shifted lines := by
  have closes : close? c (state.shifted lines).pending = _ := close?_shifted lines c state.pending
  unfold element
  rw [closes]
  cases close? c state.pending with
  | none => exact start_shifted lines
  | some closed =>
      have moved : advance (state.shifted lines).line c = advance state.line c + lines :=
        advance_shifted lines state.line c
      dsimp only [Option.map_some]
      rw [moved]
      exact deliver_shifted lines _ _ _ _

theorem between_shifted (boundary : Boundary) :
    between table package (state.shifted lines) boundary c ahead =
      (between table package state boundary c ahead).shifted lines := by
  have moved : advance (state.shifted lines).line c = advance state.line c + lines :=
    advance_shifted lines state.line c
  have inside : element table package (state.shifted lines) c ahead = _ := element_shifted lines
  have inGap : (if table.isWhitespace c then
        .next { state.shifted lines with line := advance (state.shifted lines).line c }
      else element table package (state.shifted lines) c ahead) =
        Step.shifted lines (if table.isWhitespace c then
          .next { state with line := advance state.line c }
        else element table package state c ahead) := by
    rw [moved, inside]
    split <;> rfl
  -- Of the stack only the top is looked at, and of a list there whether it is empty.
  obtain ⟨mode, pending, line, symbols⟩ := state
  cases boundary with
  | comment => exact inGap
  | element =>
      rcases pending with _ | ⟨_ | _ | _ | _ | _, outer⟩
      case cons.list start items =>
        change (if table.isWhitespace c then _ else if c = '.' && endsToken table ahead then
          if (items.map (Datum.shifted lines)).isEmpty then _ else _ else _) = _
        rw [moved, inside, List.isEmpty_map]
        unfold between
        dsimp only
        split
        · rfl
        · split
          · split <;> rfl
          · rfl
      all_goals exact inGap
  | comma =>
      rcases pending with _ | ⟨_ | _ | _ | _ | _, outer⟩
      case cons.wrap head start =>
        change (if c = '@' then _ else if table.isWhitespace c then _ else _) = _
        rw [moved, inside]
        unfold between
        dsimp only
        split
        · rfl
        · split <;> rfl
      all_goals exact inGap

/-- A character does the same on a later line. -/
theorem step_shifted :
    step table package (state.shifted lines) c ahead =
      (step table package state c ahead).shifted lines := by
  have moved : advance (state.shifted lines).line c = advance state.line c + lines :=
    advance_shifted lines state.line c
  cases mode : state.mode with
  | between boundary =>
      have mode' : (state.shifted lines).mode = .between boundary := congrArg (·.shifted lines) mode
      simp only [step, mode, mode']
      exact between_shifted lines boundary
  | token start taken =>
      have mode' : (state.shifted lines).mode = .token (start + lines) taken :=
        congrArg (·.shifted lines) mode
      simp only [step, mode, mode', moved]
      exact continueToken_shifted lines start _ _
  | string close taken =>
      have mode' : (state.shifted lines).mode = .string close taken :=
        congrArg (·.shifted lines) mode
      simp only [step, mode, mode', moved]
      split
      · exact deliver_shifted lines _ _ (.str _) _
      · split <;> rfl
  | escape close taken =>
      have mode' : (state.shifted lines).mode = .escape close taken :=
        congrArg (·.shifted lines) mode
      simp only [step, mode, mode', moved]
      split <;> rfl
  | lineComment =>
      have mode' : (state.shifted lines).mode = .lineComment := congrArg (·.shifted lines) mode
      simp only [step, mode, mode', moved]
      split
      · rfl
      · simp [Step.shifted, State.shifted, mode, Mode.shifted]
  | blockComment depth mark =>
      have mode' : (state.shifted lines).mode = .blockComment depth mark :=
        congrArg (·.shifted lines) mode
      simp only [step, mode, mode', moved]
      split <;> rfl
  | dispatch trigger =>
      have mode' : (state.shifted lines).mode = .dispatch trigger := congrArg (·.shifted lines) mode
      simp only [step, mode, mode', moved]
      split
      · exact startMacro_shifted lines _ c _
      · rfl

end Shifted

/-! ## Readings on later lines -/

/-- The datum so many lines further down. -/
def Located.shifted (lines : Nat) (located : Located) : Located :=
  ⟨located.datum.shifted lines, located.line + lines⟩

/-- The reading so many lines further down: the same data and the same problem on later lines, and
the same symbols. -/
def Reading.shifted (lines : Nat) (reading : Reading) : Reading where
  data := reading.data.map (Located.shifted lines)
  error? := reading.error?.map fun error =>
    { error with loc.line := error.loc.line + lines }
  symbols := reading.symbols

/-- Reading a text on a later line. -/
theorem readOn_shifted (lines : Nat) (text : List Char) :
    readOn table package file (state.shifted lines) text =
      (readOn table package file state text).shifted lines := by
  induction text generalizing state with
  | nil =>
      obtain ⟨mode, pending, line, symbols⟩ := state
      cases mode <;> cases pending <;> rfl
  | cons c rest readRest =>
      rw [readOn, readOn, step_shifted]
      cases step table package state c rest.head? with
      | next state => exact readRest
      | datum datum line symbols =>
          have restShifted := @readRest { line, symbols }
          exact congrArg (Reading.withFirst _ _) restShifted
      | failed => rfl

/-! ## Lines are counted -/

theorem line_of_deliver {line : Nat} {symbols : SymbolStore} {datum : Datum}
    {pending : List Pending} (went : (deliver line symbols datum pending).later? = some later) :
    later.line = line := by
  induction pending generalizing symbols datum with
  | nil => cases went; rfl
  | cons form outer deliverOuter =>
      cases form with
      | list => cases went; rfl
      | tail => cases went; rfl
      | closing => cases went
      | vector => cases went; rfl
      | wrap => exact deliverOuter went

theorem line_of_continueToken {start line : Nat} {taken : List Char}
    (went : (continueToken table package state start taken line ahead).later? = some later) :
    later.line = line := by
  unfold continueToken at went
  split at went
  · split at went
    · exact line_of_deliver went
    · cases went
  · cases went
    rfl

theorem line_of_startMacro {line : Nat} {reader : ReaderMacro}
    (went : (startMacro state line c reader).later? = some later) : later.line = line := by
  cases reader <;> cases went <;> rfl

theorem line_of_element (went : (element table package state c ahead).later? = some later) :
    later.line = advance state.line c := by
  unfold element at went
  split at went
  · exact line_of_deliver went
  · unfold start at went
    dsimp only at went
    split at went
    · exact line_of_startMacro went
    · exact line_of_startMacro went
    · cases went
    · exact line_of_continueToken went

theorem line_of_between {boundary : Boundary}
    (went : (between table package state boundary c ahead).later? = some later) :
    later.line = advance state.line c := by
  unfold between at went
  split at went
  · split at went
    · next isAt => cases went; subst isAt; rfl
    · split at went
      · cases went; rfl
      · exact line_of_element went
  · split at went
    · cases went; rfl
    · split at went
      · next alone =>
          split at went
          · cases went
          · have isDot : c = '.' := by simp_all
            cases went
            subst isDot
            rfl
      · exact line_of_element went
  · split at went
    · cases went; rfl
    · exact line_of_element went

/-- Every character counts its line, whatever it does. -/
theorem line_of_step (went : (step table package state c ahead).later? = some later) :
    later.line = advance state.line c := by
  unfold step at went
  dsimp only at went
  split at went
  · exact line_of_between went
  · exact line_of_continueToken went
  · split at went
    · exact line_of_deliver went
    · split at went <;> cases went <;> rfl
  · split at went <;> cases went; rfl
  · split at went <;> cases went <;> rfl
  · split at went <;> cases went <;> rfl
  · split at went
    · exact line_of_startMacro went
    · cases went

/-! ## The end of a text -/

/-- The reader looks at the next character only to see whether a token ends. -/
theorem step_congr_ahead (same : endsToken table ahead = endsToken table other) :
    step table package state c ahead = step table package state c other := by
  unfold step between element start continueToken
  simp only [same]

/-- With nothing open, what a gap follows does not matter. -/
theorem readOn_between (boundary : Boundary) (line : Nat) (symbols : SymbolStore)
    (text : List Char) :
    readOn table package file { mode := .between boundary, line, symbols } text =
      readOn table package file { line, symbols } text := by
  induction text generalizing line with
  | nil => rfl
  | cons c rest readRest =>
      have inGap : ∀ boundary, step table package { mode := .between boundary, line, symbols } c
          rest.head? = if table.isWhitespace c then
            .next { mode := .between boundary, line := advance line c, symbols }
          else element table package { line, symbols } c rest.head? := by
        intro boundary
        cases boundary <;> rfl
      rw [readOn, readOn, inGap, inGap]
      by_cases blank : table.isWhitespace c = true
      · simp only [if_pos blank]
        exact readRest _
      · simp only [if_neg blank]

/-- The reading of one text followed by that of another one. -/
def Reading.followedBy (first second : Reading) : Reading :=
  { second with data := first.data ++ second.data }

/-- Where a text that can be read has ended, a line break leads to a fresh start. -/
theorem readOn_lineBreak (newline : table.isWhitespace '\n' = true)
    (clean : (readOn table package file state []).error? = none) (text : List Char) :
    readOn table package file state ('\n' :: text) =
      readOn table package file { line := state.line + 1, symbols := state.symbols } text := by
  obtain ⟨mode, pending, line, symbols⟩ := state
  cases pending with
  | cons form outer => cases mode <;> cases clean
  | nil =>
      cases mode with
      | between boundary =>
          have passed : step table package ⟨.between boundary, [], line, symbols⟩ '\n' text.head? =
              .next { mode := .between boundary, line := line + 1, symbols } := by
            cases boundary <;> exact if_pos newline
          rw [readOn, passed]
          exact readOn_between boundary _ symbols text
      | lineComment => exact readOn_between .comment _ symbols text
      | token => cases clean
      | string => cases clean
      | escape => cases clean
      | blockComment => cases clean
      | dispatch => cases clean

/-- Two texts with a line break between them are read one after the other. -/
theorem readOn_append_line (newline : table.isWhitespace '\n' = true) {first : List Char}
    (clean : (readOn table package file state first).error? = none) (second : List Char) :
    readOn table package file state (first ++ '\n' :: second) =
      (readOn table package file state first).followedBy
        (readOn table package file
          { line := state.line + (first.count '\n' + 1)
            symbols := (readOn table package file state first).symbols } second) := by
  induction first generalizing state with
  | nil =>
      have ended : readOn table package file state [] = ⟨[], none, state.symbols⟩ := by
        obtain ⟨mode, pending, line, symbols⟩ := state
        cases mode <;> cases pending <;> first | rfl | cases clean
      rw [ended]
      exact readOn_lineBreak newline clean second
  | cons c rest readRest =>
      have ends : endsToken table (some '\n') = true := by
        simp [endsToken, ReadTable.isDelimiter, of_decide_eq_true newline]
      have sameStep : step table package state c (rest ++ '\n' :: second).head? =
          step table package state c rest.head? := by
        cases rest with
        | nil => exact step_congr_ahead ends
        | cons => rfl
      have counted : ∀ later, (step table package state c rest.head?).later? = some later →
          later.line + (rest.count '\n' + 1) = state.line + ((c :: rest).count '\n' + 1) := by
        intro later went
        rw [line_of_step went, ← Nat.add_assoc, advance_eq, Nat.add_assoc]
      rw [List.cons_append, readOn, sameStep]
      rw [readOn] at clean ⊢
      cases stepped : step table package state c rest.head? with
      | next later =>
          rw [stepped] at clean counted
          dsimp only at clean ⊢
          rw [readRest clean, counted later rfl]
      | datum datum line symbols =>
          rw [stepped] at clean counted
          dsimp only at clean ⊢
          rw [readRest clean, counted _ rfl]
          rfl
      | failed =>
          rw [stepped] at clean
          cases clean

/-! ## Composition -/

/-- The data of a reading, without their lines. -/
def Reading.values (reading : Reading) : List Datum :=
  reading.data.map (·.datum.unlocated)

theorem values_shifted (lines : Nat) (reading : Reading) :
    (reading.shifted lines).values = reading.values := by
  simp [Reading.values, Reading.shifted, Located.shifted, Datum.unlocated_shifted,
    Function.comp_def]

/-- If a text can be read, then behind it and a line break any other text is read as it is alone
with the symbols that the first one left: the same data follow, or the same problem, on lines moved
by those of the first text. -/
theorem reading_composes {first : String} {symbols : SymbolStore}
    (clean : (readAll .standard package file symbols first).error? = none) (second : String) :
    let head := readAll .standard package file symbols first
    let tail := readAll .standard package file head.symbols second
    let whole := readAll .standard package file symbols (first ++ "\n" ++ second)
    whole = head.followedBy (tail.shifted (first.toList.count '\n' + 1)) ∧
      whole.values = head.values ++ tail.values := by
  have reads : ∀ symbols (text : String), readAll .standard package file symbols text =
      readOn .standard package file { line := 1, symbols } text.toList := by
    intro symbols text
    rw [← readAll_eq_readOn, String.ofList_toList]
  have joined : (first ++ "\n" ++ second).toList = first.toList ++ '\n' :: second.toList := by
    simp
  intro head tail whole
  have composed : whole = head.followedBy (tail.shifted (first.toList.count '\n' + 1)) := by
    simp only [whole, tail, head, reads, joined] at clean ⊢
    rw [readOn_append_line rfl clean, ← readOn_shifted]
    rfl
  refine ⟨composed, ?_⟩
  rw [composed, ← values_shifted (first.toList.count '\n' + 1) tail]
  exact List.map_append

/-- The first text ends in a comment, and the second one has a parenthesis too many. -/
theorem reading_composes_behind_comment :
    (readAll .standard PackageId.user "notes" .initial "(a\n. b) ;c").error? = none ∧
      (readAll .standard PackageId.user "notes" .initial
          ("(a\n. b) ;c" ++ "\n" ++ "x\n)")).error? =
        some ⟨⟨"notes", 4⟩, .unmatchedDelimiter ')'⟩ := by
  have clean : (readAll .standard PackageId.user "notes" .initial "(a\n. b) ;c").error? = none := by
    decide +kernel
  have alone : (readAll .standard PackageId.user "notes"
      (readAll .standard PackageId.user "notes" .initial "(a\n. b) ;c").symbols "x\n)").error? =
        some ⟨⟨"notes", 2⟩, .unmatchedDelimiter ')'⟩ := by
    decide +kernel
  refine ⟨clean, ?_⟩
  rw [(reading_composes clean "x\n)").1]
  simp only [Reading.followedBy, Reading.shifted, alone]
  decide +kernel

end Reader

end ObjectLisp
