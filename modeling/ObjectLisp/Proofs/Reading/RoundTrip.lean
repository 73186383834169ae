import ObjectLisp.Proofs.Reading.Tokens
import ObjectLisp.Reader.All

/-!
# Reading undoes printing

A printed datum is read back as it was, and nothing of its text is left.  The
reader numbers the lines on which lists and vectors begin, which the printer does
not see, so a datum is compared with its lines taken away.

The reader is a machine with a stack.  To read a text is to pass, whatever is on
the stack and whatever text follows, from the state before the text to the state
after the datum was delivered.  Only a token needs something of the text that
follows it: that it ends the token.  What the printer writes after a datum is a
blank or a closing bracket, which does.
-/

namespace ObjectLisp

/-! ## Data without lines -/

namespace Datum

mutual

/-- The datum without the lines of its parts. -/
def unlocated : Datum → Datum
  | cons _ car cdr => cons none car.unlocated cdr.unlocated
  | vec _ items => vec none (unlocatedAll items)
  | null => null
  | int value => int value
  | float value => float value
  | str text => str text
  | symbol id => symbol id

/-- Several data without the lines of their parts. -/
def unlocatedAll : List Datum → List Datum
  | [] => []
  | item :: items => item.unlocated :: unlocatedAll items

end

theorem unlocatedAll_eq (items : List Datum) : unlocatedAll items = items.map unlocated := by
  induction items with
  | nil => rfl
  | cons item items mapRest => rw [unlocatedAll, mapRest, List.map_cons]

theorem unlocated_chain (line : Option Nat) (items : List Datum) (tail : Datum) :
    (chain line items tail).unlocated = chain none (items.map unlocated) tail.unlocated := by
  induction items generalizing line with
  | nil => rfl
  | cons item items chainRest => rw [chain, unlocated, chainRest, List.map_cons, chain]

theorem chain_concat (items : List Datum) (item tail : Datum) :
    chain none (items ++ [item]) tail = chain none items (cons none item tail) := by
  induction items with
  | nil => rfl
  | cons first items chainRest => rw [List.cons_append, chain, chainRest, chain]

/-! ## Size of a datum -/

/-- Does a list go on or end here? -/
def isListEnd : Datum → Bool
  | null | cons _ _ _ => true
  | _ => false

/-- Number of elements of a list. -/
def cells : Datum → Nat
  | cons _ _ cdr => cdr.cells + 1
  | _ => 0

mutual

/-- Greatest number of lists and vectors around a part of the datum.  The end of a list is not a
part of its own. -/
def nesting : Datum → Nat
  | cons _ car cdr => max (car.nesting + 1) (if cdr.isListEnd then cdr.nesting else cdr.nesting + 1)
  | vec _ items => nestingIn items
  | _ => 0

/-- Greatest number of lists and vectors around a part of the vector with these elements. -/
def nestingIn : List Datum → Nat
  | [] => 0
  | item :: items => max (item.nesting + 1) (nestingIn items)

end

mutual

/-- Greatest number of elements of a list or vector in the datum. -/
def width : Datum → Nat
  | cons _ car cdr => max (cdr.cells + 1) (max car.width cdr.width)
  | vec _ items => max items.length (widthIn items)
  | _ => 0

/-- Greatest number of elements of a list or vector in one of the data. -/
def widthIn : List Datum → Nat
  | [] => 0
  | item :: items => max item.width (widthIn items)

end

/-- The data with a readable form: numbers, strings, symbols with a spelling, vectors of such
data, and lists of such data that end as usual or in one of them. -/
inductive Readable (store : SymbolStore) : Datum → Prop where
  | fixnum (value : Int64) : Readable store (int (.fixnum value))
  | bignum {value : Int} (large : ¬ Integer.Fits value) : Readable store (int (.bignum value))
  | str (text : String) : Readable store (str text)
  | symbol {id : SymbolId} (spelled : store.Spelled id) : Readable store (symbol id)
  | last {car : Datum} (line : Option Nat) (head : Readable store car) :
      Readable store (cons line car null)
  | cons {car cdr : Datum} (line : Option Nat) (head : Readable store car)
      (tail : Readable store cdr) : Readable store (cons line car cdr)
  | vec {items : List Datum} (line : Option Nat) (each : ∀ item ∈ items, Readable store item) :
      Readable store (vec line items)

end Datum

namespace Reader

/-! ## Passing over a text -/

variable {package : PackageId} {store : SymbolStore} {line : Nat}

/-- Go on after the step of a character. -/
def resume (table : ReadTable) (package : PackageId) (rest : List Char) : Step → Outcome
  | .next state => run table package state rest
  | .datum datum line symbols => .datum datum rest line symbols
  | .failed problem line symbols => .failed problem line symbols

theorem run_cons (table : ReadTable) (package : PackageId) (state : State) (c : Char)
    (rest : List Char) : run table package state (c :: rest) =
      resume table package rest (step table package state c rest.head?) := by
  rw [run]
  split <;> next stepped => rw [stepped, resume]

/-- The text is read as the datum: in front of whatever ends a token, and for whatever form
waits for it. -/
def Reads (package : PackageId) (store : SymbolStore) (text : List Char) (datum : Datum) : Prop :=
  ∀ line, ∃ read : Datum, read.unlocated = datum.unlocated ∧
    ∀ (pending : List Pending) (rest : List Char), endsToken .standard rest.head? = true →
      run .standard package { pending, line, symbols := store } (text ++ rest) =
        resume .standard package rest (deliver line store read pending)

/-- Between data, a character that is no blank, dot or closing bracket starts a datum.  A dot
does so too, if it goes on or no list waits for it. -/
theorem step_starts {pending : List Pending} {c : Char} {ahead : Option Char}
    (unblank : ReadTable.standard.isWhitespace c = false)
    (undotted : c = '.' → endsToken .standard ahead = true →
      ∀ start items outer, pending ≠ .list start items :: outer)
    (unclosing : c ≠ ')' ∧ c ≠ ']') :
    step .standard package { pending, line, symbols := store } c ahead =
      start .standard package { pending, line, symbols := store } c ahead := by
  have unclosed : close? c pending = none := by
    unfold close?
    split <;> simp [unclosing]
  cases pending with
  | nil => simp [step, between, element, unblank, unclosed]
  | cons form outer =>
      cases form with
      | list start items =>
          have goesOn : ¬ (c = '.' ∧ endsToken .standard ahead = true) :=
            fun lone => undotted lone.1 lone.2 start items outer rfl
          simp [step, between, element, unblank, goesOn, unclosed]
      | _ => simp [step, between, element, unblank, unclosed]

/-- A blank between elements is passed over. -/
theorem run_blank (pending : List Pending) (rest : List Char) :
    run .standard package { pending, line, symbols := store } (' ' :: rest) =
      run .standard package { pending, line, symbols := store } rest := by
  have blank : ReadTable.standard.isWhitespace ' ' = true := rfl
  have sameLine : advance line ' ' = line := rfl
  rw [run_cons]
  cases pending with
  | nil => simp [step, between, blank, sameLine, resume]
  | cons form outer => cases form <;> simp [step, between, blank, sameLine, resume]

/-- The blank in front of every element but the first is passed over. -/
theorem run_separator (first : Bool) (pending : List Pending) (rest : List Char) :
    run .standard package { pending, line, symbols := store }
        ((if first then [] else [' ']) ++ rest) =
      run .standard package { pending, line, symbols := store } rest := by
  cases first with
  | true => rfl
  | false => exact run_blank pending rest

/-! ## Tokens -/

theorem advance_of_not_delimiter {c : Char} (inside : ReadTable.standard.isDelimiter c = false)
    (line : Nat) : advance line c = line := by
  have unbroken : c ≠ '\n' := by
    rintro rfl
    exact absurd inside (by decide)
  simp [advance, unbroken]

/-- The rest of a token is taken up to what ends it. -/
theorem resume_token {text taken rest : List Char} {datum : Datum} {after : SymbolStore}
    {mode : Mode} {pending : List Pending}
    (unbroken : ∀ c ∈ text, ReadTable.standard.isDelimiter c = false)
    (ends : endsToken .standard rest.head? = true)
    (read : Token.read package line (taken.reverse ++ text) store = .ok datum after) :
    resume .standard package (text ++ rest)
        (continueToken .standard package { mode, pending, line, symbols := store } line taken line
          (text ++ rest).head?) =
      resume .standard package rest (deliver line after datum pending) := by
  induction text generalizing taken mode with
  | nil =>
      rw [List.append_nil] at read
      simp [continueToken, ends, read]
  | cons c text takeRest =>
      obtain ⟨inside, unbrokenRest⟩ := List.forall_mem_cons.mp unbroken
      have goesOn : endsToken .standard (c :: text ++ rest).head? = false := inside
      rw [continueToken, if_neg (by rw [goesOn]; decide), resume, List.cons_append, run_cons]
      simp only [step, advance_of_not_delimiter inside]
      exact takeRest unbrokenRest (by simpa using read)

/-- A token is read as one, but a lone dot in a list is none. -/
theorem run_token {first : Char} {text rest : List Char} {datum : Datum} {after : SymbolStore}
    {pending : List Pending} (constituent : ReadTable.standard.classOf first = .constituent)
    (unbroken : ∀ c ∈ first :: text, ReadTable.standard.isDelimiter c = false)
    (read : Token.read package line (first :: text) store = .ok datum after)
    (alone : first :: text = ['.'] → ∀ start items outer, pending ≠ .list start items :: outer)
    (ends : endsToken .standard rest.head? = true) :
    run .standard package { pending, line, symbols := store } (first :: text ++ rest) =
      resume .standard package rest (deliver line after datum pending) := by
  obtain ⟨inside, unbrokenRest⟩ := List.forall_mem_cons.mp unbroken
  have unblank : ReadTable.standard.isWhitespace first = false := by
    simp [ReadTable.isWhitespace, constituent]
  have unclosing : first ≠ ')' ∧ first ≠ ']' := by
    constructor <;> rintro rfl <;> exact absurd inside (by decide)
  have undotted : first = '.' → endsToken .standard (text ++ rest).head? = true →
      ∀ start items outer, pending ≠ .list start items :: outer := by
    rintro rfl endsHere
    cases text with
    | nil => exact alone rfl
    | cons c text =>
        have goesOn : endsToken .standard (c :: text ++ rest).head? = false :=
          unbrokenRest c List.mem_cons_self
        rw [goesOn] at endsHere
        cases endsHere
  rw [List.cons_append, run_cons, step_starts unblank undotted unclosing]
  simp only [start, constituent, advance_of_not_delimiter inside]
  exact resume_token unbrokenRest ends read

theorem reads_token {text : List Char} {datum : Datum} (solid : Solid text)
    (read : ∀ line, Token.read package line text store = .ok datum store) :
    Reads package store text datum := by
  intro line
  obtain ⟨⟨first, rest, rfl, undotted, constituent⟩, unbroken⟩ := solid
  exists datum, rfl
  intro pending after ends
  exact run_token constituent unbroken (read line) (by simp [undotted]) ends

/-! ## Strings -/

/-- An escaped character is read as itself, on the same line. -/
theorem run_escapeChar (taken rest : List Char) (pending : List Pending) (c : Char) :
    run .standard package { mode := .string '"' taken, pending, line, symbols := store }
        (Printer.escapeChar c ++ rest) =
      run .standard package { mode := .string '"' (c :: taken), pending, line, symbols := store }
        rest := by
  unfold Printer.escapeChar
  split
  · rfl
  · rfl
  · rfl
  · rfl
  · rfl
  · next unquoted unescaped unbroken _ _ =>
      have sameLine : advance line c = line := by
        simpa [advance] using unbroken
      rw [List.singleton_append, run_cons]
      simp only [step, sameLine]
      rw [if_neg unquoted, if_neg unescaped, resume]

theorem run_string (text taken rest : List Char) (pending : List Pending) :
    run .standard package { mode := .string '"' taken, pending, line, symbols := store }
        (text.flatMap Printer.escapeChar ++ '"' :: rest) =
      resume .standard package rest
        (deliver line store (.str (String.ofList (taken.reverse ++ text))) pending) := by
  induction text generalizing taken with
  | nil =>
      rw [List.append_nil, List.flatMap_nil, List.nil_append, run_cons]
      rfl
  | cons c text readRest =>
      rw [List.flatMap_cons, List.append_assoc, run_escapeChar, readRest, List.reverse_cons,
        List.append_assoc, List.singleton_append]

theorem run_quoted (text : String) (pending : List Pending) (rest : List Char) :
    run .standard package { pending, line, symbols := store }
        (Printer.quoted text.toList ++ rest) =
      resume .standard package rest (deliver line store (.str text) pending) := by
  simp only [Printer.quoted, List.cons_append, List.append_assoc, List.nil_append]
  rw [run_cons, step_starts rfl (by simp) (by decide)]
  change run _ _ { mode := .string '"' [], pending, line, symbols := store } _ = _
  rw [run_string, List.reverse_nil, List.nil_append, String.ofList_toList]

theorem reads_quoted (text : String) :
    Reads package store (Printer.quoted text.toList) (.str text) := by
  intro line
  exists .str text, rfl
  intro pending rest _
  exact run_quoted text pending rest

/-! ## Brackets and dots -/

theorem run_openList (pending : List Pending) (rest : List Char) :
    run .standard package { pending, line, symbols := store } ('(' :: rest) =
      run .standard package { pending := .list line [] :: pending, line, symbols := store }
        rest := by
  rw [run_cons, step_starts rfl (by simp) (by decide)]
  rfl

theorem run_openVector (pending : List Pending) (rest : List Char) :
    run .standard package { pending, line, symbols := store } ('[' :: rest) =
      run .standard package { pending := .vector line [] :: pending, line, symbols := store }
        rest := by
  rw [run_cons, step_starts rfl (by simp) (by decide)]
  rfl

/-- A bracket that closes the innermost form delivers it. -/
theorem run_close {c : Char} {pending outer : List Pending} {datum : Datum} (rest : List Char)
    (bracket : c = ')' ∨ c = ']') (closes : close? c pending = some (datum, outer)) :
    run .standard package { pending, line, symbols := store } (c :: rest) =
      resume .standard package rest (deliver line store datum outer) := by
  have unblank : ReadTable.standard.isWhitespace c = false := by
    rcases bracket with rfl | rfl <;> rfl
  have undotted : c ≠ '.' := by
    rcases bracket with rfl | rfl <;> decide
  have sameLine : advance line c = line := by
    rcases bracket with rfl | rfl <;> rfl
  rw [run_cons]
  cases pending with
  | nil => cases closes
  | cons form outer =>
      cases form <;> simp [step, between, element, unblank, undotted, closes, sameLine]

/-- A dot between blanks starts the tail of a list. -/
theorem run_dot {items : List Datum} (start : Nat) (outer : List Pending) (rest : List Char)
    (nonempty : items ≠ []) :
    run .standard package { pending := .list start items :: outer, line, symbols := store }
        (' ' :: '.' :: ' ' :: rest) =
      run .standard package { pending := .tail start items :: outer, line, symbols := store }
        rest := by
  have unblank : ReadTable.standard.isWhitespace '.' = false := rfl
  have ends : endsToken .standard (some ' ') = true := rfl
  rw [run_blank, run_cons]
  simp [step, between, unblank, ends, nonempty, resume, run_blank]

/-! ## Lists -/

/-- The text is read as the rest of a list that has begun. -/
def ReadsTail (package : PackageId) (store : SymbolStore) (text : List Char) (tail : Datum) :
    Prop :=
  ∀ line start items, items ≠ [] →
    ∃ read : Datum, read.unlocated = (Datum.chain none items.reverse tail).unlocated ∧
      ∀ (outer : List Pending) (rest : List Char),
        run .standard package { pending := .list start items :: outer, line, symbols := store }
            (text ++ ')' :: rest) =
          resume .standard package rest (deliver line store read outer)

theorem readsTail_null : ReadsTail package store [] .null := by
  intro line start items _
  exists .list (some start) items.reverse
  constructor
  · rw [Datum.list, Datum.unlocated_chain, Datum.unlocated_chain]
  · intro outer rest
    exact run_close rest (.inl rfl) rfl

/-- Behind a dot follows the datum that ends the list. -/
theorem Reads.afterDot {text : List Char} {tail : Datum} (reads : Reads package store text tail) :
    ReadsTail package store (' ' :: '.' :: ' ' :: text) tail := by
  intro line start items nonempty
  obtain ⟨last, sameLast, readsLast⟩ := reads line
  exists .chain (some start) items.reverse last
  constructor
  · rw [Datum.unlocated_chain, Datum.unlocated_chain, sameLast]
  · intro outer rest
    have ends : endsToken .standard (')' :: rest).head? = true := rfl
    rw [List.cons_append, List.cons_append, List.cons_append, run_dot start outer _ nonempty,
      readsLast _ _ ends]
    exact run_close rest (.inl rfl) rfl

/-- One more element moves from the text to the items read so far. -/
theorem Reads.thenTail {head text : List Char} {car cdr : Datum}
    (reads : Reads package store head car) (readsTail : ReadsTail package store text cdr)
    (ends : ∀ rest, endsToken .standard (text ++ ')' :: rest).head? = true) (line start : Nat)
    (items : List Datum) (cell : Option Nat) :
    ∃ read : Datum,
      read.unlocated = (Datum.chain none items.reverse (.cons cell car cdr)).unlocated ∧
      ∀ (outer : List Pending) (rest : List Char),
        run .standard package { pending := .list start items :: outer, line, symbols := store }
            (head ++ text ++ ')' :: rest) =
          resume .standard package rest (deliver line store read outer) := by
  obtain ⟨first, sameFirst, readsFirst⟩ := reads line
  obtain ⟨read, sameRead, readsRest⟩ := readsTail line start (first :: items) (by simp)
  exists read
  constructor
  · rw [sameRead, List.reverse_cons, Datum.unlocated_chain, Datum.unlocated_chain, List.map_append,
      List.map_singleton, sameFirst, Datum.chain_concat, Datum.unlocated]
  · intro outer rest
    rw [List.append_assoc, readsFirst _ _ (ends rest)]
    exact readsRest outer rest

variable {style : PrintStyle} {datum : Datum}

/-- The datum is read back from its text, however many levels beyond its own are left. -/
def ReadsBack (store : SymbolStore) (style : PrintStyle) (datum : Datum) : Prop :=
  ∀ levels, datum.nesting ≤ levels → datum.width ≤ style.maxLength →
    Reads style.package store (Printer.chars store style Datum.shape (levels + 1) datum) datum

/-- The datum is read back from its text as the rest of a list. -/
def ReadsBackTail (store : SymbolStore) (style : PrintStyle) (datum : Datum) : Prop :=
  ∀ levels room, (if datum.isListEnd then datum.nesting else datum.nesting + 1) ≤ levels →
    datum.width ≤ style.maxLength → datum.cells ≤ room →
      ReadsTail style.package store
        (Printer.listChars Datum.shape (Printer.chars store style Datum.shape levels) room false
          datum)
        datum

/-- The rest of a list starts with a blank or is empty. -/
theorem ends_listChars (write : Datum → List Char) (room : Nat) (datum : Datum) (rest : List Char) :
    endsToken .standard
      (Printer.listChars Datum.shape write room false datum ++ ')' :: rest).head? = true := by
  cases room <;> cases datum <;> rfl

/-- What is no list ends one behind a dot. -/
theorem listChars_dotted (write : Datum → List Char) (room : Nat) {datum : Datum}
    (notList : datum.isListEnd = false) :
    Printer.listChars Datum.shape write room false datum = ' ' :: '.' :: ' ' :: write datum := by
  cases datum with
  | null => cases notList
  | cons => cases notList
  | _ => cases room <;> rfl

theorem ReadsBack.asTail (notList : datum.isListEnd = false) (reads : ReadsBack store style datum) :
    ReadsBackTail store style datum := by
  intro levels room deep wide _
  rw [notList, if_neg Bool.false_ne_true] at deep
  obtain ⟨levels, rfl⟩ := Nat.exists_eq_add_one_of_ne_zero (n := levels) (by omega)
  rw [listChars_dotted _ _ notList]
  exact (reads levels (by omega) wide).afterDot

theorem readsBackTail_null : ReadsBackTail store style .null := by
  intro levels room _ _ _
  have empty : ∀ write, Printer.listChars Datum.shape write room false .null = [] := by
    intro write
    cases room <;> rfl
  rw [empty]
  exact readsTail_null

theorem ReadsBack.cell {car cdr : Datum} (cell : Option Nat) (reads : ReadsBack store style car)
    (readsTail : ReadsBackTail store style cdr) :
    ReadsBack store style (.cons cell car cdr) ∧
      ReadsBackTail store style (.cons cell car cdr) := by
  constructor
  · intro levels deep wide line
    simp only [Datum.nesting, Datum.width, Nat.max_le] at deep wide
    obtain ⟨levels, rfl⟩ := Nat.exists_eq_add_one_of_ne_zero (n := levels) (by omega)
    obtain ⟨room, roomy⟩ := Nat.exists_eq_add_one_of_ne_zero (n := style.maxLength) (by omega)
    have readsCar := reads levels (by omega) (by omega)
    have readsCdr := readsTail (levels + 1) room deep.2 (by omega) (by omega)
    obtain ⟨read, sameRead, runs⟩ :=
      readsCar.thenTail readsCdr (ends_listChars _ _ _) line line [] cell
    exists read, sameRead
    intro pending rest _
    rw [Printer.chars, Printer.layer, roomy]
    simp only [Datum.shape, Printer.listChars, if_true, List.nil_append, List.cons_append,
      List.append_assoc]
    rw [run_openList, ← runs pending rest, List.append_assoc]
  · intro levels room deep wide long line start items _
    simp only [Datum.nesting, Datum.width, Datum.isListEnd, Datum.cells, if_true, Nat.max_le]
      at deep wide long
    obtain ⟨levels, rfl⟩ := Nat.exists_eq_add_one_of_ne_zero (n := levels) (by omega)
    obtain ⟨room, rfl⟩ := Nat.exists_eq_add_one_of_ne_zero (n := room) (by omega)
    have readsCar := reads levels (by omega) (by omega)
    have readsCdr := readsTail (levels + 1) room deep.2 (by omega) (by omega)
    obtain ⟨read, sameRead, runs⟩ :=
      readsCar.thenTail readsCdr (ends_listChars _ _ _) line start items cell
    refine ⟨read, sameRead, fun outer rest => ?_⟩
    simp only [Datum.shape, Printer.listChars, List.cons_append, List.nil_append, if_false,
      Bool.false_eq_true]
    rw [run_blank, ← runs outer rest]

/-! ## Vectors -/

/-- The rest of a vector starts with a blank or is empty. -/
theorem ends_vectorChars (write : Datum → List Char) (room : Nat) (items : List Datum)
    (rest : List Char) :
    endsToken .standard
      (Printer.vectorChars write room false items ++ ']' :: rest).head? = true := by
  cases items <;> cases room <;> rfl

/-- The elements of a vector are read one after the other, up to its bracket. -/
theorem run_vectorChars {items : List Datum} {write : Datum → List Char}
    (reads : ∀ item ∈ items, Reads package store (write item) item) {room : Nat}
    (long : items.length ≤ room) (first : Bool) (line start : Nat) (taken : List Datum) :
    ∃ read : Datum, read.unlocated = (Datum.vec none (taken.reverse ++ items)).unlocated ∧
      ∀ (outer : List Pending) (rest : List Char),
        run .standard package { pending := .vector start taken :: outer, line, symbols := store }
            (Printer.vectorChars write room first items ++ ']' :: rest) =
          resume .standard package rest (deliver line store read outer) := by
  induction items generalizing room first taken with
  | nil =>
      exists .vec (some start) taken.reverse
      constructor
      · rw [Datum.unlocated, Datum.unlocated, List.append_nil]
      · intro outer rest
        simp only [Printer.vectorChars, List.nil_append]
        exact run_close rest (.inr rfl) rfl
  | cons item items readRest =>
      obtain ⟨readsItem, readsItems⟩ := List.forall_mem_cons.mp reads
      obtain ⟨room, rfl⟩ := Nat.exists_eq_add_one_of_ne_zero (n := room) (by
        rintro rfl
        cases long)
      obtain ⟨readItem, sameItem, runsItem⟩ := readsItem line
      obtain ⟨read, sameRead, runsRest⟩ :=
        readRest readsItems (Nat.le_of_succ_le_succ long) false (readItem :: taken)
      exists read
      constructor
      · rw [sameRead]
        simp [Datum.unlocated, Datum.unlocatedAll_eq, sameItem]
      · intro outer rest
        rw [Printer.vectorChars, List.append_assoc, List.append_assoc, run_separator,
          runsItem _ _ (ends_vectorChars write room items rest)]
        exact runsRest outer rest

theorem width_le_of_mem {items : List Datum} {item : Datum} (member : item ∈ items) :
    item.width ≤ Datum.widthIn items ∧ item.nesting + 1 ≤ Datum.nestingIn items := by
  induction items with
  | nil => cases member
  | cons first items inRest =>
      rcases List.mem_cons.mp member with rfl | later
      · exact ⟨Nat.le_max_left _ _, Nat.le_max_left _ _⟩
      · obtain ⟨narrow, shallow⟩ := inRest later
        exact ⟨Nat.le_trans narrow (Nat.le_max_right _ _),
          Nat.le_trans shallow (Nat.le_max_right _ _)⟩

theorem readsBack_vec {items : List Datum} (opened : Option Nat)
    (each : ∀ item ∈ items, ReadsBack store style item) :
    ReadsBack store style (.vec opened items) := by
  intro levels deep wide line
  simp only [Datum.nesting, Datum.width, Nat.max_le] at deep wide
  have reads : ∀ item ∈ items, Reads style.package store
      (Printer.chars store style Datum.shape levels item) item := by
    intro item member
    obtain ⟨narrow, shallow⟩ := width_le_of_mem member
    obtain ⟨levels, rfl⟩ := Nat.exists_eq_add_one_of_ne_zero (n := levels) (by omega)
    exact each item member levels (by omega) (by omega)
  obtain ⟨read, sameRead, runs⟩ := run_vectorChars reads wide.1 true line line []
  exists read, sameRead
  intro pending rest _
  rw [Printer.chars, Printer.layer]
  simp only [Datum.shape, List.cons_append, List.append_assoc, List.nil_append]
  rw [run_openVector, runs pending rest]

/-! ## Every readable datum -/

theorem readsBack_int (n : Integer) (canonical : n.Canonical) :
    ReadsBack store style (.int n) := by
  intro levels _ _
  exact reads_token (Token.solid_integer n) fun _ => Token.read_integer canonical

/-- A readable datum is read back, on its own and as the end of a list. -/
theorem readsBack_of_readable (coherent : store.Coherent) (escape : style.escape = true)
    (readable : datum.Readable store) :
    ReadsBack store style datum ∧ ReadsBackTail store style datum := by
  induction readable with
  | fixnum value =>
      have reads : ReadsBack store style (.int (.fixnum value)) := readsBack_int _ trivial
      exact ⟨reads, reads.asTail rfl⟩
  | bignum large =>
      have reads : ReadsBack store style (.int (.bignum _)) := readsBack_int _ large
      exact ⟨reads, reads.asTail rfl⟩
  | str text =>
      have reads : ReadsBack store style (.str text) := by
        intro levels _ _
        simp only [Printer.chars, Printer.layer, Datum.shape, escape, if_true]
        exact reads_quoted text
      exact ⟨reads, reads.asTail rfl⟩
  | @symbol id spelled =>
      have reads : ReadsBack store style (.symbol id) := by
        intro levels _ _
        exact reads_token (Token.solid_symbolChars spelled escape) fun _ =>
          Token.read_symbolChars coherent spelled escape
      exact ⟨reads, reads.asTail rfl⟩
  | last line _ readsCar => exact readsCar.1.cell line readsBackTail_null
  | cons line _ _ readsCar readsCdr => exact readsCar.1.cell line readsCdr.2
  | vec line _ readsEach =>
      have reads := readsBack_vec line fun item member => (readsEach item member).1
      exact ⟨reads, reads.asTail rfl⟩

/-- Reading undoes printing.  Whatever was done to the store, a datum with a readable form that
is not cut short by the printer is the one datum of its printed text: it comes back with the same
symbols, nothing of the text is left, and no symbol is made. -/
theorem reading_undoes_printing (reachable : store.Reachable) (readable : datum.Readable store)
    (style : PrintStyle) (escape : style.escape = true) (deep : datum.nesting ≤ style.maxDepth)
    (long : datum.width ≤ style.maxLength) (file : String) :
    ∃ read : Datum, read.unlocated = datum.unlocated ∧
      next .standard style.package store 1 (datum.print store style).toList =
        .datum read [] 1 store ∧
      readAll .standard style.package file store (datum.print store style) =
        ⟨[⟨read, 1⟩], none, store⟩ := by
  obtain ⟨read, sameRead, runs⟩ :=
    (readsBack_of_readable reachable.coherent escape readable).1 style.maxDepth deep long 1
  have first : next .standard style.package store 1 (datum.print store style).toList =
      .datum read [] 1 store := by
    have whole := runs [] [] rfl
    rw [List.append_nil] at whole
    rw [next, Datum.print, Printer.print, String.toList_ofList]
    exact whole
  exists read, sameRead, first
  cases text : (datum.print store style).toList with
  | nil =>
      rw [text] at first
      cases first
  | cons c rest =>
      rw [text] at first
      simp only [readAll, text, List.length_cons, readAtMost, first]
      rfl

/-- A store with a symbol that no other package sees, and a keyword. -/
def chartStore : SymbolStore :=
  (((SymbolStore.initial.addPackage "geo").2.internIn "x" 3).2.internKeyword "k").2

/-- A list that needs a qualified symbol, a keyword, a dot and an escaped line break. -/
def chart : Datum :=
  .cons none (.symbol 0) (.cons none (.symbol 1) (.vec none [.str "a\nb", .int (.fixnum (-5))]))

theorem chart_readable : chart.Readable chartStore := by
  have letters : ∀ c ∈ ['x', 'g', 'e', 'o', 'k'], ReadTable.standard.isDelimiter c = false ∧
      c ≠ '.' ∧ c ≠ '@' ∧ c ≠ ':' ∧ c ≠ '#' := by
    simp only [List.forall_mem_cons]
    exact ⟨by decide, by decide, by decide, by decide, by decide, nofun⟩
  have lettered : ∀ name ∈ ["x", "geo", "k"], ∀ c ∈ name.toList, c ∈ ['x', 'g', 'e', 'o', 'k'] := by
    simp
  have plain : ∀ name ∈ ["x", "geo", "k"], PlainName name := by
    intro name member
    constructor
    · rintro rfl
      simp at member
    · exact fun c isChar => (letters c (lettered name member c isChar)).1
    · exact fun c isChar => (letters c (lettered name member c isChar)).2
  have qualified : chartStore.Spelled 0 :=
    @SymbolStore.Spelled.plain chartStore 0 (.fresh "x" (some 3)) 3 "geo" (by decide +kernel)
      (by decide) rfl (plain "x" (by simp)) (by decide +kernel) (plain "geo" (by simp))
      (by decide +kernel) (by decide +kernel)
  have keyword : chartStore.Spelled 1 :=
    @SymbolStore.Spelled.keyword chartStore 1 (.fresh "k" (some PackageId.keyword))
      (by decide +kernel) rfl (by decide) (plain "k" (by simp)).unbroken
  apply Datum.Readable.cons none (.symbol qualified)
  apply Datum.Readable.cons none (.symbol keyword)
  apply Datum.Readable.vec none
  intro item member
  rcases List.mem_cons.mp member with rfl | later
  · exact .str _
  · rw [List.mem_singleton.mp later]
    exact .fixnum _

theorem reading_undoes_printing_of_chart :
    chartStore.Reachable ∧ chart.Readable chartStore ∧
      chart.print chartStore {} = "(geo@x :k . [\"a\\nb\" -5])" ∧
      ∃ read : Datum, read.unlocated = chart.unlocated ∧
        next .standard PackageId.user chartStore 1 (chart.print chartStore {}).toList =
          .datum read [] 1 chartStore ∧
        readAll .standard PackageId.user "notes" chartStore (chart.print chartStore {}) =
          ⟨[⟨read, 1⟩], none, chartStore⟩ := by
  have reachable : chartStore.Reachable :=
    .tail (.tail (.tail .refl (.addPackage _ "geo")) (.internIn _ "x" 3)) (.internKeyword _ "k")
  exact ⟨reachable, chart_readable, by decide +kernel,
    reading_undoes_printing reachable chart_readable {} rfl (by decide) (by decide) "notes"⟩

end Reader

end ObjectLisp
