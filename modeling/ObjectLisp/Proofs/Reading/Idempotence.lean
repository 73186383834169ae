import ObjectLisp.Proofs.Reading.Floats
import ObjectLisp.Proofs.Reading.Spelling

/-!
# Printing what was read

A text is read, printed, read again and printed again.  The two printed texts are
the same unless one of the symbols that were read has a text that means something
else: a number in another form, a symbol of another package, or a dot in a list.

The second datum need not be the first one.  What the printer cuts is read as a
symbol of three dots, an empty list as the symbol `null`, and a symbol with the
text of a number as the number.  What comes back is the text, so the induction is
on the text of a part: whatever waits for it, it is read as something with this
text, however many symbols are interned later.
-/

namespace ObjectLisp

namespace Datum

/-- Is the datum a symbol that is written as a lone dot? -/
def isDot (store : SymbolStore) (style : PrintStyle) : Datum → Bool
  | symbol id => Printer.symbolChars store style id = ['.']
  | _ => false

mutual

/-- Does every symbol of the datum have a text that is read as something with this text?  A lone
dot has none as an element of a list. -/
def steady (store : SymbolStore) (style : PrintStyle) : Datum → Bool
  | symbol id => Token.steady (Printer.symbolChars store style id)
  | cons _ car cdr => !car.isDot store style && car.steady store style && cdr.steady store style
  | vec _ items => steadyAll store style items
  | _ => true

/-- Are all of the data steady? -/
def steadyAll (store : SymbolStore) (style : PrintStyle) : List Datum → Bool
  | [] => true
  | item :: items => item.steady store style && steadyAll store style items

end

theorem chain_concat_of_ne_nil {items : List Datum} (nonempty : items ≠ []) (line : Option Nat)
    (item tail : Datum) :
    chain line (items ++ [item]) tail = chain line items (cons none item tail) := by
  obtain ⟨first, rest, rfl⟩ := List.exists_cons_of_ne_nil nonempty
  rw [List.cons_append, chain, chain_concat, chain]

end Datum

namespace Reader

open SymbolStore

variable {origin store : SymbolStore} {style : PrintStyle} {levels : Nat} {datum : Datum}

/-- Reading led from one elementary store to another, and from there on the text is written. -/
structure Settles (before after : SymbolStore) (write : SymbolStore → List Char)
    (text : List Char) : Prop where
  elementary : after.Elementary
  keeps : before.Keeps after
  writes : ∀ {later : SymbolStore}, later.Elementary → after.Keeps later → write later = text

/-- The text of a part is read as something with this text, in front of whatever ends a token and
for whatever form waits for it, except that a lone dot is no element of a list. -/
def Restates (origin : SymbolStore) (style : PrintStyle) (levels : Nat) (datum : Datum) : Prop :=
  ∀ store : SymbolStore, store.Elementary → ∀ line, ∃ (read : Datum) (after : SymbolStore),
    Settles store after (Printer.chars · style Datum.shape levels read)
      (Printer.chars origin style Datum.shape levels datum) ∧
    (datum.isListEnd = false → read.isListEnd = false) ∧
    ∀ (pending : List Pending) (rest : List Char),
      (datum.isDot origin style = true → ∀ start items outer,
        pending ≠ .list start items :: outer) →
      endsToken .standard rest.head? = true →
      run .standard PackageId.user { pending, line, symbols := store }
          (Printer.chars origin style Datum.shape levels datum ++ rest) =
        resume .standard PackageId.user rest (deliver line after read pending)

/-! ## Words and other atoms -/

section

variable (escape : style.escape = true) (inUser : style.package = PackageId.user)
include escape inUser

/-- A steady word is read as an atom with this text. -/
theorem run_word (elementary : store.Elementary) {word : List Char} (isWord : Token.Word word)
    (isSteady : Token.steady word = true) (line : Nat) :
    ∃ (read : Datum) (after : SymbolStore),
      (∀ levels, Settles store after (Printer.chars · style Datum.shape (levels + 1) read) word) ∧
      read.isListEnd = false ∧
      ∀ (pending : List Pending) (rest : List Char),
        (word = ['.'] → ∀ start items outer, pending ≠ .list start items :: outer) →
        endsToken .standard rest.head? = true →
        run .standard PackageId.user { pending, line, symbols := store } (word ++ rest) =
          resume .standard PackageId.user rest (deliver line after read pending) := by
  obtain ⟨read, after, result, known, keeps, apart, writes⟩ :=
    Token.read_steady escape inUser elementary isWord isSteady line
  refine ⟨read, after, fun levels => ⟨known, keeps, ?_⟩, apart, ?_⟩
  · intro later elementary keepsLater
    exact writes later elementary keepsLater levels
  · intro pending rest alone ends
    obtain ⟨first, others, rfl⟩ := List.exists_cons_of_ne_nil isWord.nonempty
    have unhashed : first ≠ '#' := by
      rintro rfl
      simp [Token.steady] at isSteady
    have constituent := ReadTable.constituent_of_not_delimiter
      (isWord.unbroken first List.mem_cons_self) unhashed
    exact run_token constituent isWord.unbroken result alone ends

/-- What is written in place of something else is a steady word. -/
theorem run_ellipsis (elementary : store.Elementary) (line : Nat) :
    ∃ (read : Datum) (after : SymbolStore),
      (∀ levels, Settles store after (Printer.chars · style Datum.shape levels read)
        Printer.ellipsis) ∧
      read.isListEnd = false ∧
      ∀ (pending : List Pending) (rest : List Char), endsToken .standard rest.head? = true →
        run .standard PackageId.user { pending, line, symbols := store }
            (Printer.ellipsis ++ rest) =
          resume .standard PackageId.user rest (deliver line after read pending) := by
  have isWord : Token.Word Printer.ellipsis := .of_check (by decide +kernel)
  obtain ⟨read, after, settles, apart, runs⟩ :=
    run_word escape inUser elementary isWord (by decide +kernel) line
  refine ⟨read, after, fun levels => ?_, apart, fun pending rest => runs pending rest nofun⟩
  cases levels with
  | zero => exact ⟨(settles 0).elementary, (settles 0).keeps, fun _ _ => rfl⟩
  | succ levels => exact settles levels

theorem restates_cut (datum : Datum) : Restates origin style 0 datum := by
  intro store elementary line
  obtain ⟨read, after, settles, apart, runs⟩ := run_ellipsis escape inUser elementary line
  exact ⟨read, after, settles 0, fun _ => apart, fun pending rest _ => runs pending rest⟩

/-- What is written as a steady word is read as something with this text. -/
theorem restates_word {word : List Char} (isWord : Token.Word word)
    (isSteady : Token.steady word = true)
    (written : Printer.chars origin style Datum.shape (levels + 1) datum = word)
    (lone : word = ['.'] → datum.isDot origin style = true) :
    Restates origin style (levels + 1) datum := by
  intro store elementary line
  obtain ⟨read, after, settles, apart, runs⟩ :=
    run_word escape inUser elementary isWord isSteady line
  rw [written]
  exact ⟨read, after, settles levels, fun _ => apart, fun pending rest alone =>
    runs pending rest fun isDot => alone (lone isDot)⟩

theorem restates_symbol (known : origin.Elementary) {id : SymbolId}
    (isSteady : (Datum.symbol id).steady origin style = true) :
    Restates origin style (levels + 1) (.symbol id) := by
  have isWord : Token.Word (Printer.symbolChars origin style id) := by
    cases atSymbol : origin.symbol? id with
    | none =>
        have marked : (Printer.symbolChars origin style id).head? = some '#' := by
          simp [Printer.symbolChars, atSymbol]
        simp [Datum.steady, Token.steady, marked] at isSteady
    | some found =>
        obtain ⟨home, interned, inside, spelled⟩ := known.spelled atSymbol
        rwa [known.symbolChars_eq escape inUser inside ⟨found, atSymbol, rfl, interned⟩]
  exact restates_word escape inUser isWord isSteady rfl fun isDot => by
    simpa [Datum.isDot] using isDot

theorem restates_null : Restates origin style (levels + 1) .null := by
  have isWord : Token.Word "null".toList := .of_check (by decide +kernel)
  have undotted : "null".toList ≠ ['.'] := by decide
  exact restates_word escape inUser isWord (by decide +kernel) rfl fun isDot =>
    absurd isDot undotted

end

/-- A number is read as a number with its text. -/
theorem restates_number {text : List Char} {atom : Datum} (solid : Solid text)
    (written : Printer.chars origin style Datum.shape (levels + 1) datum = text)
    (read : ∀ store line, Token.read PackageId.user line text store = .ok atom store)
    (apart : atom.isListEnd = false)
    (writes : ∀ later, Printer.chars later style Datum.shape (levels + 1) atom = text) :
    Restates origin style (levels + 1) datum := by
  intro store elementary line
  exists atom, store
  rw [written]
  constructor
  · exact ⟨elementary, .refl store, fun _ _ => writes _⟩
  · constructor
    · exact fun _ => apart
    · intro pending rest _ ends
      obtain ⟨⟨first, others, rfl, undotted, constituent⟩, unbroken⟩ := solid
      exact run_token constituent unbroken (read store line) (by simp [undotted]) ends

theorem restates_int (value : Integer) : Restates origin style (levels + 1) (.int value) := by
  have same : (Integer.ofInt value.toInt).toChars = value.toChars := by
    rw [Integer.toChars, Integer.toInt_ofInt, Integer.toChars]
  have read : ∀ store line, Token.read PackageId.user line value.toChars store =
      .ok (.int (.ofInt value.toInt)) store := by
    intro store line
    unfold Token.read
    rw [Integer.toChars, Integer.ofToken?_decimal]
    rfl
  exact restates_number (Token.solid_integer value) rfl read rfl fun _ => same

/-- The texts of infinities and of what is not a number are words. -/
theorem restates_float (escape : style.escape = true) (inUser : style.package = PackageId.user)
    (value : Float) : Restates origin style (levels + 1) (.float value) := by
  cases decoded : Binary64.decode value.toBits with
  | some parts =>
      obtain ⟨solid, reads⟩ := Decimal.finite_reads .printer decoded
      exact restates_number solid rfl (fun store line => Token.read_float reads line store) rfl
        fun _ => rfl
  | none =>
      have isWord : Token.Word (Decimal.toChars .printer value) ∧
          Token.steady (Decimal.toChars .printer value) = true ∧
          Decimal.toChars .printer value ≠ ['.'] := by
        simp only [Decimal.toChars, decoded]
        split
        · exact ⟨.of_check (by decide +kernel), by decide +kernel, by decide⟩
        · split
          · exact ⟨.of_check (by decide +kernel), by decide +kernel, by decide⟩
          · exact ⟨.of_check (by decide +kernel), by decide +kernel, by decide⟩
      obtain ⟨word, isSteady, undotted⟩ := isWord
      exact restates_word escape inUser word isSteady rfl fun isDot => absurd isDot undotted

theorem restates_str (escape : style.escape = true) (text : String) :
    Restates origin style (levels + 1) (.str text) := by
  intro store elementary line
  have quoted : ∀ later, Printer.chars later style Datum.shape (levels + 1) (.str text) =
      Printer.quoted text.toList := by
    intro later
    simp only [Printer.chars, Printer.layer, Datum.shape, escape, if_true]
  exists .str text, store
  constructor
  · exact ⟨elementary, .refl store, fun {later} _ _ => (quoted later).trans (quoted origin).symm⟩
  · constructor
    · exact fun _ => rfl
    · intro pending rest _ _
      rw [quoted]
      exact run_quoted text pending rest

/-! ## Lists -/

/-- The text of the rest of a list is read as the rest of a list with this text. -/
def RestatesTail (origin : SymbolStore) (style : PrintStyle) (levels room : Nat) (datum : Datum) :
    Prop :=
  ∀ store : SymbolStore, store.Elementary → ∀ line start items, items ≠ [] →
    ∃ (tail : Datum) (after : SymbolStore),
      Settles store after
        (fun later => Printer.listChars Datum.shape (Printer.chars later style Datum.shape levels)
          room false tail)
        (Printer.listChars Datum.shape (Printer.chars origin style Datum.shape levels) room false
          datum) ∧
      ∀ (outer : List Pending) (rest : List Char),
        run .standard PackageId.user
            { pending := .list start items :: outer, line, symbols := store }
            (Printer.listChars Datum.shape (Printer.chars origin style Datum.shape levels) room
              false datum ++ ')' :: rest) =
          resume .standard PackageId.user rest
            (deliver line after (.chain (some start) items.reverse tail) outer)

theorem restatesTail_null (room : Nat) : RestatesTail origin style levels room .null := by
  intro store elementary line start items _
  have empty : ∀ write, Printer.listChars Datum.shape write room false .null = [] := by
    intro write
    cases room <;> rfl
  exists .null, store
  constructor
  · exact ⟨elementary, .refl store, fun _ _ => (empty _).trans (empty _).symm⟩
  · intro outer rest
    rw [empty]
    exact run_close rest (.inl rfl) rfl

/-- What is no list ends one behind a dot. -/
theorem Restates.asTail (restates : Restates origin style levels datum)
    (notList : datum.isListEnd = false) (room : Nat) :
    RestatesTail origin style levels room datum := by
  intro store elementary line start items nonempty
  obtain ⟨last, after, settles, apart, runs⟩ := restates store elementary line
  exists last, after
  constructor
  · constructor
    · exact settles.elementary
    · exact settles.keeps
    · intro later known keeps
      rw [listChars_dotted _ _ (apart notList), listChars_dotted _ _ notList,
        settles.writes known keeps]
  · intro outer rest
    rw [listChars_dotted _ _ notList]
    simp only [List.cons_append]
    rw [run_dot start outer _ nonempty, runs _ (')' :: rest) (by simp) rfl]
    exact run_close rest (.inl rfl) rfl

/-- A list that is cut ends in three dots, which are read as its last element. -/
theorem restatesTail_cut (escape : style.escape = true) (inUser : style.package = PackageId.user)
    (line : Option Nat) (car cdr : Datum) :
    RestatesTail origin style levels 0 (.cons line car cdr) := by
  intro store elementary line start items nonempty
  obtain ⟨dots, after, settles, _, runs⟩ := run_ellipsis escape inUser elementary line
  exists .cons none dots .null, after
  constructor
  · exact ⟨(settles 0).elementary, (settles 0).keeps, fun _ _ => rfl⟩
  · intro outer rest
    simp only [Printer.listChars, Datum.shape, Printer.lengthEllipsis, List.cons_append]
    rw [run_blank, runs _ (')' :: rest) rfl, ← Datum.chain_concat_of_ne_nil (by simpa using nonempty),
      ← List.reverse_cons]
    exact run_close rest (.inl rfl) rfl

/-- The text of an element and of the rest is read as an element and a rest with this text. -/
theorem Restates.thenTail {car cdr : Datum} {room : Nat} (restates : Restates origin style levels car)
    (undotted : car.isDot origin style = false)
    (restatesTail : RestatesTail origin style levels room cdr) (elementary : store.Elementary)
    (line start : Nat) (items : List Datum) :
    ∃ (head tail : Datum) (after : SymbolStore),
      Settles store after
        (fun later => Printer.chars later style Datum.shape levels head ++
          Printer.listChars Datum.shape (Printer.chars later style Datum.shape levels)
            room false tail)
        (Printer.chars origin style Datum.shape levels car ++
          Printer.listChars Datum.shape (Printer.chars origin style Datum.shape levels) room false
            cdr) ∧
      ∀ (outer : List Pending) (rest : List Char),
        run .standard PackageId.user
            { pending := .list start items :: outer, line, symbols := store }
            (Printer.chars origin style Datum.shape levels car ++
              (Printer.listChars Datum.shape (Printer.chars origin style Datum.shape levels) room
                false cdr ++ ')' :: rest)) =
          resume .standard PackageId.user rest
            (deliver line after (.chain (some start) (items.reverse ++ [head]) tail) outer) := by
  obtain ⟨head, middle, settlesHead, _, runsHead⟩ := restates store elementary line
  obtain ⟨tail, after, settlesTail, runsTail⟩ :=
    restatesTail middle settlesHead.elementary line start (head :: items) (List.cons_ne_nil _ _)
  exists head, tail, after
  constructor
  · constructor
    · exact settlesTail.elementary
    · exact settlesHead.keeps.trans settlesTail.keeps
    · intro later known keeps
      rw [settlesHead.writes known (settlesTail.keeps.trans keeps), settlesTail.writes known keeps]
  · intro outer rest
    rw [runsHead _ _ (by simp [undotted]) (ends_listChars _ _ _ _), ← List.reverse_cons]
    exact runsTail outer rest

section

variable (escape : style.escape = true) (inUser : style.package = PackageId.user)
  (each : ∀ part : Datum, part.steady origin style = true → Restates origin style levels part)
include escape inUser each

theorem restatesTail_of_steady (room : Nat) (isSteady : datum.steady origin style = true) :
    RestatesTail origin style levels room datum := by
  induction room generalizing datum with
  | zero =>
      cases datum with
      | null => exact restatesTail_null 0
      | cons line car cdr => exact restatesTail_cut escape inUser line car cdr
      | _ => exact (each _ isSteady).asTail rfl 0
  | succ room restatesRest =>
      cases datum with
      | null => exact restatesTail_null (room + 1)
      | cons line car cdr =>
          simp only [Datum.steady, Bool.and_eq_true, Bool.not_eq_true'] at isSteady
          obtain ⟨⟨undotted, steadyCar⟩, steadyCdr⟩ := isSteady
          intro store elementary line start items nonempty
          obtain ⟨head, tail, after, settles, runs⟩ := (each car steadyCar).thenTail undotted
            (restatesRest steadyCdr) elementary line start items
          exists .cons none head tail, after
          constructor
          · constructor
            · exact settles.elementary
            · exact settles.keeps
            · intro later known keeps
              simpa [Printer.listChars, Datum.shape] using settles.writes known keeps
          · intro outer rest
            rw [← Datum.chain_concat_of_ne_nil (by simpa using nonempty), ← runs outer rest]
            simp only [Printer.listChars, Datum.shape, List.cons_append, List.nil_append,
              List.append_assoc, if_false, Bool.false_eq_true]
            exact run_blank _ _
      | _ => exact (each _ isSteady).asTail rfl (room + 1)

theorem restates_cons {opened : Option Nat} {car cdr : Datum}
    (isSteady : (Datum.cons opened car cdr).steady origin style = true) :
    Restates origin style (levels + 1) (.cons opened car cdr) := by
  intro store elementary line
  cases roomy : style.maxLength with
  | zero =>
      obtain ⟨dots, after, settles, _, runs⟩ := run_ellipsis escape inUser elementary line
      have cut : ∀ later opened car cdr, Printer.chars later style Datum.shape (levels + 1)
          (.cons opened car cdr) = '(' :: ' ' :: Printer.ellipsis ++ [')'] := by
        intro later opened car cdr
        rw [Printer.chars, Printer.layer]
        simp only [Datum.shape, roomy]
        rfl
      exists .cons (some line) dots .null, after
      rw [cut]
      constructor
      · exact ⟨(settles 0).elementary, (settles 0).keeps, fun _ _ => cut _ _ _ _⟩
      · constructor
        · intro goesOn
          cases goesOn
        · intro pending rest _ _
          simp only [List.cons_append, List.append_assoc, List.nil_append]
          rw [run_openList, run_blank, runs _ (')' :: rest) rfl]
          exact run_close rest (.inl rfl) rfl
  | succ room =>
      simp only [Datum.steady, Bool.and_eq_true, Bool.not_eq_true'] at isSteady
      obtain ⟨⟨undotted, steadyCar⟩, steadyCdr⟩ := isSteady
      have restatesCdr := restatesTail_of_steady escape inUser each room steadyCdr
      obtain ⟨head, tail, after, settles, runs⟩ :=
        (each car steadyCar).thenTail undotted restatesCdr elementary line line []
      have written : ∀ later opened car cdr, Printer.chars later style Datum.shape (levels + 1)
          (.cons opened car cdr) = '(' :: (Printer.chars later style Datum.shape levels car ++
            Printer.listChars Datum.shape (Printer.chars later style Datum.shape levels) room false
              cdr) ++ [')'] := by
        intro later opened car cdr
        rw [Printer.chars, Printer.layer]
        simp only [Datum.shape, roomy]
        rfl
      exists .cons (some line) head tail, after
      rw [written]
      constructor
      · constructor
        · exact settles.elementary
        · exact settles.keeps
        · intro later known keeps
          rw [written, settles.writes known keeps]
      · constructor
        · intro goesOn
          cases goesOn
        · intro pending rest _ _
          simp only [List.cons_append, List.append_assoc, List.nil_append]
          rw [run_openList, runs pending rest]
          rfl

/-! ## Vectors -/

theorem restates_items (room : Nat) {items : List Datum}
    (areSteady : Datum.steadyAll origin style items = true) (elementary : store.Elementary)
    (line start : Nat) (taken : List Datum) (first : Bool) :
    ∃ (read : List Datum) (after : SymbolStore),
      Settles store after
        (fun later => Printer.vectorChars (Printer.chars later style Datum.shape levels) room first
          read)
        (Printer.vectorChars (Printer.chars origin style Datum.shape levels) room first items) ∧
      ∀ (outer : List Pending) (rest : List Char),
        run .standard PackageId.user
            { pending := .vector start taken :: outer, line, symbols := store }
            (Printer.vectorChars (Printer.chars origin style Datum.shape levels) room first items ++
              ']' :: rest) =
          resume .standard PackageId.user rest
            (deliver line after (.vec (some start) (taken.reverse ++ read)) outer) := by
  induction items generalizing room store taken first with
  | nil =>
      exists [], store
      constructor
      · exact ⟨elementary, .refl store, fun _ _ => by rw [Printer.vectorChars, Printer.vectorChars]⟩
      · intro outer rest
        rw [Printer.vectorChars, List.append_nil]
        exact run_close rest (.inr rfl) rfl
  | cons item items restatesRest =>
      cases room with
      | zero =>
          obtain ⟨dots, after, settles, _, runs⟩ := run_ellipsis escape inUser elementary line
          exists [dots], after
          constructor
          · exact ⟨(settles 0).elementary, (settles 0).keeps, fun _ _ => rfl⟩
          · intro outer rest
            simp only [Printer.vectorChars, Printer.lengthEllipsis, List.cons_append]
            rw [run_blank, runs _ (']' :: rest) rfl, ← List.reverse_cons]
            exact run_close rest (.inr rfl) rfl
      | succ room =>
          simp only [Datum.steadyAll, Bool.and_eq_true] at areSteady
          obtain ⟨steadyItem, steadyItems⟩ := areSteady
          obtain ⟨head, middle, settlesHead, _, runsHead⟩ := each item steadyItem store elementary line
          obtain ⟨others, after, settlesRest, runsRest⟩ :=
            restatesRest room steadyItems settlesHead.elementary (head :: taken) false
          exists head :: others, after
          constructor
          · constructor
            · exact settlesRest.elementary
            · exact settlesHead.keeps.trans settlesRest.keeps
            · intro later known keeps
              rw [Printer.vectorChars, Printer.vectorChars,
                settlesHead.writes known (settlesRest.keeps.trans keeps),
                settlesRest.writes known keeps]
          · intro outer rest
            rw [Printer.vectorChars, List.append_assoc, List.append_assoc, run_separator,
              runsHead _ _ (by simp) (ends_vectorChars _ _ _ _)]
            have moved := runsRest outer rest
            rw [List.reverse_cons, List.append_assoc] at moved
            exact moved

theorem restates_vec {opened : Option Nat} {items : List Datum}
    (areSteady : Datum.steadyAll origin style items = true) :
    Restates origin style (levels + 1) (.vec opened items) := by
  intro store elementary line
  obtain ⟨read, after, settles, runs⟩ := restates_items escape inUser each style.maxLength areSteady
    elementary line line [] true
  have written : ∀ later opened items, Printer.chars later style Datum.shape (levels + 1)
      (.vec opened items) = '[' :: Printer.vectorChars (Printer.chars later style Datum.shape levels)
        style.maxLength true items ++ [']'] :=
    fun _ _ _ => rfl
  exists .vec (some line) read, after
  rw [written]
  constructor
  · constructor
    · exact settles.elementary
    · exact settles.keeps
    · intro later known keeps
      rw [written, settles.writes known keeps]
  · constructor
    · exact fun _ => rfl
    · intro pending rest _ _
      simp only [List.cons_append, List.append_assoc, List.nil_append]
      rw [run_openVector, runs pending rest, List.reverse_nil, List.nil_append]

end

/-! ## Every steady datum -/

theorem restates_of_steady (escape : style.escape = true)
    (inUser : style.package = PackageId.user) (known : origin.Elementary) (levels : Nat)
    (isSteady : datum.steady origin style = true) : Restates origin style levels datum := by
  induction levels generalizing datum with
  | zero => exact restates_cut escape inUser datum
  | succ levels restatesParts =>
      have each : ∀ part : Datum, part.steady origin style = true →
          Restates origin style levels part :=
        fun part steadyPart => restatesParts steadyPart
      cases datum with
      | null => exact restates_null escape inUser
      | int value => exact restates_int value
      | float value => exact restates_float escape inUser value
      | str text => exact restates_str escape text
      | symbol id => exact restates_symbol escape inUser known isSteady
      | cons line car cdr => exact restates_cons escape inUser each isSteady
      | vec line items =>
          have areSteady : Datum.steadyAll origin style items = true := by
            rwa [Datum.steady] at isSteady
          exact restates_vec escape inUser each areSteady

/-- Reading the printed text of what was read, and printing it again, gives the same text, unless
a symbol of it has a text that means something else. -/
theorem reprinting_changes_nothing {text rest : List Char} {line : Nat}
    (first : next .standard PackageId.user .initial 1 text = .datum datum rest line store)
    (escape : style.escape = true) (inUser : style.package = PackageId.user)
    (isSteady : datum.steady store style = true) :
    ∃ (again : Datum) (after : SymbolStore),
      next .standard PackageId.user store 1 (datum.print store style).toList =
        .datum again [] 1 after ∧
      again.print after style = datum.print store style := by
  have known : store.Elementary := by
    have elementary := next_elementary elementary_initial 1 text
    rwa [first] at elementary
  obtain ⟨again, after, settles, _, runs⟩ :=
    restates_of_steady escape inUser known (style.maxDepth + 1) isSteady store known 1
  exists again, after
  constructor
  · have whole := runs [] [] (by simp) rfl
    rw [List.append_nil] at whole
    rw [next, Datum.print, Printer.print, String.toList_ofList]
    exact whole
  · rw [Datum.print, Datum.print, Printer.print, Printer.print,
      settles.writes settles.elementary (.refl after)]

/-- A quoted list with member access, a float that is written in another form, and an empty list. -/
def sampleText : List Char :=
  ['\'', '(', 'a', '.', 'b', ' ', '1', '.', '5', '0', ' ', '.', ' ', '[', ':', 'k', ' ', '(', ')',
    ']', ')', ' ', 'z']

theorem reprinting_changes_nothing_of_sample :
    ∃ (datum again : Datum) (store after : SymbolStore),
      next .standard PackageId.user .initial 1 sampleText = .datum datum [' ', 'z'] 1 store ∧
      datum.steady store {} = true ∧
      datum.print store {} = "(system@quote ((.b a) 1.5 . [:k null]))" ∧
      next .standard PackageId.user store 1 (datum.print store {}).toList =
        .datum again [] 1 after ∧
      again.print after {} = datum.print store {} := by
  have facts : (match next .standard PackageId.user .initial 1 sampleText with
      | .datum datum rest line store => rest = [' ', 'z'] && line = 1 && datum.steady store {} &&
          datum.print store {} = "(system@quote ((.b a) 1.5 . [:k null]))"
      | _ => false) = true := by
    decide +kernel
  split at facts
  · next datum rest line store first =>
      simp only [Bool.and_eq_true, decide_eq_true_eq] at facts
      obtain ⟨⟨⟨rfl, rfl⟩, isSteady⟩, printed⟩ := facts
      obtain ⟨again, after, second, same⟩ := reprinting_changes_nothing first rfl rfl isSteady
      exact ⟨datum, again, store, after, first, isSteady, printed, second, same⟩
  · cases facts

/-- The accessor of a member whose name is a number is read back as a float. -/
theorem reprinting_changes_accessor :
    ∃ (datum again : Datum) (store after : SymbolStore),
      next .standard PackageId.user .initial 1 ['a', '.', '1'] = .datum datum [] 1 store ∧
      datum.print store {} = "(.1 a)" ∧
      next .standard PackageId.user store 1 (datum.print store {}).toList =
        .datum again [] 1 after ∧
      again.print after {} = "(0.1 a)" := by
  have facts : (match next .standard PackageId.user .initial 1 ['a', '.', '1'] with
      | .datum datum rest line store => rest = [] && line = 1 && datum.print store {} = "(.1 a)" &&
          match next .standard PackageId.user store 1 (datum.print store {}).toList with
          | .datum again rest line after =>
              rest = [] && line = 1 && again.print after {} = "(0.1 a)"
          | _ => false
      | _ => false) = true := by
    decide +kernel
  split at facts
  · next datum rest line store first =>
      simp only [Bool.and_eq_true, decide_eq_true_eq] at facts
      obtain ⟨⟨⟨rfl, rfl⟩, printed⟩, facts⟩ := facts
      split at facts
      · next again rest line after second =>
          simp only [Bool.and_eq_true, decide_eq_true_eq] at facts
          obtain ⟨⟨rfl, rfl⟩, reprinted⟩ := facts
          exact ⟨datum, again, store, after, first, printed, second, reprinted⟩
      · cases facts
  · cases facts

end Reader

end ObjectLisp
