import ObjectLisp.Printer
import ObjectLisp.Proofs.Symbols.Identity
import ObjectLisp.ReadTable
import ObjectLisp.Reader.Token

/-!
# Printed atoms are tokens

Integers and symbols are printed as tokens, and a token has no marks that say
which of the two it is.  A printed integer reads back because no symbol can have
its spelling.  A printed symbol reads back if its name is not taken for a number
or for a chain of member accesses, and if the lookup that decides whether a
package is written in front of it is the lookup of the reader.
-/

namespace ObjectLisp

/-! ## Integers -/

namespace Integer

theorem isDigit_of_mem_ofNat {n : Nat} {c : Char} (member : c ∈ Digits.ofNat n) :
    isDigit c = true := by
  rw [Digits.ofNat_eq] at member
  exact Nat.isDigit_of_mem_toDigits (by decide) (by decide) member

theorem ofDigits_ofNat (n : Nat) : ofDigits (Digits.ofNat n) = n := by
  rw [Digits.ofNat_eq]
  exact Nat.ofDigitChars_toDigits (by decide) (by decide)

/-- Digits are read as the number they write, whatever the sign in front of them. -/
theorem ofToken?_of_split {token digits : List Char} (negative : Bool) (nonempty : digits ≠ [])
    (decimal : ∀ c ∈ digits, isDigit c = true) (split : splitSign token = (negative, digits)) :
    ofToken? token =
      some (ofInt (if negative then -(ofDigits digits : Int) else ofDigits digits)) := by
  unfold ofToken?
  simp only [split, List.isEmpty_eq_false_iff.mpr nonempty, List.all_eq_true.mpr decimal]
  rfl

theorem ofToken?_digits {token : List Char} (negative : Bool) (n : Nat)
    (split : splitSign token = (negative, Digits.ofNat n)) :
    ofToken? token = some (ofInt (if negative then -(n : Int) else n)) := by
  have nonempty : Digits.ofNat n ≠ [] := by
    rw [Digits.ofNat_eq]
    exact Nat.toDigits_ne_nil
  rw [ofToken?_of_split negative nonempty (fun _ => isDigit_of_mem_ofNat) split, ofDigits_ofNat]

theorem splitSign_of_digit {first : Char} {rest : List Char} (digit : isDigit first = true) :
    splitSign (first :: rest) = (false, first :: rest) := by
  unfold splitSign
  split
  · next starts =>
      cases starts
      exact absurd digit (by decide)
  · next starts =>
      cases starts
      exact absurd digit (by decide)
  · rfl

theorem splitSign_ofNat (n : Nat) : splitSign (Digits.ofNat n) = (false, Digits.ofNat n) := by
  cases written : Digits.ofNat n with
  | nil => rfl
  | cons first rest =>
      exact splitSign_of_digit (isDigit_of_mem_ofNat (n := n) (by simp [written]))

theorem ofToken?_decimal (n : Int) : ofToken? (decimal n) = some (ofInt n) := by
  cases n with
  | ofNat n => exact ofToken?_digits false n (splitSign_ofNat n)
  | negSucc n => exact ofToken?_digits true (n + 1) rfl

theorem ofInt_toInt {n : Integer} (canonical : n.Canonical) : ofInt n.toInt = n := by
  cases n with
  | fixnum value =>
      have fits : Fits value.toInt := ⟨value.le_toInt, Int.le_of_lt_add_one value.toInt_lt⟩
      simp [ofInt, toInt, fits]
  | bignum value =>
      have large : ¬ Fits value := canonical
      simp [ofInt, toInt, large]

/-- The text of an integer reads back, representation included. -/
theorem ofToken?_toChars {n : Integer} (canonical : n.Canonical) : ofToken? n.toChars = some n := by
  rw [toChars, ofToken?_decimal, ofInt_toInt canonical]

end Integer

/-! ## Characters of a token -/

namespace ReadTable

theorem mem_classes {c : Char} {special : SyntaxClass} (here : standard.classOf c = special)
    (notDefault : special ≠ .constituent) : (c, special) ∈ standard.classes.entries := by
  unfold classOf at here
  split at here
  · next found => exact here ▸ Assoc.mem_of_findIn found
  · exact absurd here.symm notDefault

/-- Of the standard macro characters only the dispatch character can stand inside a token. -/
theorem eq_hash_of_nonterminating {c : Char} (here : standard.classOf c = .nonterminating) :
    c = '#' := by
  simpa [standard, standardMacros] using mem_classes here (by decide)

theorem constituent_of_not_delimiter {c : Char} (inside : standard.isDelimiter c = false)
    (unhashed : c ≠ '#') : standard.classOf c = .constituent := by
  unfold isDelimiter at inside
  split at inside
  · cases inside
  · cases inside
  · assumption
  · next here => exact absurd (eq_hash_of_nonterminating here) unhashed

/-- Numbers are written without special characters. -/
theorem constituent_of_numeric {c : Char} (numeric : Decimal.isNumeric c = true) :
    standard.classOf c = .constituent := by
  by_cases special : standard.classOf c = .constituent
  · exact special
  · have member := mem_classes rfl special
    have odd : ∀ entry ∈ standard.classes.entries, Decimal.isNumeric entry.1 = false := by decide
    rw [odd _ member] at numeric
    cases numeric

theorem not_delimiter_of_constituent {c : Char} (here : standard.classOf c = .constituent) :
    standard.isDelimiter c = false := by
  simp [isDelimiter, here]

end ReadTable

/-! ## Names -/

/-- A name that is read as it is written, with or without a package in front of it. -/
structure PlainName (name : String) : Prop where
  nonempty : name ≠ ""
  unbroken : ∀ c ∈ name.toList, ReadTable.standard.isDelimiter c = false
  unmarked : ∀ c ∈ name.toList, c ≠ '.' ∧ c ≠ '@' ∧ c ≠ ':' ∧ c ≠ '#'

/-- A text that the standard table takes for one token, and that is no dot between elements. -/
structure Solid (text : List Char) : Prop where
  starts : ∃ first rest, text = first :: rest ∧ first ≠ '.' ∧
    ReadTable.standard.classOf first = .constituent
  unbroken : ∀ c ∈ text, ReadTable.standard.isDelimiter c = false

theorem Solid.append {text more : List Char} (solid : Solid text)
    (unbroken : ∀ c ∈ more, ReadTable.standard.isDelimiter c = false) : Solid (text ++ more) := by
  obtain ⟨⟨first, rest, rfl, undotted, constituent⟩, unbrokenText⟩ := solid
  constructor
  · exact ⟨first, rest ++ more, rfl, undotted, constituent⟩
  · intro c member
    rcases List.mem_append.mp member with inText | inMore
    · exact unbrokenText c inText
    · exact unbroken c inMore

namespace PlainName

variable {name : String}

theorem toList_ne_nil (plain : PlainName name) : name.toList ≠ [] := by
  intro empty
  exact plain.nonempty (String.toList_eq_nil_iff.mp empty)

theorem starts (plain : PlainName name) : ∃ first rest, name.toList = first :: rest ∧
    first ≠ '.' ∧ first ≠ ':' ∧ ReadTable.standard.classOf first = .constituent := by
  obtain ⟨first, rest, split⟩ := List.exists_cons_of_ne_nil plain.toList_ne_nil
  have member : first ∈ name.toList := by simp [split]
  obtain ⟨undotted, _, uncoloned, unhashed⟩ := plain.unmarked first member
  exact ⟨first, rest, split, undotted, uncoloned,
    ReadTable.constituent_of_not_delimiter (plain.unbroken first member) unhashed⟩

theorem solid (plain : PlainName name) : Solid name.toList := by
  obtain ⟨first, rest, split, undotted, _, constituent⟩ := plain.starts
  exact ⟨⟨first, rest, split, undotted, constituent⟩, plain.unbroken⟩

theorem not_mem (plain : PlainName name) : '.' ∉ name.toList ∧ '@' ∉ name.toList := by
  constructor
  · intro dotted
    exact (plain.unmarked _ dotted).1 rfl
  · intro marked
    exact (plain.unmarked _ marked).2.1 rfl

end PlainName

namespace Token

theorem splitDots_of_not_mem {token : List Char} (undotted : '.' ∉ token) :
    splitDots token = [token] := by
  induction token with
  | nil => rfl
  | cons c rest splitRest =>
      simp only [List.mem_cons, not_or] at undotted
      simp [splitDots, Ne.symm undotted.1, splitRest undotted.2]

theorem memberParts?_of_not_mem {token : List Char} (undotted : '.' ∉ token) :
    memberParts? token = none := by
  cases token with
  | nil => rfl
  | cons first rest => simp [memberParts?, splitDots_of_not_mem undotted]

theorem memberParts?_keyword (rest : List Char) : memberParts? (':' :: rest) = none := by
  unfold memberParts?
  split
  · next starts _ =>
      cases starts
      simp
  · rfl

/-- A token with a character that no number has is not a number. -/
theorem not_number {token : List Char} {c : Char} (member : c ∈ token)
    (odd : Decimal.isNumeric c = false) :
    Integer.ofToken? token = none ∧ Decimal.ofToken? token = none := by
  constructor
  · have odd' : c ≠ '-' ∧ c ≠ '+' ∧ Integer.isDigit c = false := by
      simp only [Decimal.isNumeric, Bool.or_eq_false_iff, decide_eq_false_iff_not] at odd
      exact ⟨odd.1.1.1.2, odd.1.1.1.1.2, odd.1.1.1.1.1⟩
    have kept : c ∈ (Integer.splitSign token).2 := by
      unfold Integer.splitSign
      split <;> simp_all
    have mixed : (Integer.splitSign token).2.all Integer.isDigit = false :=
      List.all_eq_false.mpr ⟨c, kept, by simp [odd'.2.2]⟩
    simp [Integer.ofToken?, mixed]
  · have mixed : token.all Decimal.isNumeric = false :=
      List.all_eq_false.mpr ⟨c, member, by simp [odd]⟩
    simp [Decimal.ofToken?, mixed]

end Token

/-! ## Symbols -/

namespace Symbol

variable {name home : String}

theorem splitQualified?_of_not_mem (unmarked : '@' ∉ name.toList) :
    splitQualified? name = none := by
  have before : ∀ c ∈ name.toList, decide (c ≠ '@') = true := by
    intro c member
    simpa using fun same : c = '@' => unmarked (same ▸ member)
  have whole : name.toList.dropWhile (· ≠ '@') = [] := by
    rw [← List.append_nil name.toList, List.dropWhile_append_of_pos before, List.dropWhile_nil]
  simp only [splitQualified?, whole]
  simp

/-- The first mark divides a qualified name. -/
theorem splitQualified?_qualified (plainHome : PlainName home) (plain : PlainName name) :
    splitQualified? (String.ofList (home.toList ++ '@' :: name.toList)) = some (home, name) := by
  have before : ∀ c ∈ home.toList, decide (c ≠ '@') = true := by
    intro c member
    simpa using (plainHome.unmarked c member).2.1
  have nonempty := plain.toList_ne_nil
  have homeNonempty := plainHome.toList_ne_nil
  simp only [splitQualified?, String.toList_ofList, List.takeWhile_append_of_pos before,
    List.dropWhile_append_of_pos before]
  simp [nonempty, homeNonempty]

end Symbol

namespace SymbolStore

variable {store : SymbolStore} {name : String} {package : PackageId} {symbol : SymbolId}

theorem Coherent.findPackage?_of_name (coherent : store.Coherent)
    (named : store.packageName? package = some name) : store.findPackage? name = some package := by
  cases found : store.findPackage? name with
  | none => exact absurd named (findPackage?_eq_none_iff.mp found package)
  | some other =>
      obtain ⟨inside, sameName, _⟩ := Array.findIdx?_eq_some_iff_getElem.mp found
      have named' : store.packageName? other = some name := by
        simpa [packageName?, inside] using sameName
      rw [coherent.names named named']

/-- The symbol has a name under which it can be written: a keyword is told by its colon, any
other symbol by its name and that of its home package. -/
inductive Spelled (store : SymbolStore) (symbol : SymbolId) : Prop where
  | keyword {found : Symbol} (atSymbol : store.symbol? symbol = some found)
      (kind : found.kind = .keyword) (nonempty : found.name ≠ "")
      (unbroken : ∀ c ∈ found.name.toList, ReadTable.standard.isDelimiter c = false)
  | plain {found : Symbol} {home : PackageId} {homeName : String}
      (atSymbol : store.symbol? symbol = some found) (kind : found.kind ≠ .keyword)
      (interned : found.home = some home) (plain : PlainName found.name)
      (homeNamed : store.packageName? home = some homeName) (plainHome : PlainName homeName)
      (notInteger : Integer.ofToken? found.name.toList = none)
      (notFloat : Decimal.ofToken? found.name.toList = none)

end SymbolStore

namespace Token

variable {store : SymbolStore} {package : PackageId} {line : Nat}

/-- A token that is neither a number nor a chain of accesses is a symbol. -/
theorem read_of_not_number {token : List Char}
    (notNumber : Integer.ofToken? token = none ∧ Decimal.ofToken? token = none)
    (whole : memberParts? token = none) : read package line token = symbol package token := by
  simp [read, notNumber.1, notNumber.2, whole]

theorem read_integer {n : Integer} (canonical : n.Canonical) :
    read package line n.toChars store = .ok (.int n) store := by
  simp only [read, Integer.ofToken?_toChars canonical]
  rfl

theorem symbol_of_uncoloned {first : Char} {rest : List Char} (uncoloned : first ≠ ':') :
    symbol package (first :: rest) = intern package (first :: rest) := by
  funext symbols
  simp [symbol, keywordName?, uncoloned]

/-- A symbol is written by its name alone where its name denotes it, and behind the name of its
home package elsewhere. -/
theorem symbolChars_plain {id : SymbolId} {found : Symbol} {home : PackageId} {homeName : String}
    {style : PrintStyle} (escape : style.escape = true) (atSymbol : store.symbol? id = some found)
    (kind : found.kind ≠ .keyword) (interned : found.home = some home)
    (homeNamed : store.packageName? home = some homeName) :
    store.find? found.name style.package = some id ∧
        Printer.symbolChars store style id = found.name.toList ∨
      Printer.symbolChars store style id = homeName.toList ++ '@' :: found.name.toList := by
  have printed : Printer.symbolChars store style id =
      Printer.qualifier store style id found ++ found.name.toList := by
    simp only [Printer.symbolChars, atSymbol]
  rw [printed]
  by_cases denotes : store.find? found.name style.package = some id
  · left
    simp [Printer.qualifier, escape, interned, denotes]
  · right
    simp [Printer.qualifier, escape, interned, denotes, homeNamed]

theorem symbolChars_keyword {id : SymbolId} {found : Symbol} (style : PrintStyle)
    (atSymbol : store.symbol? id = some found) (kind : found.kind = .keyword) :
    Printer.symbolChars store style id = ':' :: found.name.toList := by
  simp [Printer.symbolChars, atSymbol, kind]

/-- The printed text of a symbol denotes it, and was interned before. -/
theorem read_symbolChars (coherent : store.Coherent) {id : SymbolId} (spelled : store.Spelled id)
    {style : PrintStyle} (escape : style.escape = true) :
    read style.package line (Printer.symbolChars store style id) store =
      .ok (.symbol id) store := by
  cases spelled with
  | @keyword found atSymbol kind nonempty unbroken =>
      have denotes : store.find? found.name PackageId.keyword = some id :=
        coherent.find?_of_owns ⟨found, atSymbol, rfl, (coherent.keyword atSymbol).mp kind⟩
      have coloned : ':' ∈ ':' :: found.name.toList := List.mem_cons_self
      rw [symbolChars_keyword style atSymbol kind,
        read_of_not_number (not_number coloned rfl) (memberParts?_keyword _)]
      have name : keywordName? (':' :: found.name.toList) = some found.name.toList := by
        obtain ⟨first, rest, split⟩ : ∃ first rest, found.name.toList = first :: rest :=
          List.exists_cons_of_ne_nil fun empty => nonempty (String.toList_eq_nil_iff.mp empty)
        rw [split]
        rfl
      simp only [symbol, name, String.ofList_toList, SymbolStore.internKeyword,
        SymbolStore.internIn_of_find? denotes]
  | @plain found home homeName atSymbol kind interned plain homeNamed plainHome notInteger
      notFloat =>
      rcases symbolChars_plain escape atSymbol kind interned homeNamed with
        ⟨denotes, printed⟩ | printed
      · obtain ⟨first, rest, split, _, uncoloned, _⟩ := plain.starts
        rw [printed, read_of_not_number ⟨notInteger, notFloat⟩
          (memberParts?_of_not_mem plain.not_mem.1), split, symbol_of_uncoloned uncoloned, ← split]
        simp only [intern, SymbolStore.intern, String.ofList_toList,
          Symbol.splitQualified?_of_not_mem plain.not_mem.2, SymbolStore.internIn_of_find? denotes]
      · have atHome : store.find? found.name home = some id :=
          coherent.find?_of_owns ⟨found, atSymbol, rfl, interned⟩
        have marked : '@' ∈ homeName.toList ++ '@' :: found.name.toList := by simp
        have undotted : '.' ∉ homeName.toList ++ '@' :: found.name.toList := by
          simp [plain.not_mem.1, plainHome.not_mem.1]
        rw [printed, read_of_not_number (not_number marked rfl) (memberParts?_of_not_mem undotted)]
        obtain ⟨first, rest, split, _, uncoloned, _⟩ := plainHome.starts
        rw [split, List.cons_append, symbol_of_uncoloned uncoloned, ← List.cons_append, ← split]
        simp only [intern, SymbolStore.intern, Symbol.splitQualified?_qualified plainHome plain,
          coherent.findPackage?_of_name homeNamed, SymbolStore.internIn_of_find? atHome]

/-! ## Printed atoms are solid -/

theorem numeric_of_mem_decimal {n : Int} {c : Char} (member : c ∈ Integer.decimal n) :
    Decimal.isNumeric c = true ∧ c ≠ '.' := by
  have ofDigit : Integer.isDigit c = true → Decimal.isNumeric c = true ∧ c ≠ '.' := by
    intro digit
    constructor
    · simp [Decimal.isNumeric, digit]
    · rintro rfl
      exact absurd digit (by decide)
  cases n with
  | ofNat n => exact ofDigit (Integer.isDigit_of_mem_ofNat member)
  | negSucc n =>
      rcases List.mem_cons.mp member with rfl | inDigits
      · exact ⟨rfl, by decide⟩
      · exact ofDigit (Integer.isDigit_of_mem_ofNat inDigits)

theorem decimal_ne_nil (n : Int) : Integer.decimal n ≠ [] := by
  cases n with
  | ofNat n =>
      rw [Integer.decimal, Digits.ofNat_eq]
      exact Nat.toDigits_ne_nil
  | negSucc n => exact List.cons_ne_nil _ _

theorem solid_integer (n : Integer) : Solid n.toChars := by
  constructor
  · obtain ⟨first, rest, split⟩ := List.exists_cons_of_ne_nil (decimal_ne_nil n.toInt)
    have member : first ∈ Integer.decimal n.toInt := by simp [split]
    obtain ⟨numeric, undotted⟩ := numeric_of_mem_decimal member
    exact ⟨first, rest, split, undotted, ReadTable.constituent_of_numeric numeric⟩
  · intro c member
    exact ReadTable.not_delimiter_of_constituent
      (ReadTable.constituent_of_numeric (numeric_of_mem_decimal member).1)

theorem solid_symbolChars {id : SymbolId} (spelled : store.Spelled id) {style : PrintStyle}
    (escape : style.escape = true) : Solid (Printer.symbolChars store style id) := by
  cases spelled with
  | @keyword found atSymbol kind nonempty unbroken =>
      rw [symbolChars_keyword style atSymbol kind]
      constructor
      · exact ⟨':', found.name.toList, rfl, by decide, rfl⟩
      · intro c member
        rcases List.mem_cons.mp member with rfl | inName
        · rfl
        · exact unbroken c inName
  | @plain found home homeName atSymbol kind interned plain homeNamed plainHome notInteger
      notFloat =>
      rcases symbolChars_plain escape atSymbol kind interned homeNamed with
        ⟨_, printed⟩ | printed
      · rw [printed]
        exact plain.solid
      · rw [printed]
        apply plainHome.solid.append
        intro c member
        rcases List.mem_cons.mp member with rfl | inName
        · rfl
        · exact plain.unbroken c inName

end Token

end ObjectLisp
