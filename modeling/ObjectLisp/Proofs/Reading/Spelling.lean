import ObjectLisp.Proofs.Reading.RoundTrip
import ObjectLisp.Proofs.Symbols.Arrangement
import ObjectLisp.Proofs.Symbols.Interning

/-!
# The symbols of a text

A text that is read with the first store interns symbols in its three packages
and exports none of them but the keywords.  In such a store the text of a symbol
depends on its name and its home alone: a keyword has its colon, a symbol of the
package `system` is qualified, and one of `user` is written by its name.

The names come from tokens.  So the text of a symbol is again one token, and it
is never a chain of member accesses.
-/

namespace ObjectLisp

/-! ## Words -/

namespace Token

/-- A text that the standard table takes for one token, and that is no chain of accesses. -/
structure Word (text : List Char) : Prop where
  nonempty : text ≠ []
  unbroken : ∀ c ∈ text, ReadTable.standard.isDelimiter c = false
  whole : memberParts? text = none

/-- Words can be told by computation. -/
theorem Word.of_check {text : List Char} (check : (!text.isEmpty &&
      text.all (fun c => !ReadTable.standard.isDelimiter c) && (memberParts? text).isNone) = true) :
    Word text := by
  simp only [Bool.and_eq_true, Bool.not_eq_true', List.isEmpty_eq_false_iff, List.all_eq_true,
    Option.isNone_iff_eq_none] at check
  exact ⟨check.1.1, check.1.2, check.2⟩

theorem splitDots_ne_nil (token : List Char) : splitDots token ≠ [] := by
  cases token with
  | nil => exact List.cons_ne_nil _ _
  | cons c rest =>
      unfold splitDots
      split
      · exact List.cons_ne_nil _ _
      · split <;> exact List.cons_ne_nil _ _

/-- Characters without a dot become part of the first part. -/
theorem splitDots_append {front : List Char} (undotted : '.' ∉ front) {token part : List Char}
    {parts : List (List Char)} (split : splitDots token = part :: parts) :
    splitDots (front ++ token) = (front ++ part) :: parts := by
  induction front with
  | nil => exact split
  | cons c front splitRest =>
      simp only [List.mem_cons, not_or] at undotted
      simp [splitDots, Ne.symm undotted.1, splitRest undotted.2]

/-- What follows a prefix without a dot is no chain if the whole is none. -/
theorem memberParts?_of_append {first : Char} {front token : List Char}
    (odd : first ≠ '.' ∧ first ≠ ':') (undotted : '.' ∉ front)
    (whole : memberParts? (first :: front ++ token) = none) : memberParts? token = none := by
  cases token with
  | nil => rfl
  | cons c rest =>
      cases split : splitDots (c :: rest) with
      | nil => exact absurd split (splitDots_ne_nil _)
      | cons part parts =>
          have splitWhole : splitDots (first :: front ++ c :: rest) =
              (first :: front ++ part) :: parts :=
            splitDots_append (by simp [undotted, Ne.symm odd.1]) split
          cases parts with
          | nil => simp [memberParts?, split]
          | cons member members =>
              rw [List.cons_append] at whole splitWhole
              simp only [memberParts?, splitWhole] at whole
              simp only [memberParts?, split]
              by_cases broken : (member :: members).any List.isEmpty = true
              · simp only [List.any_cons, broken, Bool.or_true, if_true]
              · simp [odd, broken] at whole

end Token

/-! ## Elementary stores -/

namespace SymbolStore

variable {store later : SymbolStore} {name : String} {package home : PackageId}
  {symbol : SymbolId}

/-- The text of a symbol by its home and name. -/
def spelling (home : PackageId) (name : String) : List Char :=
  if home = PackageId.keyword then ':' :: name.toList
  else if home = PackageId.system then "system".toList ++ '@' :: name.toList
  else name.toList

/-- A store with the three packages of the first one, of which only that of the keywords exports,
and with symbols whose texts are words. -/
structure Elementary (store : SymbolStore) : Prop where
  coherent : store.Coherent
  arranged : store.packages.map (fun package => (package.name, package.uses)) =
    initial.packages.map fun package => (package.name, package.uses)
  closed : ∀ name {package}, package ≠ PackageId.keyword → store.external? name package = none
  spelled : ∀ {symbol found}, store.symbol? symbol = some found →
    ∃ home, found.home = some home ∧ home < 3 ∧ Token.Word (spelling home found.name)

theorem coherent_initial : initial.Coherent :=
  Reachable.coherent .refl

theorem elementary_initial : initial.Elementary where
  coherent := coherent_initial
  arranged := rfl
  closed := by
    intro name package _
    match package with
    | 0 | 1 | 2 => rfl
    | _ + 3 => rfl
  spelled := by
    intro symbol found atSymbol
    simp [initial, symbol?] at atSymbol

namespace Elementary

theorem sameArrangement (elementary : store.Elementary) : initial.SameArrangement store :=
  elementary.arranged

theorem size (elementary : store.Elementary) : store.packages.size = 3 :=
  elementary.sameArrangement.size

/-- Nothing is inherited, since nothing is exported where it could be. -/
theorem find?_eq (elementary : store.Elementary) (name : String) (package : PackageId) :
    store.find? name package = store.present? name package := by
  have none : ∀ other ∈ store.inherited package, store.external? name other = none := by
    rw [elementary.sameArrangement.inherited_eq]
    intro other inherits
    apply elementary.closed
    rintro rfl
    exact keyword_not_mem_inherited package inherits
  unfold find?
  cases present : store.present? name package with
  | some symbol => rfl
  | none => exact List.findSome?_eq_none_iff.mpr none

theorem makeInterned (elementary : store.Elementary) (inside : package < 3)
    (absent : store.present? name package = none) (word : Token.Word (spelling package name)) :
    (store.makeInterned name package).2.Elementary := by
  have inPackages : package < store.packages.size := by
    rwa [elementary.size]
  constructor
  · exact (elementary.coherent.makeInterned inPackages absent).1
  · rw [← elementary.arranged]
    exact store.sameArrangement_makeInterned name package
  · intro other target proper
    rw [external?_makeInterned inPackages]
    split
    · next here => exact absurd (here.2.1.symm.trans here.2.2) proper
    · exact elementary.closed other proper
  · intro symbol found atSymbol
    unfold SymbolStore.makeInterned at atSymbol
    rw [symbol?_push] at atSymbol
    split at atSymbol
    · cases atSymbol
      exact ⟨package, rfl, inside, word⟩
    · exact elementary.spelled atSymbol

/-- Interning a name with a word for its text keeps a store elementary. -/
theorem internIn (elementary : store.Elementary) (inside : package < 3)
    (word : Token.Word (spelling package name)) :
    (store.internIn name package).2.Elementary ∧ store.Keeps (store.internIn name package).2 ∧
      (store.internIn name package).2.Owns package name (store.internIn name package).1 := by
  have inPackages : package < store.packages.size := by
    rwa [elementary.size]
  unfold SymbolStore.internIn
  rw [if_pos inPackages, elementary.find?_eq]
  cases present : store.present? name package with
  | some symbol => exact ⟨elementary, .refl store, elementary.coherent.present_iff.mp present⟩
  | none =>
      have made := elementary.coherent.makeInterned inPackages present
      refine ⟨elementary.makeInterned inside present word, made.2, ?_⟩
      rw [← made.1.present_iff, present?_makeInterned inPackages present, if_pos ⟨rfl, rfl⟩]
      rfl

/-- The text of a symbol depends on its home and name alone. -/
theorem symbolChars_eq (elementary : store.Elementary) {style : PrintStyle}
    (escape : style.escape = true) (inUser : style.package = PackageId.user) (inside : home < 3)
    (owns : store.Owns home name symbol) :
    Printer.symbolChars store style symbol = spelling home name := by
  have denotes : store.find? name style.package = some symbol ↔ home = PackageId.user := by
    rw [elementary.find?_eq, elementary.coherent.present_iff, inUser]
    constructor
    · rintro ⟨other, atOther, _, otherHome⟩
      obtain ⟨found, atSymbol, _, interned⟩ := owns
      rw [atSymbol] at atOther
      cases atOther
      exact Option.some.inj (interned.symm.trans otherHome)
    · rintro rfl
      exact owns
  obtain ⟨found, atSymbol, rfl, interned⟩ := owns
  by_cases isKeyword : home = PackageId.keyword
  · have kind := (elementary.coherent.keyword atSymbol).mpr (isKeyword ▸ interned)
    rw [Token.symbolChars_keyword style atSymbol kind, spelling, if_pos isKeyword]
  · have kind : found.kind ≠ .keyword := by
      rw [Ne, elementary.coherent.keyword atSymbol, interned]
      simpa using isKeyword
    have printed : Printer.symbolChars store style symbol =
        Printer.qualifier store style symbol found ++ found.name.toList := by
      simp only [Printer.symbolChars, atSymbol]
    rw [printed, spelling, if_neg isKeyword]
    by_cases isUser : home = PackageId.user
    · have plain : home ≠ PackageId.system := by
        rw [isUser]
        decide
      simp [Printer.qualifier, escape, interned, denotes.mpr isUser, plain]
    · have between : ∀ id : Nat, id < 3 → id ≠ 0 → id ≠ 2 → id = 1 := by omega
      have isSystem : home = PackageId.system := between home inside isKeyword isUser
      have named : store.packageName? PackageId.system = some "system" := by
        rw [elementary.sameArrangement.packageName?_eq]
        rfl
      have hidden : ¬ store.find? found.name style.package = some symbol := mt denotes.mp isUser
      simp [Printer.qualifier, escape, interned, hidden, named, isSystem]

end Elementary

/-- A symbol keeps its text while further symbols are interned. -/
theorem Elementary.symbolChars_keeps (elementary : later.Elementary) {style : PrintStyle}
    (escape : style.escape = true) (inUser : style.package = PackageId.user) (inside : home < 3)
    (owns : store.Owns home name symbol) (keeps : store.Keeps later) :
    Printer.symbolChars later style symbol = spelling home name :=
  elementary.symbolChars_eq escape inUser inside (keeps.owns owns)

end SymbolStore

/-! ## Reading words -/

/-- A qualified name is its parts around the mark. -/
theorem Symbol.toList_of_splitQualified? {token front name : String}
    (split : splitQualified? token = some (front, name)) :
    token.toList = front.toList ++ '@' :: name.toList ∧ name.toList ≠ [] := by
  unfold splitQualified? at split
  dsimp only at split
  split at split
  · cases split
  · next parts =>
      obtain ⟨rfl, rfl⟩ := Prod.mk.inj (Option.some.inj split)
      simp only [Bool.or_eq_true, List.isEmpty_iff, not_or] at parts
      rw [String.toList_ofList, String.toList_ofList]
      refine ⟨?_, parts.2⟩
      have marked : token.toList.dropWhile (· ≠ '@') =
          '@' :: (token.toList.dropWhile (· ≠ '@')).tail := by
        cases rest : token.toList.dropWhile (· ≠ '@') with
        | nil =>
            rw [rest] at parts
            exact absurd rfl parts.2
        | cons c others =>
            have stops := List.head?_dropWhile_not (· ≠ '@') token.toList
            rw [rest] at stops
            have isMark : c = '@' := by simpa using stops
            rw [isMark, List.tail_cons]
      rw [← marked, List.takeWhile_append_dropWhile]

/-- The three packages of the first store. -/
theorem SymbolStore.findPackage?_initial {name : String} {package : PackageId}
    (found : initial.findPackage? name = some package) :
    name = "keyword" ∧ package = PackageId.keyword ∨ name = "system" ∧ package = PackageId.system ∨
      name = "user" ∧ package = PackageId.user := by
  obtain ⟨inside, sameName, _⟩ := Array.findIdx?_eq_some_iff_getElem.mp found
  match package, inside with
  | 0, _ => exact .inl ⟨(beq_iff_eq.mp sameName).symm, rfl⟩
  | 1, _ => exact .inr (.inl ⟨(beq_iff_eq.mp sameName).symm, rfl⟩)
  | 2, _ => exact .inr (.inr ⟨(beq_iff_eq.mp sameName).symm, rfl⟩)

namespace Token

open SymbolStore

variable {store : SymbolStore} {line : Nat} {token : List Char} {home : PackageId} {name : String}

/-- A token is read as the symbol with this home and name. -/
inductive Names (token : List Char) : PackageId → String → Prop where
  | keyword {name : List Char} (starts : keywordName? token = some name) :
      Names token PackageId.keyword (String.ofList name)
  | plain (uncoloned : keywordName? token = none)
      (unqualified : Symbol.splitQualified? (String.ofList token) = none) :
      Names token PackageId.user (String.ofList token)
  | qualified {front name : String} {package : PackageId} (uncoloned : keywordName? token = none)
      (split : Symbol.splitQualified? (String.ofList token) = some (front, name))
      (found : SymbolStore.initial.findPackage? front = some package) : Names token package name

theorem eq_of_keywordName? {name : List Char} (starts : keywordName? token = some name) :
    token = ':' :: name := by
  unfold keywordName? at starts
  split at starts
  · cases starts
    rfl
  · cases starts

/-- A word names symbols with words for texts. -/
theorem Names.spelled (names : Names token home name) (word : Word token) :
    home < 3 ∧ Word (spelling home name) := by
  cases names with
  | @keyword name starts =>
      have same : spelling PackageId.keyword (String.ofList name) = token := by
        rw [eq_of_keywordName? starts, spelling, if_pos rfl, String.toList_ofList]
      exact ⟨by decide, same ▸ word⟩
  | plain =>
      have same : spelling PackageId.user (String.ofList token) = token := String.toList_ofList
      exact ⟨by decide, same.symm ▸ word⟩
  | @qualified front _ package _ split found =>
      obtain ⟨parts, nonempty⟩ := Symbol.toList_of_splitQualified? split
      rw [String.toList_ofList] at parts
      have unbroken : ∀ c ∈ name.toList, ReadTable.standard.isDelimiter c = false :=
        fun c member => word.unbroken c (by simp [parts, member])
      rcases findPackage?_initial found with ⟨_, rfl⟩ | ⟨rfl, rfl⟩ | ⟨rfl, rfl⟩
      · refine ⟨by decide, List.cons_ne_nil _ _, ?_, memberParts?_keyword _⟩
        intro c member
        rcases List.mem_cons.mp member with rfl | inName
        · rfl
        · exact unbroken c inName
      · have same : spelling PackageId.system name = token := parts.symm
        exact ⟨by decide, same.symm ▸ word⟩
      · refine ⟨by decide, nonempty, unbroken, ?_⟩
        have whole := word.whole
        rw [parts] at whole
        have front : "user".toList ++ '@' :: name.toList =
            'u' :: ['s', 'e', 'r', '@'] ++ name.toList := rfl
        rw [front] at whole
        exact memberParts?_of_append (by decide) (by decide) whole

/-- A word is read as the symbol that it names. -/
theorem symbol_of_names (elementary : store.Elementary) (word : Word token)
    (names : Names token home name) :
    ∃ id after, symbol PackageId.user token store = .ok (.symbol id) after ∧ after.Elementary ∧
      store.Keeps after ∧ after.Owns home name id := by
  obtain ⟨inside, spelled⟩ := names.spelled word
  have facts := elementary.internIn inside spelled
  generalize interned : store.internIn name home = outcome at facts
  obtain ⟨id, after⟩ := outcome
  refine ⟨id, after, ?_, facts⟩
  unfold symbol intern SymbolStore.intern
  cases names with
  | keyword starts => simp only [starts, internKeyword, interned]
  | plain uncoloned unqualified => simp only [uncoloned, unqualified, interned]
  | qualified uncoloned split found =>
      simp only [uncoloned, split, elementary.sameArrangement.findPackage?_eq, found, interned]

/-- A token that names nothing asks for a package that is not there. -/
theorem names_or_error (elementary : store.Elementary) (token : List Char) :
    (∃ home name, Names token home name) ∨
      ∃ problem, symbol PackageId.user token store = .error problem store := by
  cases starts : keywordName? token with
  | some name => exact .inl ⟨_, _, .keyword starts⟩
  | none =>
      cases split : Symbol.splitQualified? (String.ofList token) with
      | none => exact .inl ⟨_, _, .plain starts split⟩
      | some parts =>
          obtain ⟨front, name⟩ := parts
          cases found : initial.findPackage? front with
          | some package => exact .inl ⟨_, _, .qualified starts split found⟩
          | none =>
              right
              unfold symbol intern SymbolStore.intern
              simp only [starts, split, elementary.sameArrangement.findPackage?_eq, found]
              exact ⟨_, rfl⟩

/-! ## Tokens keep a store elementary -/

theorem symbol_elementary (elementary : store.Elementary) (word : Word token) :
    (left (symbol PackageId.user token store)).Elementary := by
  rcases names_or_error elementary token with ⟨home, name, names⟩ | ⟨problem, result⟩
  · obtain ⟨id, after, result, known, _⟩ := symbol_of_names elementary word names
    rw [result]
    exact known
  · rw [result]
    exact elementary

theorem word_accessor {member : List Char}
    (unbroken : ∀ c ∈ member, ReadTable.standard.isDelimiter c = false) : Word ('.' :: member) := by
  refine ⟨List.cons_ne_nil _ _, ?_, ?_⟩
  · intro c inAccessor
    rcases List.mem_cons.mp inAccessor with rfl | inMember
    · rfl
    · exact unbroken c inMember
  · unfold memberParts?
    split
    · next starts _ =>
        cases starts
        simp
    · rfl

theorem accessMembers_elementary {members : List (List Char)} (datum : Datum)
    (unbroken : ∀ member ∈ members, ∀ c ∈ member, ReadTable.standard.isDelimiter c = false)
    (elementary : store.Elementary) :
    (left (accessMembers PackageId.user line datum members store)).Elementary := by
  induction members generalizing store datum with
  | nil => exact elementary
  | cons member members accessRest =>
      obtain ⟨unbrokenMember, unbrokenRest⟩ := List.forall_mem_cons.mp unbroken
      have first := symbol_elementary elementary (word_accessor unbrokenMember)
      change (left (EStateM.bind (symbol PackageId.user ('.' :: member)) _ store)).Elementary
      unfold EStateM.bind
      cases result : symbol PackageId.user ('.' :: member) store with
      | ok accessor after =>
          rw [result] at first
          exact accessRest _ unbrokenRest first
      | error problem after =>
          rw [result] at first
          exact first

/-- The parts of a token between its dots have no dots, and no characters that it has not. -/
theorem mem_splitDots {part : List Char} (member : part ∈ splitDots token) :
    '.' ∉ part ∧ ∀ c ∈ part, c ∈ token := by
  induction token generalizing part with
  | nil =>
      obtain rfl : part = [] := by simpa [splitDots] using member
      exact ⟨by simp, by simp⟩
  | cons c rest splitRest =>
      unfold splitDots at member
      split at member
      · rcases List.mem_cons.mp member with rfl | later
        · exact ⟨by simp, by simp⟩
        · obtain ⟨undotted, within⟩ := splitRest later
          exact ⟨undotted, fun d inPart => List.mem_cons_of_mem _ (within d inPart)⟩
      · next undottedFirst =>
          split at member
          · next none => exact absurd none (splitDots_ne_nil rest)
          · next first parts split =>
              rcases List.mem_cons.mp member with rfl | later
              · obtain ⟨undotted, within⟩ := @splitRest first (by simp [split])
                constructor
                · simp [undotted, Ne.symm undottedFirst]
                · intro d inPart
                  rcases List.mem_cons.mp inPart with rfl | inFirst
                  · exact List.mem_cons_self
                  · exact List.mem_cons_of_mem _ (within d inFirst)
              · obtain ⟨undotted, within⟩ := @splitRest part (by simp [split, later])
                exact ⟨undotted, fun d inPart => List.mem_cons_of_mem _ (within d inPart)⟩

theorem splitDots_of_memberParts? {part : List Char} {members : List (List Char)}
    (isChain : memberParts? token = some (part, members)) :
    splitDots token = part :: members ∧ part ≠ [] := by
  unfold memberParts? at isChain
  split at isChain
  · next first rest part member members split =>
      split at isChain
      · cases isChain
      · next proper =>
          obtain ⟨rfl, rfl⟩ := Prod.mk.inj (Option.some.inj isChain)
          refine ⟨split, ?_⟩
          rintro rfl
          simp at proper
  · cases isChain

theorem read_elementary (elementary : store.Elementary) (nonempty : token ≠ [])
    (unbroken : ∀ c ∈ token, ReadTable.standard.isDelimiter c = false) :
    (left (read PackageId.user line token store)).Elementary := by
  unfold read
  cases Integer.ofToken? token with
  | some => exact elementary
  | none =>
    cases Decimal.ofToken? token with
    | some => exact elementary
    | none =>
      cases isChain : memberParts? token with
      | none => exact symbol_elementary elementary ⟨nonempty, unbroken, isChain⟩
      | some parts =>
          obtain ⟨part, members⟩ := parts
          obtain ⟨split, nonemptyPart⟩ := splitDots_of_memberParts? isChain
          have inside : ∀ other ∈ part :: members, '.' ∉ other ∧
              ∀ c ∈ other, ReadTable.standard.isDelimiter c = false := by
            intro other member
            rw [← split] at member
            obtain ⟨undotted, within⟩ := mem_splitDots member
            exact ⟨undotted, fun c inOther => unbroken c (within c inOther)⟩
          obtain ⟨⟨undotted, unbrokenPart⟩, others⟩ := List.forall_mem_cons.mp inside
          have rooted : (left (memberRoot PackageId.user part store)).Elementary := by
            unfold memberRoot
            cases Integer.ofToken? part with
            | some => exact elementary
            | none =>
                exact symbol_elementary elementary
                  ⟨nonemptyPart, unbrokenPart, memberParts?_of_not_mem undotted⟩
          change (left (EStateM.bind (memberRoot PackageId.user part) _ store)).Elementary
          unfold EStateM.bind
          cases result : memberRoot PackageId.user part store with
          | ok root after =>
              rw [result] at rooted
              exact accessMembers_elementary root (fun member isMember => (others member isMember).2)
                rooted
          | error problem after =>
              rw [result] at rooted
              exact rooted

/-! ## Steady tokens -/

/-- Is the token the text of what it is read as?  It must be a number in the form in which it is
printed, or a symbol that needs no qualification or has the one that it needs. -/
def steady (token : List Char) : Bool :=
  token.head? ≠ some '#' &&
    match Integer.ofToken? token, Decimal.ofToken? token with
    | some value, _ => value.toChars = token
    | none, some value => Decimal.toChars .printer value = token
    | none, none =>
        (keywordName? token).isSome ||
          match Symbol.splitQualified? (String.ofList token) with
          | none => true
          | some (front, _) => front = "system"

/-- The symbol that a steady token names has this text. -/
theorem spelling_of_steady (notNumber : Integer.ofToken? token = none ∧ Decimal.ofToken? token = none)
    (isSteady : steady token = true) (names : Names token home name) :
    spelling home name = token := by
  simp only [steady, notNumber.1, notNumber.2, Bool.and_eq_true] at isSteady
  cases names with
  | keyword starts => rw [eq_of_keywordName? starts, spelling, if_pos rfl, String.toList_ofList]
  | plain => exact String.toList_ofList
  | @qualified front _ _ uncoloned split found =>
      obtain ⟨parts, _⟩ := Symbol.toList_of_splitQualified? split
      rw [String.toList_ofList] at parts
      obtain rfl : front = "system" := by simpa [uncoloned, split] using isSteady.2
      rcases findPackage?_initial found with ⟨other, _⟩ | ⟨_, rfl⟩ | ⟨other, _⟩
      · exact absurd other (by decide)
      · exact parts.symm
      · exact absurd other (by decide)

theorem names_of_steady (notNumber : Integer.ofToken? token = none ∧ Decimal.ofToken? token = none)
    (isSteady : steady token = true) : ∃ home name, Names token home name := by
  simp only [steady, notNumber.1, notNumber.2, Bool.and_eq_true] at isSteady
  cases starts : keywordName? token with
  | some name => exact ⟨_, _, .keyword starts⟩
  | none =>
      cases split : Symbol.splitQualified? (String.ofList token) with
      | none => exact ⟨_, _, .plain starts split⟩
      | some parts =>
          obtain ⟨front, name⟩ := parts
          obtain rfl : front = "system" := by simpa [starts, split] using isSteady.2
          exact ⟨PackageId.system, name, .qualified starts split (by decide +kernel)⟩

/-- A steady word is read as an atom with this text. -/
theorem read_steady {style : PrintStyle} (escape : style.escape = true)
    (inUser : style.package = PackageId.user) (elementary : store.Elementary) (word : Word token)
    (isSteady : steady token = true) (line : Nat) :
    ∃ atom after, read PackageId.user line token store = .ok atom after ∧ after.Elementary ∧
      store.Keeps after ∧ atom.isListEnd = false ∧
      ∀ later : SymbolStore, later.Elementary → after.Keeps later → ∀ levels,
        Printer.chars later style Datum.shape (levels + 1) atom = token := by
  unfold read
  cases isInteger : Integer.ofToken? token with
  | some value =>
      simp only [steady, isInteger, Bool.and_eq_true, decide_eq_true_eq] at isSteady
      exact ⟨.int value, store, rfl, elementary, .refl store, rfl, fun _ _ _ _ => isSteady.2⟩
  | none =>
    cases isFloat : Decimal.ofToken? token with
    | some value =>
        simp only [steady, isInteger, isFloat, Bool.and_eq_true, decide_eq_true_eq] at isSteady
        exact ⟨.float value, store, rfl, elementary, .refl store, rfl, fun _ _ _ _ => isSteady.2⟩
    | none =>
        obtain ⟨home, name, names⟩ := names_of_steady ⟨isInteger, isFloat⟩ isSteady
        obtain ⟨id, after, result, known, keeps, owns⟩ := symbol_of_names elementary word names
        simp only [word.whole]
        refine ⟨.symbol id, after, result, known, keeps, rfl, fun later elementary keepsLater _ => ?_⟩
        rw [← spelling_of_steady ⟨isInteger, isFloat⟩ isSteady names]
        exact elementary.symbolChars_keeps escape inUser (names.spelled word).1 owns keepsLater

end Token

/-! ## Texts keep a store elementary -/

namespace Reader

open SymbolStore

variable {state : State} {c : Char} {ahead : Option Char}

/-- The implied elements of the forms that wait are symbols with words for texts. -/
def Implied (pending : List Pending) : Prop :=
  ∀ head line, .wrap head line ∈ pending → Token.Word (spelling PackageId.system head)

/-- The symbols are elementary, what has been taken of a token could be one, and what lies ahead
goes on with it. -/
structure State.Orderly (state : State) (ahead : Option Char) : Prop where
  symbols : state.symbols.Elementary
  implied : Implied state.pending
  taken : ∀ {start taken}, state.mode = .token start taken → taken ≠ [] ∧
    (∀ c ∈ taken, ReadTable.standard.isDelimiter c = false) ∧ endsToken .standard ahead = false

/-- What a character leads to is orderly. -/
def Step.Orderly (ahead : Option Char) : Step → Prop
  | .next state => state.Orderly ahead
  | .datum _ _ symbols | .failed _ _ symbols => symbols.Elementary

theorem Implied.tail {form : Pending} {outer : List Pending} (implied : Implied (form :: outer)) :
    Implied outer :=
  fun head line member => implied head line (List.mem_cons_of_mem _ member)

theorem Implied.cons {outer : List Pending} (implied : Implied outer) {form : Pending}
    (word : ∀ head line, form = .wrap head line → Token.Word (spelling PackageId.system head)) :
    Implied (form :: outer) := by
  intro head line member
  rcases List.mem_cons.mp member with same | later
  · exact word head line same.symm
  · exact implied head line later

theorem word_system {name : String}
    (unbroken : ∀ c ∈ name.toList, ReadTable.standard.isDelimiter c = false ∧ c ≠ '.') :
    Token.Word (spelling PackageId.system name) := by
  have text : spelling PackageId.system name =
      ['s', 'y', 's', 't', 'e', 'm', '@'] ++ name.toList := rfl
  rw [text]
  have front : ∀ c ∈ ['s', 'y', 's', 't', 'e', 'm', '@'],
      ReadTable.standard.isDelimiter c = false ∧ c ≠ '.' := by
    simp only [List.forall_mem_cons, List.not_mem_nil, false_implies, implies_true, and_true]
    decide
  have each : ∀ c ∈ ['s', 'y', 's', 't', 'e', 'm', '@'] ++ name.toList,
      ReadTable.standard.isDelimiter c = false ∧ c ≠ '.' := by
    intro c member
    rcases List.mem_append.mp member with inFront | inName
    · exact front c inFront
    · exact unbroken c inName
  refine ⟨by simp, fun c member => (each c member).1, Token.memberParts?_of_not_mem ?_⟩
  intro dotted
  exact (each '.' dotted).2 rfl

/-- The names that the standard table implies. -/
theorem word_implied {head : String}
    (listed : head ∈ ["quote", "quasiquote", "unquote", "unquote-splicing"]) :
    Token.Word (spelling PackageId.system head) := by
  apply word_system
  simp only [List.mem_cons, List.not_mem_nil, or_false] at listed
  rcases listed with rfl | rfl | rfl | rfl <;>
    simp only [String.reduceToList, List.forall_mem_cons, List.not_mem_nil, false_implies,
      implies_true, and_true] <;>
    decide

theorem deliver_orderly (line : Nat) {symbols : SymbolStore} (datum : Datum)
    {pending : List Pending} (elementary : symbols.Elementary) (implied : Implied pending) :
    (deliver line symbols datum pending).Orderly ahead := by
  induction pending generalizing symbols datum with
  | nil => exact elementary
  | cons form outer deliverOuter =>
      cases form with
      | list => exact ⟨elementary, implied.tail.cons nofun, nofun⟩
      | tail => exact ⟨elementary, implied.tail.cons nofun, nofun⟩
      | closing => exact elementary
      | vector => exact ⟨elementary, implied.tail.cons nofun, nofun⟩
      | wrap head start =>
          have word := implied head start List.mem_cons_self
          exact deliverOuter _ (elementary.internIn (by decide) word).1 implied.tail

theorem continueToken_orderly (orderly : state.Orderly (some c)) (start line : Nat)
    {taken : List Char} (nonempty : taken ≠ [])
    (unbroken : ∀ c ∈ taken, ReadTable.standard.isDelimiter c = false) :
    (continueToken .standard PackageId.user state start taken line ahead).Orderly ahead := by
  have read : (Token.left (Token.read PackageId.user start taken.reverse state.symbols)).Elementary :=
    Token.read_elementary orderly.symbols (by simpa using nonempty)
      (fun c member => unbroken c (List.mem_reverse.mp member))
  unfold continueToken
  split
  · split
    · next result =>
        rw [result] at read
        exact deliver_orderly line _ read orderly.implied
    · next result =>
        rw [result] at read
        exact read
  · next goesOn =>
      refine ⟨orderly.symbols, orderly.implied, ?_⟩
      intro _ _ same
      cases same
      exact ⟨nonempty, unbroken, by simpa using goesOn⟩

theorem startMacro_orderly (orderly : state.Orderly (some c)) (line : Nat) (reader : ReaderMacro) :
    (startMacro state line c reader).Orderly ahead := by
  have wrapped : ∀ {head : String}, head ∈ ["quote", "quasiquote", "unquote", "unquote-splicing"] →
      Implied (.wrap head line :: state.pending) := by
    intro head listed
    apply orderly.implied.cons
    rintro _ _ ⟨⟩
    exact word_implied listed
  cases reader with
  | list => exact ⟨orderly.symbols, orderly.implied.cons nofun, nofun⟩
  | vector => exact ⟨orderly.symbols, orderly.implied.cons nofun, nofun⟩
  | closer => exact orderly.symbols
  | quote => exact ⟨orderly.symbols, wrapped (by simp), nofun⟩
  | quasiquote => exact ⟨orderly.symbols, wrapped (by simp), nofun⟩
  | unquote => exact ⟨orderly.symbols, wrapped (by simp), nofun⟩
  | _ => exact ⟨orderly.symbols, orderly.implied, nofun⟩

theorem pending_of_close? {pending outer : List Pending} {datum : Datum}
    (closes : close? c pending = some (datum, outer)) : ∃ form, pending = form :: outer := by
  cases pending with
  | nil => cases closes
  | cons form more =>
      have same : more = outer := by
        cases form <;> simp [close?] at closes <;> exact closes.2.2
      exact ⟨form, by rw [same]⟩

theorem start_orderly (orderly : state.Orderly (some c))
    (unblank : ReadTable.standard.isWhitespace c = false) :
    (start .standard PackageId.user state c ahead).Orderly ahead := by
  have token : ReadTable.standard.isDelimiter c = false →
      (continueToken .standard PackageId.user state state.line [c] (advance state.line c)
        ahead).Orderly ahead :=
    fun inside => continueToken_orderly orderly _ _ (List.cons_ne_nil _ _) (by simpa using inside)
  unfold start
  cases here : ReadTable.standard.classOf c with
  | whitespace => simp [ReadTable.isWhitespace, here] at unblank
  | constituent => exact token (ReadTable.not_delimiter_of_constituent here)
  | nonterminating =>
      cases ReadTable.eq_hash_of_nonterminating here
      exact startMacro_orderly orderly _ _
  | terminating =>
      cases ReadTable.standard.macroOf? c with
      | none => exact orderly.symbols
      | some reader => exact startMacro_orderly orderly _ _

theorem element_orderly (orderly : state.Orderly (some c))
    (unblank : ReadTable.standard.isWhitespace c = false) :
    (element .standard PackageId.user state c ahead).Orderly ahead := by
  unfold element
  split
  · next datum outer closes =>
      obtain ⟨form, same⟩ := pending_of_close? closes
      have implied := orderly.implied
      rw [same] at implied
      exact deliver_orderly _ _ orderly.symbols implied.tail
  · exact start_orderly orderly unblank

theorem between_orderly (orderly : state.Orderly (some c)) {boundary : Boundary}
    (mode : state.mode = .between boundary) :
    (between .standard PackageId.user state boundary c ahead).Orderly ahead := by
  have implied := orderly.implied
  have stays : ∀ {line}, State.Orderly { state with line } ahead := by
    refine ⟨orderly.symbols, orderly.implied, fun {_ _} same => ?_⟩
    cases mode.symm.trans same
  unfold between
  split
  · next head line outer same =>
      rw [same] at implied
      split
      · refine ⟨orderly.symbols, implied.tail.cons ?_, nofun⟩
        rintro _ _ ⟨⟩
        exact word_implied (by simp)
      · split
        · exact ⟨orderly.symbols, orderly.implied, nofun⟩
        · next unblank => exact element_orderly orderly (by simpa using unblank)
  · next line items outer same =>
      rw [same] at implied
      split
      · exact stays
      · next unblank =>
          split
          · split
            · exact orderly.symbols
            · exact ⟨orderly.symbols, implied.tail.cons nofun, nofun⟩
          · exact element_orderly orderly (by simpa using unblank)
  · split
    · exact stays
    · next unblank => exact element_orderly orderly (by simpa using unblank)

/-- One character keeps a state orderly. -/
theorem step_orderly (orderly : state.Orderly (some c)) :
    (step .standard PackageId.user state c ahead).Orderly ahead := by
  unfold step
  dsimp only
  split
  · next mode => exact between_orderly orderly mode
  · next start taken mode =>
      obtain ⟨_, unbroken, goesOn⟩ := orderly.taken mode
      refine continueToken_orderly orderly _ _ (List.cons_ne_nil _ _) ?_
      exact List.forall_mem_cons.mpr ⟨goesOn, unbroken⟩
  · split
    · exact deliver_orderly _ _ orderly.symbols orderly.implied
    · split <;> exact ⟨orderly.symbols, orderly.implied, nofun⟩
  · split
    · exact ⟨orderly.symbols, orderly.implied, nofun⟩
    · exact orderly.symbols
  · next mode =>
      split
      · exact ⟨orderly.symbols, orderly.implied, nofun⟩
      · refine ⟨orderly.symbols, orderly.implied, fun {_ _} same => ?_⟩
        cases mode.symm.trans same
  · split <;> exact ⟨orderly.symbols, orderly.implied, nofun⟩
  · split
    · exact startMacro_orderly orderly _ _
    · exact orderly.symbols

theorem run_orderly {text : List Char} (orderly : state.Orderly text.head?) :
    (run .standard PackageId.user state text).symbols.Elementary := by
  induction text generalizing state with
  | nil =>
      unfold run atEnd
      split <;> exact orderly.symbols
  | cons c rest runRest =>
      have first := @step_orderly state c rest.head? orderly
      rw [run]
      cases stepped : step .standard PackageId.user state c rest.head? with
      | next later =>
          rw [stepped] at first
          exact runRest first
      | datum datum line symbols =>
          rw [stepped] at first
          exact first
      | failed problem line symbols =>
          rw [stepped] at first
          exact first

/-- What is read of a text leaves an elementary store elementary. -/
theorem next_elementary {symbols : SymbolStore} (elementary : symbols.Elementary) (line : Nat)
    (text : List Char) :
    (next .standard PackageId.user symbols line text).symbols.Elementary :=
  run_orderly ⟨elementary, nofun, nofun⟩

end Reader

end ObjectLisp
