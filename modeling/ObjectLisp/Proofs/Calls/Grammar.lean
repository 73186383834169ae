import Mathlib.Data.List.Forall2
import ObjectLisp.Proofs.Calls.Binding
import ObjectLisp.Proofs.Symbols.Keywords

/-!
# The grammar of parameter lists

A parameter list has required names, and then up to three sections in a fixed order,
each behind its marker.  The grammar says this of the items of a list and of the
parameters that they declare.  The parser goes through the items once and knows no
more than the section it is in, and it accepts exactly the lists of the grammar.

The keyword of a keyword parameter is interned while the list is parsed.  The grammar
therefore speaks of two stores: names are judged by the store at the start, and
keywords are those of the store at the end.
-/

namespace ObjectLisp

/-- The symbols that a value is built of. -/
def Value.symbols : Value → List SymbolId
  | .symbol id => [id]
  | .cons _ car cdr => car.symbols ++ cdr.symbols
  | _ => []

/-- All symbols of the value are in the store. -/
def Value.Known (symbols : SymbolStore) (value : Value) : Prop :=
  ∀ symbol ∈ value.symbols, symbol < symbols.count

theorem Value.Lists.symbols_subset {tail item value : Value} {items : List Value}
    (lists : Lists tail items value) (member : item ∈ items) : item.symbols ⊆ value.symbols := by
  induction lists with
  | nil => cases member
  | cons id first _ ih =>
      rcases List.mem_cons.mp member with rfl | member
      · exact List.subset_append_left _ _
      · exact List.Subset.trans (ih member) (List.subset_append_right _ _)

namespace LambdaList

/-! ## The grammar -/

/-- The markers, in the order of their sections. -/
def Markers.symbols (markers : Markers) : List SymbolId :=
  [markers.optional, markers.key, markers.rest]

/-- The sections behind the required names, in their order, with their markers. -/
def Markers.sections (markers : Markers) : List (SymbolId × ParamKind) :=
  [(markers.optional, .optional), (markers.key, .keyword), (markers.rest, .rest)]

/-- An item spells a parameter of a section: by its name, or, where the section has defaults, by a
list of the name and perhaps a default. -/
inductive Spells (markers : Markers) (kind : ParamKind) :
    Value → SymbolId → Option Value → Prop where
  | bare {name : SymbolId} (unmarked : name ∉ markers.symbols) :
      Spells markers kind (.symbol name) name none
  | listed {item : Value} {name : SymbolId} (defaults : kind = .optional ∨ kind = .keyword)
      (lists : Value.Lists .null [.symbol name] item) : Spells markers kind item name none
  | withDefault {item init : Value} {name : SymbolId}
      (defaults : kind = .optional ∨ kind = .keyword)
      (lists : Value.Lists .null [.symbol name, init] item) :
      Spells markers kind item name (some init)

/-- The parameter of a section with a name and a default.  A keyword parameter is announced by what
its name denotes among the keywords. -/
def parameter (symbols after : SymbolStore) (kind : ParamKind) (name : SymbolId)
    (init : Option Value) : Param Value :=
  { name
    kind
    init
    keyword :=
      if kind = .keyword then after.find? (symbols.nameOf name) PackageId.keyword else none }

/-- An item declares a parameter of a section: its name is no keyword and no constant. -/
def Declares (markers : Markers) (symbols after : SymbolStore) (kind : ParamKind) (item : Value)
    (param : Param Value) : Prop :=
  ∃ name init, Spells markers kind item name init ∧ symbols.kindOf name ≠ .keyword ∧
    symbols.kindOf name ≠ .constant ∧ param = parameter symbols after kind name init

/-- The items consist of some of the sections, in the given order.  A section is its marker and the
items that declare its parameters; a rest section declares one. -/
inductive Sections (markers : Markers) (symbols after : SymbolStore) :
    List (SymbolId × ParamKind) → List Value → List (Param Value) → Prop where
  | done : Sections markers symbols after [] [] []
  | missing {first : SymbolId × ParamKind} {sections : List (SymbolId × ParamKind)}
      {items : List Value} {params : List (Param Value)}
      (others : Sections markers symbols after sections items params) :
      Sections markers symbols after (first :: sections) items params
  | present {marker : SymbolId} {kind : ParamKind} {sections : List (SymbolId × ParamKind)}
      {own items : List Value} {declared params : List (Param Value)}
      (declares : List.Forall₂ (Declares markers symbols after kind) own declared)
      (single : kind = .rest → own.length = 1)
      (others : Sections markers symbols after sections items params) :
      Sections markers symbols after ((marker, kind) :: sections)
        (.symbol marker :: (own ++ items)) (declared ++ params)

/-- The items are those of a parameter list: required names, and then the sections. -/
inductive Grammar (markers : Markers) (symbols after : SymbolStore) :
    List Value → List (Param Value) → Prop where
  | parts {front back : List Value} {required others : List (Param Value)}
      (declares : List.Forall₂ (Declares markers symbols after .required) front required)
      (sections : Sections markers symbols after markers.sections back others) :
      Grammar markers symbols after (front ++ back) (required ++ others)

variable {markers : Markers} {symbols current after : SymbolStore} {kind : ParamKind}
  {taken params declared others : List (Param Value)} {item : Value} {items own back : List Value}
  {name : SymbolId} {init : Option Value}

/-! ## Items -/

theorem kindOf?_eq_none_iff {symbol : SymbolId} :
    markers.kindOf? symbol = none ↔ symbol ∉ markers.symbols := by
  unfold Markers.kindOf? Markers.symbols
  repeat' split
  all_goals simp_all

theorem kindOf?_eq_some_iff (distinct : markers.symbols.Nodup) {symbol : SymbolId} :
    markers.kindOf? symbol = some kind ↔ (symbol, kind) ∈ markers.sections := by
  unfold Markers.symbols at distinct
  unfold Markers.kindOf? Markers.sections
  repeat' split
  all_goals simp_all [eq_comm]

theorem marker?_eq_some_iff {symbol : SymbolId} :
    marker? markers item = some (symbol, kind) ↔
      item = .symbol symbol ∧ markers.kindOf? symbol = some kind := by
  cases item with
  | symbol other =>
      unfold marker?
      constructor
      · intro found
        obtain ⟨_, starts, same⟩ := Option.map_eq_some_iff.mp found
        cases same
        exact ⟨rfl, starts⟩
      · rintro ⟨same, starts⟩
        cases same
        exact congrArg (Option.map _) starts
  | _ => simp [marker?]

theorem takesDefault_iff : takesDefault kind = true ↔ kind = .optional ∨ kind = .keyword := by
  cases kind <;> simp [takesDefault]

/-- The items that are entered are those that spell a parameter. -/
theorem spells_iff :
    Spells markers kind item name init ↔
      marker? markers item = none ∧ entry kind item = .ok (name, init) := by
  constructor
  · intro spells
    cases spells with
    | bare unmarked => simp [marker?, kindOf?_eq_none_iff.mpr unmarked, entry]
    | listed defaults lists =>
        have listed := Value.toList?_eq_some_iff.mpr lists
        cases lists
        simp [marker?, entry, takesDefault_iff.mpr defaults, listed]
    | withDefault defaults lists =>
        have listed := Value.toList?_eq_some_iff.mpr lists
        cases lists
        simp [marker?, entry, takesDefault_iff.mpr defaults, listed]
  · rintro ⟨unmarked, found⟩
    unfold entry at found
    split at found
    · cases found
      refine .bare (kindOf?_eq_none_iff.mp ?_)
      simpa [marker?] using unmarked
    · split at found
      · next defaults =>
          split at found
          · next listed =>
              cases found
              exact .withDefault (takesDefault_iff.mp defaults)
                (Value.toList?_eq_some_iff.mp listed)
          · next listed =>
              cases found
              exact .listed (takesDefault_iff.mp defaults) (Value.toList?_eq_some_iff.mp listed)
          · cases found
      · cases found
    · cases found

theorem Spells.mem_symbols (spells : Spells markers kind item name init) :
    name ∈ item.symbols := by
  have ofList : ∀ {items}, Value.Lists .null (.symbol name :: items) item →
      name ∈ item.symbols := fun lists =>
    lists.symbols_subset (List.mem_cons_self ..) (List.mem_singleton_self _)
  cases spells with
  | bare _ => exact List.mem_singleton_self _
  | listed _ lists => exact ofList lists
  | withDefault _ lists => exact ofList lists

theorem isName_iff : isName symbols name = true ↔
    symbols.kindOf name ≠ .keyword ∧ symbols.kindOf name ≠ .constant := by
  unfold isName
  cases symbols.kindOf name <;> simp

theorem Declares.kind_eq {param : Param Value}
    (declares : Declares markers symbols after kind item param) : param.kind = kind := by
  obtain ⟨_, _, _, _, _, rfl⟩ := declares
  rfl

/-- A keyword that is interned for a name is what the name denotes from then on. -/
theorem announce_keyword (reachable : symbols.Reachable)
    (soFar : symbols.InternsKeywords current) (known : name < symbols.count)
    (toCome : (announce current .keyword name).2.InternsKeywords after) :
    ∃ keyword, (announce current .keyword name).1 = some keyword ∧
      after.find? (symbols.nameOf name) PackageId.keyword = some keyword := by
  have reached := soFar.reachable reachable
  have found := SymbolStore.find?_internIn reached.keyword_lt_size (current.nameOf name)
  refine ⟨_, rfl, ?_⟩
  rw [← soFar.nameOf_eq known]
  exact toCome.find?_eq_some
    ((announce_internsKeywords current .keyword name).reachable reached) found

/-- The parameter that is entered is that of the grammar. -/
theorem entered_eq_parameter (reachable : symbols.Reachable)
    (soFar : symbols.InternsKeywords current) (known : name < symbols.count)
    (toCome : (announce current kind name).2.InternsKeywords after) (init : Option Value) :
    { name, kind, init, keyword := (announce current kind name).1 } =
      parameter symbols after kind name init := by
  unfold parameter
  cases kind with
  | keyword =>
      obtain ⟨keyword, announced, found⟩ := announce_keyword reachable soFar known toCome
      rw [announced, if_pos rfl, found]
  | _ => rfl

/-! ## What is accepted is of the grammar -/

/-- The sections that may follow a section. -/
def Markers.sectionsAfter (markers : Markers) (kind : ParamKind) : List (SymbolId × ParamKind) :=
  markers.sections.filter fun following => kind.rank < following.2.rank

/-- What the parser still expects inside a section, of which `rests` rest parameters are taken. -/
inductive Continues (markers : Markers) (symbols after : SymbolStore) (kind : ParamKind)
    (rests : Nat) : List Value → List (Param Value) → Prop where
  | split {own back : List Value} {declared others : List (Param Value)}
      (declares : List.Forall₂ (Declares markers symbols after kind) own declared)
      (single : kind = .rest → rests + own.length = 1)
      (sections : Sections markers symbols after (markers.sectionsAfter kind) back others) :
      Continues markers symbols after kind rests (own ++ back) (declared ++ others)

theorem Sections.none (sections : List (SymbolId × ParamKind)) :
    Sections markers symbols after sections [] [] := by
  induction sections with
  | nil => exact .done
  | cons _ _ ih => exact .missing ih

/-- A later section leaves out those between. -/
theorem Sections.skip {symbol : SymbolId} {later : ParamKind}
    (member : (symbol, later) ∈ markers.sections) (order : kind.rank < later.rank)
    (sections : Sections markers symbols after ((symbol, later) :: markers.sectionsAfter later)
      items params) :
    Sections markers symbols after (markers.sectionsAfter kind) items params := by
  simp only [Markers.sections, List.mem_cons, Prod.mk.injEq, List.not_mem_nil, or_false] at member
  obtain ⟨rfl, rfl⟩ | ⟨rfl, rfl⟩ | ⟨rfl, rfl⟩ := member
  · cases kind with
    | required => exact sections
    | _ => exact absurd order (by decide)
  · cases kind with
    | required => exact .missing sections
    | optional => exact sections
    | _ => exact absurd order (by decide)
  · cases kind with
    | required => exact .missing (.missing sections)
    | optional => exact .missing sections
    | keyword => exact sections
    | rest => exact absurd order (by decide)

theorem rank_le_rest (kind : ParamKind) : kind.rank ≤ ParamKind.rest.rank := by
  cases kind <;> decide

/-- Before the rest section there are no rest parameters. -/
theorem kind_ne_rest {later : ParamKind} (upTo : ∀ param ∈ taken, param.kind.rank ≤ kind.rank)
    (order : kind.rank < later.rank) : ∀ param ∈ taken, param.kind ≠ .rest := by
  intro param member isRest
  have least := upTo param member
  rw [isRest] at least
  exact absurd (Nat.lt_of_le_of_lt least order) (Nat.not_lt.mpr (rank_le_rest later))

theorem countP_rest_eq_zero_iff :
    taken.countP (·.kind = .rest) = 0 ↔ ∀ param ∈ taken, param.kind ≠ .rest := by
  simp [List.countP_eq_zero]

theorem countP_rest_cons {param : Param Value} (isRest : param.kind = .rest) :
    (param :: taken).countP (·.kind = .rest) = taken.countP (·.kind = .rest) + 1 :=
  List.countP_cons_of_pos (by simp [isRest])

namespace Continues

variable {rests more : Nat}

theorem entry {param : Param Value} (declares : Declares markers symbols after kind item param)
    (counted : kind = .rest → more = rests + 1)
    (continues : Continues markers symbols after kind more items params) :
    Continues markers symbols after kind rests (item :: items) (param :: params) := by
  cases continues with
  | @split own _ _ _ declared single sections =>
      have first := List.Forall₂.cons declares declared
      refine .split first ?_ sections
      intro isRest
      have total := single isRest
      rw [counted isRest] at total
      rw [List.length_cons]
      omega

theorem marker {symbol : SymbolId} {later : ParamKind}
    (member : (symbol, later) ∈ markers.sections) (order : kind.rank < later.rank)
    (continues : Continues markers symbols after later 0 items params) :
    Continues markers symbols after kind rests (.symbol symbol :: items) params := by
  cases continues with
  | split declares single sections =>
      have alone : later = .rest → _ := fun isRest => (Nat.zero_add _).symm.trans (single isRest)
      refine .split .nil ?_ (Sections.skip member order (.present declares alone sections))
      rintro rfl
      exact absurd order (Nat.not_lt.mpr (rank_le_rest later))

end Continues

/-- From any section on, the parser takes what the grammar puts there. -/
theorem continues_of_parseItems (distinct : markers.symbols.Nodup) (reachable : symbols.Reachable)
    (soFar : symbols.InternsKeywords current)
    (known : ∀ item ∈ items, item.Known symbols)
    (upTo : ∀ param ∈ taken, param.kind.rank ≤ kind.rank)
    (atMost : taken.countP (·.kind = .rest) ≤ 1)
    (parsed : (parseItems markers current kind taken items).1 = .ok params) :
    ∃ rest, params = taken.reverse ++ rest ∧
      Continues markers symbols (parseItems markers current kind taken items).2 kind
        (taken.countP (·.kind = .rest)) items rest := by
  -- A section may end at any item, so this is about what follows the parameters taken so far.
  induction items generalizing current kind taken with
  | nil =>
      obtain ⟨rfl, complete⟩ := parseItems_nil_ok parsed
      refine ⟨[], (List.append_nil _).symm, .split .nil ?_ (.none _)⟩
      intro isRest
      have present : 0 < taken.countP (·.kind = .rest) := by
        simpa [List.countP_pos_iff] using complete isRest
      exact Nat.le_antisymm atMost present
  | cons item items ih =>
      obtain ⟨knownItem, knownItems⟩ := List.forall_mem_cons.mp known
      rcases parseItems_cons_ok parsed with ⟨symbol, later, isMarker, order, onward⟩ |
        ⟨name, init, unmarked, found, named, single, onward⟩
      · rw [parseItems_marker isMarker order]
        obtain ⟨rfl, starts⟩ := marker?_eq_some_iff.mp isMarker
        have upToLater : ∀ param ∈ taken, param.kind.rank ≤ later.rank := fun param member =>
          Nat.le_trans (upTo param member) (Nat.le_of_lt order)
        obtain ⟨rest, rfl, continues⟩ := ih soFar knownItems upToLater atMost onward
        rw [countP_rest_eq_zero_iff.mpr (kind_ne_rest upTo order)] at continues
        exact ⟨rest, rfl, continues.marker ((kindOf?_eq_some_iff distinct).mp starts) order⟩
      · rw [parseItems_entry unmarked found named single]
        have spells : Spells markers kind item name init := spells_iff.mpr ⟨unmarked, found⟩
        have knownName := knownItem name spells.mem_symbols
        have atMostNow : List.countP (·.kind = .rest)
            ({ name, kind, init, keyword := (announce current kind name).1 } :: taken) ≤ 1 := by
          by_cases isRest : kind = .rest
          · apply Nat.le_of_eq
            rw [countP_rest_cons isRest, countP_rest_eq_zero_iff.mpr (single isRest)]
          · rw [List.countP_cons_of_neg (by simpa using isRest)]
            exact atMost
        obtain ⟨rest, rfl, continues⟩ := ih
          (soFar.trans (announce_internsKeywords current kind name)) knownItems
          (List.forall_mem_cons.mpr ⟨Nat.le_refl _, upTo⟩) atMostNow onward
        refine ⟨_ :: rest, by rw [List.reverse_cons, List.append_assoc]; rfl, ?_⟩
        refine continues.entry ⟨name, init, spells, ?_⟩ fun isRest => countP_rest_cons isRest
        rw [isName_iff, soFar.kindOf_eq knownName] at named
        exact ⟨named.1, named.2, entered_eq_parameter reachable soFar knownName
          (parseItems_internsKeywords markers _ _ _ items) init⟩

/-- The keyword of a keyword parameter is what its name denotes at the end. -/
theorem keyword_of_parseItems (reachable : symbols.Reachable)
    (soFar : symbols.InternsKeywords current)
    (known : ∀ item ∈ items, item.Known symbols)
    (parsed : (parseItems markers current kind taken items).1 = .ok params)
    (final : (parseItems markers current kind taken items).2 = after)
    (earlier : ∀ param ∈ taken, param.kind = .keyword → ∃ keyword, param.keyword = some keyword ∧
      after.find? (symbols.nameOf param.name) PackageId.keyword = some keyword) :
    ∀ param ∈ params, param.kind = .keyword → ∃ keyword, param.keyword = some keyword ∧
      after.find? (symbols.nameOf param.name) PackageId.keyword = some keyword := by
  induction items generalizing current kind taken with
  | nil =>
      obtain ⟨rfl, _⟩ := parseItems_nil_ok parsed
      exact fun param member => earlier param (List.mem_reverse.mp member)
  | cons item items ih =>
      obtain ⟨knownItem, knownItems⟩ := List.forall_mem_cons.mp known
      rcases parseItems_cons_ok parsed with ⟨_, later, isMarker, order, onward⟩ |
        ⟨name, init, unmarked, found, named, single, onward⟩
      · rw [parseItems_marker isMarker order] at final
        exact ih soFar knownItems onward final earlier
      · rw [parseItems_entry unmarked found named single] at final
        refine ih (soFar.trans (announce_internsKeywords current kind name)) knownItems onward final
          (List.forall_mem_cons.mpr ⟨?_, earlier⟩)
        rintro rfl
        have spells : Spells markers .keyword item name init := spells_iff.mpr ⟨unmarked, found⟩
        exact announce_keyword reachable soFar (knownItem name spells.mem_symbols)
          (final ▸ parseItems_internsKeywords markers _ _ _ items)

/-! ## What is of the grammar is accepted -/

theorem kind_of_declares
    (declares : List.Forall₂ (Declares markers symbols after kind) own declared) :
    ∀ param ∈ declared, param.kind = kind := by
  induction declares with
  | nil => simp
  | cons first _ ih => exact List.forall_mem_cons.mpr ⟨first.kind_eq, ih⟩

/-- Items that declare parameters are entered one after another. -/
theorem parseItems_of_declares (reachable : symbols.Reachable)
    (soFar : symbols.InternsKeywords current)
    (known : ∀ item ∈ own, item.Known symbols)
    (declares : List.Forall₂ (Declares markers symbols after kind) own declared)
    (single : kind = .rest → taken.countP (·.kind = .rest) + own.length ≤ 1)
    (final : (parseItems markers current kind taken (own ++ back)).2 = after) :
    ∃ reached, symbols.InternsKeywords reached ∧
      parseItems markers current kind taken (own ++ back) =
        parseItems markers reached kind (declared.reverse ++ taken) back := by
  -- The store at the end is that of the whole list, whose keywords the parameters refer to.
  induction declares generalizing current taken with
  | nil => exact ⟨current, soFar, rfl⟩
  | @cons item _ own _ declares _ ih =>
      obtain ⟨knownItem, knownOwn⟩ := List.forall_mem_cons.mp known
      obtain ⟨name, init, spells, notKeyword, notConstant, rfl⟩ := declares
      obtain ⟨unmarked, found⟩ := spells_iff.mp spells
      have knownName := knownItem name spells.mem_symbols
      have named : isName current name = true := by
        rw [isName_iff, soFar.kindOf_eq knownName]
        exact ⟨notKeyword, notConstant⟩
      have total : kind = .rest → taken.countP (·.kind = .rest) + own.length + 1 ≤ 1 := single
      have noRest : kind = .rest → ∀ param ∈ taken, param.kind ≠ .rest := by
        intro isRest
        have few := total isRest
        exact countP_rest_eq_zero_iff.mp (by omega)
      rw [List.cons_append, parseItems_entry unmarked found named noRest] at final ⊢
      rw [entered_eq_parameter reachable soFar knownName
        (final ▸ parseItems_internsKeywords markers _ _ _ (own ++ back)) init] at final ⊢
      have singleNow : kind = .rest → List.countP (·.kind = .rest)
          (parameter symbols after kind name init :: taken) + own.length ≤ 1 := by
        intro isRest
        rw [countP_rest_cons isRest, Nat.add_right_comm]
        exact total isRest
      obtain ⟨reached, interned, same⟩ := ih
        (soFar.trans (announce_internsKeywords current kind name)) knownOwn singleNow final
      refine ⟨reached, interned, same.trans ?_⟩
      rw [List.reverse_cons, List.append_assoc]
      rfl

/-- Sections that follow each other in their order are accepted. -/
theorem parseItems_of_sections (distinct : markers.symbols.Nodup) (reachable : symbols.Reachable)
    {sections : List (SymbolId × ParamKind)}
    (follows : Sections markers symbols after sections items others)
    (inside : ∀ following ∈ sections,
      following ∈ markers.sections ∧ kind.rank < following.2.rank)
    (ordered : sections.Pairwise fun first second => first.2.rank < second.2.rank)
    (soFar : symbols.InternsKeywords current)
    (known : ∀ item ∈ items, item.Known symbols)
    (upTo : ∀ param ∈ taken, param.kind.rank ≤ kind.rank)
    (complete : kind = .rest → ∃ param ∈ taken, param.kind = .rest)
    (final : (parseItems markers current kind taken items).2 = after) :
    (parseItems markers current kind taken items).1 = .ok (taken.reverse ++ others) := by
  induction follows generalizing current kind taken with
  | done =>
      have stays : ¬ (kind = .rest && !taken.any (·.kind = .rest)) = true := by simpa using complete
      rw [parseItems, if_neg stays, List.append_nil]
  | missing _ ih =>
      exact ih (fun following member => inside following (List.mem_cons_of_mem _ member))
        (List.pairwise_cons.mp ordered).2 soFar known upTo complete final
  | @present marker later sections own items declared others declares single _ ih =>
      obtain ⟨⟨member, order⟩, _⟩ := List.forall_mem_cons.mp inside
      obtain ⟨first, ordered⟩ := List.pairwise_cons.mp ordered
      have isMarker : marker? markers (.symbol marker) = some (marker, later) :=
        marker?_eq_some_iff.mpr ⟨rfl, (kindOf?_eq_some_iff distinct).mpr member⟩
      obtain ⟨knownOwn, knownItems⟩ :=
        List.forall_mem_append.mp (List.forall_mem_cons.mp known).2
      have noRest := kind_ne_rest upTo order
      rw [parseItems_marker isMarker order] at final ⊢
      have alone : later = .rest → taken.countP (·.kind = .rest) + own.length ≤ 1 := by
        intro isRest
        apply Nat.le_of_eq
        rw [countP_rest_eq_zero_iff.mpr noRest, single isRest]
      obtain ⟨reached, interned, same⟩ :=
        parseItems_of_declares reachable soFar knownOwn declares alone final
      rw [same] at final ⊢
      have kinds := kind_of_declares declares
      have upToLater : ∀ param ∈ declared.reverse ++ taken, param.kind.rank ≤ later.rank := by
        intro param member
        rcases List.mem_append.mp member with isOwn | isTaken
        · exact Nat.le_of_eq (congrArg _ (kinds param (List.mem_reverse.mp isOwn)))
        · exact Nat.le_trans (upTo param isTaken) (Nat.le_of_lt order)
      have completeNow : later = .rest →
          ∃ param ∈ declared.reverse ++ taken, param.kind = .rest := by
        intro isRest
        have nonempty : 0 < declared.length := by
          rw [← declares.length_eq, single isRest]
          exact Nat.one_pos
        have member := List.getElem_mem nonempty
        exact ⟨_, List.mem_append_left _ (List.mem_reverse.mpr member),
          (kinds _ member).trans isRest⟩
      have insideNow : ∀ following ∈ sections,
          following ∈ markers.sections ∧ later.rank < following.2.rank :=
        fun following member =>
          ⟨(inside following (List.mem_cons_of_mem _ member)).1, first following member⟩
      rw [ih insideNow ordered interned knownItems upToLater completeNow final,
        List.reverse_append, List.reverse_reverse, List.append_assoc]

/-! ## Parameter lists -/

theorem parse_eq {list : Value} (lists : Value.Lists .null items list) :
    parse markers symbols list = parseItems markers symbols .required [] items := by
  unfold parse
  rw [Value.toList?_eq_some_iff.mpr lists]

theorem lists_of_parse {list : Value} (parsed : (parse markers symbols list).1 = .ok params) :
    ∃ items, Value.Lists .null items list := by
  unfold parse at parsed
  split at parsed
  · next items listed => exact ⟨items, Value.toList?_eq_some_iff.mp listed⟩
  · cases parsed

theorem known_of_lists {list : Value} (lists : Value.Lists .null items list)
    (known : list.Known symbols) : ∀ item ∈ items, item.Known symbols :=
  fun _ member symbol isSymbol => known symbol (lists.symbols_subset member isSymbol)

/-- The parser accepts the items of the grammar, and no others. -/
theorem parseItems_eq_ok_iff (reachable : symbols.Reachable) (distinct : markers.symbols.Nodup)
    (known : ∀ item ∈ items, item.Known symbols)
    (final : (parseItems markers symbols .required [] items).2 = after) :
    (parseItems markers symbols .required [] items).1 = .ok params ↔
      Grammar markers symbols after items params := by
  constructor
  · intro parsed
    obtain ⟨rest, rfl, continues⟩ := continues_of_parseItems distinct reachable .refl known
      (List.forall_mem_nil _) (Nat.zero_le 1) parsed
    rw [final] at continues
    cases continues with
    | split declares _ sections => exact .parts declares sections
  · intro grammar
    cases grammar with
    | @parts front back required others declares sections =>
        obtain ⟨knownFront, knownBack⟩ := List.forall_mem_append.mp known
        obtain ⟨reached, interned, same⟩ := parseItems_of_declares reachable .refl knownFront
          declares (fun isRest => by cases isRest) final
        rw [same] at final ⊢
        have kinds := kind_of_declares declares
        rw [parseItems_of_sections distinct reachable sections _ _ interned knownBack _ _ final,
          List.append_nil, List.reverse_reverse]
        · simp [Markers.sections, ParamKind.rank]
        · simp [Markers.sections, ParamKind.rank]
        · intro param member
          rw [List.append_nil, List.mem_reverse] at member
          exact Nat.le_of_eq (congrArg _ (kinds param member))
        · intro isRest
          cases isRest

theorem Sections.countP_rest_le {sections : List (SymbolId × ParamKind)}
    (follows : Sections markers symbols after sections items others) :
    others.countP (·.kind = .rest) ≤ sections.countP (·.2 = .rest) := by
  induction follows with
  | done => exact Nat.le_refl 0
  | missing _ ih =>
      rw [List.countP_cons]
      exact Nat.le_add_right_of_le ih
  | @present marker kind _ own _ declared _ declares single _ ih =>
      have kinds := kind_of_declares declares
      have few : declared.countP (·.kind = .rest) ≤ if kind = .rest then 1 else 0 := by
        split
        · next isRest =>
            rw [← single isRest, declares.length_eq]
            exact List.countP_le_length
        · next notRest =>
            refine Nat.le_of_eq (countP_rest_eq_zero_iff.mpr fun param member => ?_)
            rw [kinds param member]
            exact notRest
      rw [List.countP_append, List.countP_cons, Nat.add_comm]
      simpa using Nat.add_le_add ih few

theorem Grammar.countP_rest_le_one (grammar : Grammar markers symbols after items params) :
    params.countP (·.kind = .rest) ≤ 1 := by
  cases grammar with
  | parts declares sections =>
      have kinds := kind_of_declares declares
      have noRest := countP_rest_eq_zero_iff.mpr fun param member =>
        (kinds param member).trans_ne (by decide)
      rw [List.countP_append, noRest, Nat.zero_add]
      exact sections.countP_rest_le

/-- The parser accepts exactly its grammar.  A value is accepted as a parameter list, with these
parameters, if and only if it is a proper list of items of which the grammar makes these
parameters.  The sections then stand in their order, and there is at most one rest parameter.
Every keyword parameter has a symbol of the same name to announce it.  This symbol is a keyword if
and only if the keyword package did not inherit another symbol under this name. -/
theorem parse_accepts_grammar (reachable : symbols.Reachable) (distinct : markers.symbols.Nodup)
    {list : Value} (known : list.Known symbols) {outcome : Except Malformed (List (Param Value))}
    (parsed : parse markers symbols list = (outcome, after)) :
    (∀ params, outcome = .ok params ↔
      ∃ items, Value.Lists .null items list ∧ Grammar markers symbols after items params) ∧
    ∀ params, outcome = .ok params →
      ParamKind.InOrder (Param.kinds params) ∧ params.countP (·.kind = .rest) ≤ 1 ∧
      ∀ param ∈ params, param.kind = .keyword → ∃ keyword, param.keyword = some keyword ∧
        after.nameOf keyword = symbols.nameOf param.name ∧
        (after.isKeyword keyword = true ↔ ∀ earlier,
          symbols.find? (symbols.nameOf param.name) PackageId.keyword = some earlier →
            symbols.homeOf earlier = some PackageId.keyword) := by
  obtain rfl : (parse markers symbols list).1 = outcome := congrArg Prod.fst parsed
  have accepts : ∀ params, (parse markers symbols list).1 = .ok params ↔
      ∃ items, Value.Lists .null items list ∧ Grammar markers symbols after items params := by
    intro params
    constructor
    · intro accepted
      obtain ⟨items, lists⟩ := lists_of_parse accepted
      rw [parse_eq lists] at parsed accepted
      exact ⟨items, lists, (parseItems_eq_ok_iff reachable distinct (known_of_lists lists known)
        (congrArg Prod.snd parsed)).mp accepted⟩
    · rintro ⟨items, lists, grammar⟩
      rw [parse_eq lists] at parsed ⊢
      exact (parseItems_eq_ok_iff reachable distinct (known_of_lists lists known)
        (congrArg Prod.snd parsed)).mpr grammar
  refine ⟨accepts, ?_⟩
  intro params accepted
  obtain ⟨items, lists, grammar⟩ := (accepts params).mp accepted
  refine ⟨inOrder_of_parse accepted, grammar.countP_rest_le_one, ?_⟩
  intro param member isKeyword
  have interns : symbols.InternsKeywords after := by
    have interned := parse_internsKeywords markers symbols list
    rwa [parsed] at interned
  rw [parse_eq lists] at parsed accepted
  obtain ⟨keyword, announced, found⟩ := keyword_of_parseItems reachable .refl
    (known_of_lists lists known) accepted (congrArg Prod.snd parsed) (List.forall_mem_nil _)
    param member isKeyword
  obtain ⟨_, owns⟩ := (interns.reachable reachable).coherent.owns_of_find? found
  exact ⟨keyword, announced, owns.nameOf, interns.isKeyword_iff reachable found⟩

/-- The markers and four names. -/
private def naming : SymbolStore :=
  let marked := (SymbolStore.initial.exportNames PackageId.system
    ["&optional", "&key", "&rest", "list"]).2
  (((marked.internIn "size" PackageId.user).2.internIn "fill" PackageId.user).2.internIn "more"
    PackageId.user).2

private theorem naming_reachable : naming.Reachable := by
  have marked : SymbolStore.initial.Leads _ :=
    .single (.exportNames _ PackageId.system ["&optional", "&key", "&rest", "list"])
  exact ((marked.tail (.internIn _ "size" PackageId.user)).tail
    (.internIn _ "fill" PackageId.user)).tail (.internIn _ "more" PackageId.user)

/-- The list `(list &optional (size true) &key fill &rest more)`. -/
private def described : Value :=
  .cons 0 (.symbol 3) (.cons 1 (.symbol 0)
    (.cons 2 (.cons 7 (.symbol 4) (.cons 8 (.bool true) .null)) (.cons 3 (.symbol 1)
      (.cons 4 (.symbol 5) (.cons 5 (.symbol 2) (.cons 6 (.symbol 6) .null))))))

private def describedParams (after : SymbolStore) : List (Param Value) :=
  [parameter naming after .required 3 none,
    parameter naming after .optional 4 (some (.bool true)),
    parameter naming after .keyword 5 none, parameter naming after .rest 6 none]

private theorem described_grammar (after : SymbolStore) :
    ∃ items, Value.Lists .null items described ∧
      Grammar ⟨0, 1, 2⟩ naming after items (describedParams after) := by
  have plain : ∀ name ∈ [4, 3, 5, 6],
      naming.kindOf name ≠ .keyword ∧ naming.kindOf name ≠ .constant := by decide +kernel
  have bare : ∀ kind, ∀ name ∈ [3, 5, 6], List.Forall₂ (Declares ⟨0, 1, 2⟩ naming after kind)
      [.symbol name] [parameter naming after kind name none] := by
    intro kind name member
    have unmarked : ∀ name ∈ [3, 5, 6], name ∉ (Markers.mk 0 1 2).symbols := by decide
    have allowed := plain name (List.mem_cons_of_mem _ member)
    exact .cons ⟨name, none, .bare (unmarked name member), allowed.1, allowed.2, rfl⟩ .nil
  have listed : List.Forall₂ (Declares ⟨0, 1, 2⟩ naming after .optional)
      [.cons 7 (.symbol 4) (.cons 8 (.bool true) .null)]
      [parameter naming after .optional 4 (some (.bool true))] := by
    have allowed := plain 4 (List.mem_cons_self ..)
    exact .cons ⟨4, some (.bool true), .withDefault (.inl rfl) (.cons 7 _ (.cons 8 _ .nil)),
      allowed.1, allowed.2, rfl⟩ .nil
  have sections : Sections ⟨0, 1, 2⟩ naming after (Markers.mk 0 1 2).sections _ _ :=
    .present listed (by decide) (.present (bare .keyword 5 (by decide)) (by decide)
      (.present (bare .rest 6 (by decide)) (by decide) .done))
  exact ⟨_, .cons 0 _ (.cons 1 _ (.cons 2 _ (.cons 3 _ (.cons 4 _ (.cons 5 _ (.cons 6 _ .nil)))))),
    .parts (bare .required 3 (by decide)) sections⟩

/-- A list with all sections is accepted, and its keyword parameter is announced by a keyword. -/
theorem parse_accepts_grammar_of_all_sections : ∃ params after,
    parse ⟨0, 1, 2⟩ naming described = (.ok params, after) ∧
      Param.kinds params = [.required, .optional, .keyword, .rest] ∧
      ∃ param ∈ params, ∃ keyword, param.keyword = some keyword ∧
        after.nameOf keyword = "fill" ∧ after.isKeyword keyword = true := by
  have distinct : (Markers.mk 0 1 2).symbols.Nodup := by decide
  have known : described.Known naming := by
    unfold Value.Known
    decide +kernel
  rcases parsed : parse ⟨0, 1, 2⟩ naming described with ⟨outcome, after⟩
  obtain ⟨accepts, describes⟩ := parse_accepts_grammar naming_reachable distinct known parsed
  have accepted := (accepts _).mpr (described_grammar after)
  have third : parameter naming after .keyword 5 none ∈ describedParams after :=
    List.mem_cons_of_mem _ (List.mem_cons_of_mem _ (List.mem_cons_self ..))
  obtain ⟨keyword, given, named, isKeyword⟩ := (describes _ accepted).2.2 _ third rfl
  refine ⟨_, after, Prod.ext accepted rfl, rfl, _, third, keyword, given, ?_, ?_⟩
  · have text : naming.nameOf 5 = "fill" := by decide +kernel
    exact named.trans text
  · rw [isKeyword]
    have absent : naming.find? (naming.nameOf 5) PackageId.keyword = none := by decide +kernel
    intro earlier found
    rw [parameter, absent] at found
    cases found

/-- The keyword package uses the system package, which exports `list`. -/
private def sharing : SymbolStore := naming.usePackage PackageId.keyword PackageId.system

/-- The list `(&key list)`. -/
private def sharedKey : Value := .cons 0 (.symbol 1) (.cons 1 (.symbol 3) .null)

/-- Where the keyword package inherits the name of a keyword parameter, the parameter is announced
by the inherited symbol, which is no keyword. -/
theorem keyword_parameter_inherited :
    sharing.Reachable ∧ sharedKey.Known sharing ∧
      (parse ⟨0, 1, 2⟩ sharing sharedKey).1.toOption.map
        (·.map fun param => (param.kind, param.keyword)) = some [(.keyword, some 3)] ∧
      (parse ⟨0, 1, 2⟩ sharing sharedKey).2.isKeyword 3 = false := by
  refine ⟨naming_reachable.tail (.usePackage _ _ _), ?_, ?_, ?_⟩
  · unfold Value.Known
    decide +kernel
  · decide +kernel
  · decide +kernel

end LambdaList

end ObjectLisp
