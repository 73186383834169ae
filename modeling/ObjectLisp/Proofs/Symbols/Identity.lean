import Mathlib.Logic.Relation
import ObjectLisp.Symbol.Store

/-!
# Symbols keep their identity

Interpreters compare symbols by number, so a number has to stand for one name in
one package, and for the same one forever.  Three facts carry this.  The two
tables of a package share no name, an entry under a name is the symbol that has
this name and this home, and every symbol with a home has such an entry.

A table is never asked for numbers: an export moves an entry by its name.  That
this moves the right entry is part of the same invariant.
-/

namespace ObjectLisp.SymbolStore

variable {store before after : SymbolStore} {name other : String} {package : PackageId}
  {symbol : SymbolId}

/-! ## Views of a store -/

/-- The package's internal entry of a name. -/
def internal? (store : SymbolStore) (name : String) (package : PackageId) : Option SymbolId :=
  store.packages[package]?.bind (·.internal.find? name)

/-- The symbol has the name and the home package. -/
def Owns (store : SymbolStore) (package : PackageId) (name : String) (symbol : SymbolId) : Prop :=
  ∃ found, store.symbol? symbol = some found ∧ found.name = name ∧ found.home = some package

theorem present?_eq (store : SymbolStore) (name : String) (package : PackageId) :
    store.present? name package =
      (store.internal? name package).or (store.external? name package) := by
  unfold present? internal? external?
  cases store.packages[package]? <;> rfl

theorem lt_size_of_present (present : store.present? name package = some symbol) :
    package < store.packages.size := by
  obtain ⟨found, atPackage, _⟩ := Option.bind_eq_some_iff.mp present
  exact (Array.getElem?_eq_some_iff.mp atPackage).1

/-- A package's own entry hides everything that it inherits. -/
theorem find?_of_present (present : store.present? name package = some symbol) :
    store.find? name package = some symbol := by
  unfold find?
  rw [present]

theorem present?_of_find?_none (absent : store.find? name package = none) :
    store.present? name package = none := by
  cases found : store.present? name package with
  | none => rfl
  | some symbol =>
      rw [find?_of_present found] at absent
      cases absent

/-- Nothing is found in a package that does not exist. -/
theorem lt_size_of_find? (found : store.find? name package = some symbol) :
    package < store.packages.size := by
  by_cases inside : package < store.packages.size
  · exact inside
  · have missing : store.packages[package]? = none :=
      Array.getElem?_eq_none (Nat.le_of_not_lt inside)
    have alone : store.inherited package = [] := by
      simp [inherited, Graph.preorder, Graph.visit, uses, missing]
    simp [find?, present?, missing, alone] at found

theorem internIn_of_find? (found : store.find? name package = some symbol) :
    store.internIn name package = (symbol, store) := by
  simp [internIn, lt_size_of_find? found, found]

theorem findPackage?_eq_none_iff :
    store.findPackage? name = none ↔ ∀ package, store.packageName? package ≠ some name := by
  unfold findPackage? packageName?
  rw [Array.findIdx?_eq_none_iff]
  constructor
  · intro fresh package named
    obtain ⟨found, atPackage, sameName⟩ := Option.map_eq_some_iff.mp named
    have different := fresh found (Array.mem_of_getElem? atPackage)
    simp [sameName] at different
  · intro fresh found member
    obtain ⟨package, atPackage⟩ := Array.getElem?_of_mem member
    have different := fresh package
    rw [atPackage, Option.map_some] at different
    simpa using different

/-! ## The invariant -/

/-- Entries and symbols fit together. -/
structure Coherent (store : SymbolStore) : Prop where
  present_iff : ∀ {name package symbol},
    store.present? name package = some symbol ↔ store.Owns package name symbol
  disjoint : ∀ name package,
    store.internal? name package = none ∨ store.external? name package = none
  keyword : ∀ {symbol found}, store.symbol? symbol = some found →
    (found.kind = .keyword ↔ found.home = some PackageId.keyword)
  names : ∀ {first second name}, store.packageName? first = some name →
    store.packageName? second = some name → first = second

/-- What no operation takes back: names, homes, constants and exports. -/
structure Keeps (before after : SymbolStore) : Prop where
  symbols : ∀ {symbol found}, before.symbol? symbol = some found →
    ∃ later, after.symbol? symbol = some later ∧ later.name = found.name ∧
      later.home = found.home ∧ (found.kind = .constant → later.kind = .constant)
  external : ∀ {name package symbol}, before.external? name package = some symbol →
    after.external? name package = some symbol

namespace Keeps

theorem refl (store : SymbolStore) : store.Keeps store :=
  ⟨fun same => ⟨_, same, rfl, rfl, id⟩, id⟩

theorem trans {last : SymbolStore} (first : before.Keeps after) (second : after.Keeps last) :
    before.Keeps last := by
  refine ⟨?_, fun exported => second.external (first.external exported)⟩
  intro symbol found same
  obtain ⟨middle, atMiddle, sameName, sameHome, stays⟩ := first.symbols same
  obtain ⟨later, atLater, sameName', sameHome', stays'⟩ := second.symbols atMiddle
  exact ⟨later, atLater, sameName'.trans sameName, sameHome'.trans sameHome,
    fun constant => stays' (stays constant)⟩

theorem owns (keeps : before.Keeps after) (owns : before.Owns package name symbol) :
    after.Owns package name symbol := by
  obtain ⟨found, atSymbol, sameName, sameHome⟩ := owns
  obtain ⟨later, atLater, laterName, laterHome, _⟩ := keeps.symbols atSymbol
  exact ⟨later, atLater, laterName.trans sameName, laterHome.trans sameHome⟩

end Keeps

/-- An entry of a coherent store is what its name denotes. -/
theorem Coherent.find?_of_owns (coherent : store.Coherent)
    (owns : store.Owns package name symbol) : store.find? name package = some symbol :=
  find?_of_present (coherent.present_iff.mpr owns)

/-! ## Views of a changed store -/

theorem internal?_modify (store : SymbolStore) (symbols : Array Symbol)
    (change : Package → Package) (name : String) (package other : PackageId) :
    internal? { symbols, packages := store.packages.modify package change } name other =
      if package = other then
        store.packages[other]?.bind fun found => (change found).internal.find? name
      else store.internal? name other := by
  unfold internal?
  rw [Array.getElem?_modify]
  split
  · cases store.packages[other]? <;> rfl
  · rfl

theorem external?_modify (store : SymbolStore) (symbols : Array Symbol)
    (change : Package → Package) (name : String) (package other : PackageId) :
    external? { symbols, packages := store.packages.modify package change } name other =
      if package = other then
        store.packages[other]?.bind fun found => (change found).external.find? name
      else store.external? name other := by
  unfold external?
  rw [Array.getElem?_modify]
  split
  · cases store.packages[other]? <;> rfl
  · rfl

theorem packageName?_modify (store : SymbolStore) (symbols : Array Symbol)
    {change : Package → Package} (sameName : ∀ found, (change found).name = found.name)
    (package other : PackageId) :
    packageName? { symbols, packages := store.packages.modify package change } other =
      store.packageName? other := by
  unfold packageName?
  rw [Array.getElem?_modify]
  split
  · cases store.packages[other]? with
    | none => rfl
    | some found => simp [sameName]
  · rfl

/-! ## Packages -/

/-- Symbols and entries are as before. -/
structure SameEntries (before after : SymbolStore) : Prop where
  symbols : after.symbols = before.symbols
  internal : ∀ name package, after.internal? name package = before.internal? name package
  external : ∀ name package, after.external? name package = before.external? name package

theorem SameEntries.keeps (same : before.SameEntries after) : before.Keeps after := by
  constructor
  · intro symbol found atSymbol
    unfold symbol? at atSymbol ⊢
    rw [same.symbols]
    exact ⟨found, atSymbol, rfl, rfl, id⟩
  · intro name package symbol exported
    rwa [same.external]

theorem Coherent.of_sameEntries (coherent : before.Coherent) (same : before.SameEntries after)
    (names : ∀ {first second name}, after.packageName? first = some name →
      after.packageName? second = some name → first = second) : after.Coherent := by
  have sameSymbol : ∀ symbol, after.symbol? symbol = before.symbol? symbol := by
    intro symbol
    unfold symbol?
    rw [same.symbols]
  refine ⟨?_, ?_, ?_, names⟩
  · intro name package symbol
    rw [present?_eq, same.internal, same.external, ← present?_eq, coherent.present_iff]
    unfold Owns
    rw [sameSymbol]
  · intro name package
    rw [same.internal, same.external]
    exact coherent.disjoint name package
  · intro symbol found atSymbol
    rw [sameSymbol] at atSymbol
    exact coherent.keyword atSymbol

theorem getElem?_pushed (store : SymbolStore) (name : String) (package : PackageId) :
    (store.packages.push { name })[package]? =
      if package = store.packages.size then some { name } else store.packages[package]? :=
  Array.getElem?_push

/-- A new package has no entries yet. -/
theorem sameEntries_push (store : SymbolStore) (name : String) :
    store.SameEntries { store with packages := store.packages.push { name } } := by
  have outside : store.packages[store.packages.size]? = none :=
    Array.getElem?_eq_none (Nat.le_refl _)
  refine ⟨rfl, ?_, ?_⟩
  · intro other package
    unfold internal?
    rw [getElem?_pushed]
    split
    · next last => rw [last, outside]; rfl
    · rfl
  · intro other package
    unfold external?
    rw [getElem?_pushed]
    split
    · next last => rw [last, outside]; rfl
    · rfl

theorem Coherent.addPackage (coherent : store.Coherent) (name : String) :
    (store.addPackage name).2.Coherent ∧ store.Keeps (store.addPackage name).2 := by
  unfold SymbolStore.addPackage
  split
  · exact ⟨coherent, .refl store⟩
  · next fresh =>
      have same := store.sameEntries_push name
      refine ⟨coherent.of_sameEntries same ?_, same.keeps⟩
      have named : ∀ package,
          packageName? { store with packages := store.packages.push { name } } package =
            if package = store.packages.size then some name else store.packageName? package := by
        intro package
        unfold packageName?
        rw [getElem?_pushed]
        split <;> rfl
      have unused := findPackage?_eq_none_iff.mp fresh
      intro first second other firstName secondName
      rw [named] at firstName secondName
      split at firstName <;> split at secondName
      · next firstLast secondLast => rw [firstLast, secondLast]
      · cases firstName
        exact absurd secondName (unused second)
      · cases secondName
        exact absurd firstName (unused first)
      · exact coherent.names firstName secondName

theorem Coherent.usePackage (coherent : store.Coherent) (package used : PackageId) :
    (store.usePackage package used).Coherent ∧ store.Keeps (store.usePackage package used) := by
  unfold SymbolStore.usePackage
  split
  · exact ⟨coherent, .refl store⟩
  · generalize changed : (fun found : Package =>
      if used ∈ found.uses then found else { found with uses := found.uses ++ [used] }) = change
    have sameParts : ∀ found, (change found).internal = found.internal ∧
        (change found).external = found.external ∧ (change found).name = found.name := by
      intro found
      rw [← changed]
      dsimp only
      split <;> exact ⟨rfl, rfl, rfl⟩
    have same : store.SameEntries
        { store with packages := store.packages.modify package change } := by
      refine ⟨rfl, ?_, ?_⟩
      · intro name other
        rw [internal?_modify]
        simp only [(sameParts _).1, internal?, ite_self]
      · intro name other
        rw [external?_modify]
        simp only [(sameParts _).2.1, external?, ite_self]
    refine ⟨coherent.of_sameEntries same ?_, same.keeps⟩
    intro first second name firstName secondName
    rw [packageName?_modify _ _ fun found => (sameParts found).2.2] at firstName secondName
    exact coherent.names firstName secondName

/-! ## New symbols -/

theorem symbol?_push (store : SymbolStore) (made : Symbol) (packages : Array Package)
    (symbol : SymbolId) :
    symbol? { symbols := store.symbols.push made, packages } symbol =
      if symbol = store.symbols.size then some made else store.symbol? symbol :=
  Array.getElem?_push

/-- A new number hides no symbol that is there. -/
theorem symbol?_push_of_some {made found : Symbol} (packages : Array Package)
    (atSymbol : store.symbol? symbol = some found) :
    symbol? { symbols := store.symbols.push made, packages } symbol = some found := by
  have early : symbol < store.symbols.size := (Array.getElem?_eq_some_iff.mp atSymbol).1
  rw [symbol?_push, if_neg (Nat.ne_of_lt early), atSymbol]

theorem owns_push_iff (made : Symbol) (packages : Array Package) :
    Owns { symbols := store.symbols.push made, packages } package name symbol ↔
      store.Owns package name symbol ∨
        symbol = store.symbols.size ∧ made.name = name ∧ made.home = some package := by
  constructor
  · rintro ⟨found, atSymbol, sameName, sameHome⟩
    rw [symbol?_push] at atSymbol
    split at atSymbol
    · next last =>
        cases atSymbol
        exact .inr ⟨last, sameName, sameHome⟩
    · exact .inl ⟨found, atSymbol, sameName, sameHome⟩
  · rintro (⟨found, atSymbol, sameName, sameHome⟩ | ⟨rfl, sameName, sameHome⟩)
    · exact ⟨found, symbol?_push_of_some packages atSymbol, sameName, sameHome⟩
    · exact ⟨made, by rw [symbol?_push, if_pos rfl], sameName, sameHome⟩

/-- The kind of a new symbol is decided by its home. -/
theorem fresh_kind (name : String) (home : Option PackageId) :
    (Symbol.fresh name home).kind = .keyword ↔
      (Symbol.fresh name home).home = some PackageId.keyword := by
  unfold Symbol.fresh
  by_cases isKeyword : home = some PackageId.keyword
  · simp [isKeyword]
  · simp [isKeyword]

theorem Coherent.keyword_push (coherent : store.Coherent) {home : Option PackageId}
    {packages : Array Package} {found : Symbol}
    (atSymbol : symbol? { symbols := store.symbols.push (.fresh name home), packages } symbol =
      some found) : found.kind = .keyword ↔ found.home = some PackageId.keyword := by
  rw [symbol?_push] at atSymbol
  split at atSymbol
  · cases atSymbol
    exact fresh_kind name home
  · exact coherent.keyword atSymbol

theorem Coherent.makeUninterned (coherent : store.Coherent) (name : String) :
    (store.makeUninterned name).2.Coherent ∧ store.Keeps (store.makeUninterned name).2 := by
  refine ⟨⟨?_, coherent.disjoint, coherent.keyword_push, coherent.names⟩, ?_, id⟩
  · intro other package symbol
    unfold SymbolStore.makeUninterned
    rw [owns_push_iff]
    have homeless : (Symbol.fresh name none).home ≠ some package := nofun
    simp only [homeless, and_false, or_false]
    exact coherent.present_iff
  · intro symbol found atSymbol
    exact ⟨found, symbol?_push_of_some _ atSymbol, rfl, rfl, id⟩

/-! ## New entries -/

/-- Outside of the keyword package a new entry is internal. -/
theorem internal?_makeInterned (inside : package < store.packages.size) (other : String)
    (target : PackageId) :
    (store.makeInterned name package).2.internal? other target =
      if name = other ∧ package = target ∧ package ≠ PackageId.keyword
        then some store.symbols.size else store.internal? other target := by
  unfold makeInterned
  rw [internal?_modify]
  by_cases here : package = target
  · subst here
    by_cases isKeyword : package = PackageId.keyword
    · simp [isKeyword, internal?]
    · by_cases sameName : name = other <;>
        simp [isKeyword, internal?, sameName, inside]
  · simp [here]

/-- A new keyword is exported. -/
theorem external?_makeInterned (inside : package < store.packages.size) (other : String)
    (target : PackageId) :
    (store.makeInterned name package).2.external? other target =
      if name = other ∧ package = target ∧ package = PackageId.keyword
        then some store.symbols.size else store.external? other target := by
  unfold makeInterned
  rw [external?_modify]
  by_cases here : package = target
  · subst here
    by_cases isKeyword : package = PackageId.keyword
    · subst isKeyword
      by_cases sameName : name = other <;> simp [external?, sameName, inside]
    · simp [isKeyword, external?]
  · simp [here]

/-- Whichever table it is in, a new entry of an absent name is present, and no other one is
touched. -/
theorem present?_makeInterned (inside : package < store.packages.size)
    (absent : store.present? name package = none) (other : String) (target : PackageId) :
    (store.makeInterned name package).2.present? other target =
      if name = other ∧ package = target then some store.symbols.size
        else store.present? other target := by
  rw [present?_eq, present?_eq, internal?_makeInterned inside, external?_makeInterned inside]
  by_cases here : name = other ∧ package = target
  · obtain ⟨rfl, rfl⟩ := here
    rw [present?_eq, Option.or_eq_none_iff] at absent
    by_cases isKeyword : package = PackageId.keyword
    · subst isKeyword
      simp [absent.1]
    · simp [isKeyword]
  · have elsewhere : ∀ condition : Prop, ¬ (name = other ∧ package = target ∧ condition) :=
      fun _ all => here ⟨all.1, all.2.1⟩
    simp only [if_neg here, if_neg (elsewhere _)]

theorem Coherent.makeInterned (coherent : store.Coherent) (inside : package < store.packages.size)
    (absent : store.present? name package = none) :
    (store.makeInterned name package).2.Coherent ∧
      store.Keeps (store.makeInterned name package).2 := by
  obtain ⟨noInternal, noExternal⟩ : store.internal? name package = none ∧
      store.external? name package = none := by
    rwa [present?_eq, Option.or_eq_none_iff] at absent
  refine ⟨⟨?_, ?_, coherent.keyword_push, ?_⟩, ?_, ?_⟩
  · intro other target symbol
    rw [present?_makeInterned inside absent]
    change _ ↔ Owns { symbols := store.symbols.push (.fresh name (some package)), packages := _ }
      target other symbol
    rw [owns_push_iff]
    change _ ↔ _ ∨ symbol = store.symbols.size ∧ name = other ∧ some package = some target
    by_cases here : name = other ∧ package = target
    · obtain ⟨rfl, rfl⟩ := here
      have unowned : ¬ store.Owns package name symbol := by
        rw [← coherent.present_iff, absent]
        simp
      simp [unowned, eq_comm]
    · have elsewhere : ¬ (symbol = store.symbols.size ∧ name = other ∧
          some package = some target) := fun all => here ⟨all.2.1, Option.some.inj all.2.2⟩
      rw [if_neg here, coherent.present_iff, or_iff_left elsewhere]
  · intro other target
    rw [internal?_makeInterned inside, external?_makeInterned inside]
    by_cases here : name = other ∧ package = target
    · obtain ⟨rfl, rfl⟩ := here
      by_cases isKeyword : package = PackageId.keyword
      · exact .inl (by rw [if_neg fun all => all.2.2 isKeyword]; exact noInternal)
      · exact .inr (by rw [if_neg fun all => isKeyword all.2.2]; exact noExternal)
    · rw [if_neg fun all => here ⟨all.1, all.2.1⟩, if_neg fun all => here ⟨all.1, all.2.1⟩]
      exact coherent.disjoint other target
  · intro first second other firstName secondName
    have sameName : ∀ found : Package,
        (if package = PackageId.keyword then
          { found with external := found.external.insert name store.symbols.size }
        else { found with internal := found.internal.insert name store.symbols.size }).name =
          found.name := by
      intro found
      split <;> rfl
    unfold SymbolStore.makeInterned at firstName secondName
    rw [packageName?_modify _ _ sameName] at firstName secondName
    exact coherent.names firstName secondName
  · intro symbol found atSymbol
    exact ⟨found, symbol?_push_of_some _ atSymbol, rfl, rfl, id⟩
  · intro other target symbol exported
    rw [external?_makeInterned inside]
    split
    · next here =>
        obtain ⟨rfl, rfl, _⟩ := here
        rw [noExternal] at exported
        cases exported
    · exact exported

/-! ## Exports and constants -/

/-- An export takes the symbol's own entry, and only that one, from one table to the other. -/
theorem Coherent.exportSymbol (coherent : store.Coherent) (symbol : SymbolId) :
    (store.exportSymbol symbol).Coherent ∧ store.Keeps (store.exportSymbol symbol) := by
  unfold SymbolStore.exportSymbol
  split
  case h_2 => exact ⟨coherent, .refl store⟩
  case h_1 name package kind dynamic atSymbol =>
    have present : store.present? name package = some symbol :=
      coherent.present_iff.mpr ⟨_, atSymbol, rfl, rfl⟩
    have inside := lt_size_of_present present
    have internal : ∀ other target,
        internal? { store with
          packages := store.packages.modify package (·.exporting name symbol) } other target =
          if name = other ∧ package = target then none else store.internal? other target := by
      intro other target
      rw [internal?_modify]
      by_cases here : package = target
      · subst here
        by_cases sameName : name = other <;>
          simp [Package.exporting, internal?, sameName, inside]
      · simp [here]
    have external : ∀ other target,
        external? { store with
          packages := store.packages.modify package (·.exporting name symbol) } other target =
          if name = other ∧ package = target then some symbol
            else store.external? other target := by
      intro other target
      rw [external?_modify]
      by_cases here : package = target
      · subst here
        by_cases sameName : name = other <;>
          simp [Package.exporting, external?, sameName, inside]
      · simp [here]
    refine ⟨⟨?_, ?_, coherent.keyword, ?_⟩, ?_, ?_⟩
    · intro other target another
      rw [present?_eq, internal, external]
      by_cases here : name = other ∧ package = target
      · obtain ⟨rfl, rfl⟩ := here
        simp only [and_self, if_true, Option.none_or, ← present]
        exact coherent.present_iff
      · rw [if_neg here, if_neg here, ← present?_eq]
        exact coherent.present_iff
    · intro other target
      rw [internal, external]
      split
      · exact .inl rfl
      · exact coherent.disjoint other target
    · intro first second other firstName secondName
      rw [packageName?_modify] at firstName secondName
      · exact coherent.names firstName secondName
      all_goals exact fun _ => rfl
    · intro another found same
      exact ⟨found, same, rfl, rfl, id⟩
    · intro other target another exported
      rw [external]
      split
      · next here =>
          -- The name was exported already, and its entry is the symbol that has this name.
          obtain ⟨rfl, rfl⟩ := here
          have noInternal : store.internal? name package = none := by
            rcases coherent.disjoint name package with empty | empty
            · exact empty
            · rw [exported] at empty
              cases empty
          rw [present?_eq, noInternal, Option.none_or, exported] at present
          exact present.symm
      · exact exported

/-- Only a symbol that may be assigned can become a constant. -/
theorem assignmentProblem?_of_makeConstant (made : store.makeConstant symbol = .ok after) :
    store.assignmentProblem? symbol = none := by
  unfold SymbolStore.makeConstant at made
  unfold assignmentProblem?
  cases atSymbol : store.symbols[symbol]? with
  | none => rfl
  | some found => cases kind : found.kind <;> simp_all

theorem Coherent.makeConstant (coherent : store.Coherent)
    (made : store.makeConstant symbol = .ok after) : after.Coherent ∧ store.Keeps after := by
  unfold SymbolStore.makeConstant at made
  split at made
  · cases made
    exact ⟨coherent, .refl store⟩
  · next found atSymbol =>
      split at made
      · cases made
      · cases made
      · next plain =>
          cases made
          have changed : ∀ other, symbol? { store with
              symbols := store.symbols.modify symbol fun plain =>
                { plain with kind := .constant, dynamic := false } } other =
              if symbol = other then some { found with kind := .constant, dynamic := false }
                else store.symbol? other := by
            intro other
            unfold symbol?
            rw [Array.getElem?_modify]
            split
            · next same => rw [← same, atSymbol]; rfl
            · rfl
          refine ⟨⟨?_, coherent.disjoint, ?_, coherent.names⟩, ?_, id⟩
          · intro name package other
            refine coherent.present_iff.trans ?_
            unfold Owns
            rw [changed]
            split
            · next same =>
                have here : store.symbol? other = some found := same ▸ atSymbol
                simp [here]
            · rfl
          · intro other changedFound atOther
            rw [changed] at atOther
            split at atOther
            · cases atOther
              have notKeyword : found.home ≠ some PackageId.keyword := by
                rw [Ne, ← coherent.keyword atSymbol, plain]
                simp
              simp [notKeyword]
            · exact coherent.keyword atOther
          · intro other old atOther
            rw [changed]
            split
            · next same =>
                have here : store.symbol? other = some found := same ▸ atSymbol
                rw [here] at atOther
                cases atOther
                exact ⟨_, rfl, rfl, rfl, fun _ => rfl⟩
            · exact ⟨old, atOther, rfl, rfl, id⟩

/-! ## Operations made of these -/

theorem Coherent.internIn (coherent : store.Coherent) (name : String) (package : PackageId) :
    (store.internIn name package).2.Coherent ∧ store.Keeps (store.internIn name package).2 := by
  unfold SymbolStore.internIn
  split
  · next inside =>
      split
      · exact ⟨coherent, .refl store⟩
      · next absent => exact coherent.makeInterned inside (present?_of_find?_none absent)
  · exact coherent.makeUninterned name

/-- A name that can be interned is interned in some package, without its qualifier. -/
theorem exists_internIn_of_intern {current : PackageId}
    (interned : store.intern name current = .ok (symbol, after)) :
    ∃ plain package, store.internIn plain package = (symbol, after) := by
  unfold intern at interned
  split at interned
  · exact ⟨name, current, Except.ok.inj interned⟩
  · next plain _ =>
      split at interned
      · next found _ => exact ⟨plain, found, Except.ok.inj interned⟩
      · cases interned

theorem Coherent.intern {current : PackageId} (coherent : store.Coherent)
    (interned : store.intern name current = .ok (symbol, after)) :
    after.Coherent ∧ store.Keeps after := by
  obtain ⟨plain, package, same⟩ := exists_internIn_of_intern interned
  have made := coherent.internIn plain package
  rwa [same] at made

theorem Coherent.exportName (coherent : store.Coherent) (package : PackageId) (name : String) :
    (store.exportName package name).2.Coherent ∧ store.Keeps (store.exportName package name).2 := by
  obtain ⟨interned, keeps⟩ := coherent.internIn name package
  unfold SymbolStore.exportName
  dsimp only
  split
  · obtain ⟨exported, keeps'⟩ := interned.exportSymbol (store.internIn name package).1
    exact ⟨exported, keeps.trans keeps'⟩
  · exact ⟨interned, keeps⟩

theorem Coherent.exportNames (coherent : store.Coherent) (package : PackageId)
    (names : List String) :
    (store.exportNames package names).2.Coherent ∧
      store.Keeps (store.exportNames package names).2 := by
  induction names generalizing store with
  | nil => exact ⟨coherent, .refl store⟩
  | cons name names exportRest =>
      obtain ⟨exported, keeps⟩ := coherent.exportName package name
      obtain ⟨exportedRest, keepsRest⟩ := exportRest exported
      exact ⟨exportedRest, keeps.trans keepsRest⟩

/-! ## Runs -/

/-- One operation on a store.  One that fails changes nothing and is no step. -/
inductive Step : SymbolStore → SymbolStore → Prop where
  | addPackage (store : SymbolStore) (name : String) : Step store (store.addPackage name).2
  | usePackage (store : SymbolStore) (package used : PackageId) :
      Step store (store.usePackage package used)
  | intern {store after : SymbolStore} {name : String} {current : PackageId} {symbol : SymbolId}
      (interned : store.intern name current = .ok (symbol, after)) : Step store after
  | internIn (store : SymbolStore) (name : String) (package : PackageId) :
      Step store (store.internIn name package).2
  | internKeyword (store : SymbolStore) (name : String) : Step store (store.internKeyword name).2
  | makeUninterned (store : SymbolStore) (name : String) :
      Step store (store.makeUninterned name).2
  | exportSymbol (store : SymbolStore) (symbol : SymbolId) : Step store (store.exportSymbol symbol)
  | exportNames (store : SymbolStore) (package : PackageId) (names : List String) :
      Step store (store.exportNames package names).2
  | makeConstant {store after : SymbolStore} {symbol : SymbolId}
      (made : store.makeConstant symbol = .ok after) : Step store after

/-- Any number of operations. -/
def Leads : SymbolStore → SymbolStore → Prop := Relation.ReflTransGen Step

/-- Some operations lead from the first store to this one. -/
def Reachable (store : SymbolStore) : Prop := initial.Leads store

/-- Any number of keywords are interned. -/
def InternsKeywords : SymbolStore → SymbolStore → Prop :=
  Relation.ReflTransGen fun before after => ∃ name, (before.internKeyword name).2 = after

theorem InternsKeywords.leads (interns : before.InternsKeywords after) : before.Leads after := by
  refine Relation.ReflTransGen.mono ?_ _ _ interns
  rintro before _ ⟨name, rfl⟩
  exact .internKeyword before name

theorem Coherent.step (coherent : before.Coherent) (step : before.Step after) :
    after.Coherent ∧ before.Keeps after := by
  cases step with
  | addPackage name => exact coherent.addPackage name
  | usePackage package used => exact coherent.usePackage package used
  | intern interned => exact coherent.intern interned
  | internIn name package => exact coherent.internIn name package
  | internKeyword name => exact coherent.internIn name PackageId.keyword
  | makeUninterned name => exact coherent.makeUninterned name
  | exportSymbol symbol => exact coherent.exportSymbol symbol
  | exportNames package names => exact coherent.exportNames package names
  | makeConstant made => exact coherent.makeConstant made

theorem Coherent.leads (coherent : before.Coherent) (leads : before.Leads after) :
    after.Coherent ∧ before.Keeps after := by
  induction leads with
  | refl => exact ⟨coherent, .refl before⟩
  | tail _ step soFar =>
      obtain ⟨stays, keeps⟩ := soFar.1.step step
      exact ⟨stays, soFar.2.trans keeps⟩

theorem size_internIn (store : SymbolStore) (name : String) (package : PackageId) :
    (store.internIn name package).2.packages.size = store.packages.size := by
  unfold internIn
  split
  · split
    · rfl
    · exact Array.size_modify
  · rfl

theorem size_intern {current : PackageId}
    (interned : store.intern name current = .ok (symbol, after)) :
    after.packages.size = store.packages.size := by
  obtain ⟨plain, package, same⟩ := exists_internIn_of_intern interned
  have made := store.size_internIn plain package
  rwa [same] at made

theorem size_exportSymbol (store : SymbolStore) (symbol : SymbolId) :
    (store.exportSymbol symbol).packages.size = store.packages.size := by
  unfold exportSymbol
  split
  · exact Array.size_modify
  · rfl

theorem size_exportName (store : SymbolStore) (package : PackageId) (name : String) :
    (store.exportName package name).2.packages.size = store.packages.size := by
  unfold exportName
  dsimp only
  split
  · exact (size_exportSymbol _ _).trans (store.size_internIn name package)
  · exact store.size_internIn name package

theorem size_exportNames (store : SymbolStore) (package : PackageId) (names : List String) :
    (store.exportNames package names).2.packages.size = store.packages.size := by
  induction names generalizing store with
  | nil => rfl
  | cons name names ih =>
      exact (ih (store.exportName package name).2).trans (store.size_exportName package name)

/-- No operation takes a package away. -/
theorem Step.size_le (step : before.Step after) :
    before.packages.size ≤ after.packages.size := by
  cases step with
  | addPackage name =>
      unfold SymbolStore.addPackage
      split
      · exact Nat.le_refl _
      · simp
  | usePackage package used =>
      unfold SymbolStore.usePackage
      split
      · exact Nat.le_refl _
      · exact Nat.le_of_eq Array.size_modify.symm
  | intern interned => exact Nat.le_of_eq (size_intern interned).symm
  | internIn name package => exact Nat.le_of_eq (before.size_internIn name package).symm
  | internKeyword name => exact Nat.le_of_eq (before.size_internIn name PackageId.keyword).symm
  | makeUninterned name => exact Nat.le_refl _
  | exportSymbol symbol => exact Nat.le_of_eq (before.size_exportSymbol symbol).symm
  | exportNames package names => exact Nat.le_of_eq (before.size_exportNames package names).symm
  | makeConstant made =>
      unfold SymbolStore.makeConstant at made
      split at made
      · cases made
        exact Nat.le_refl _
      · split at made <;> cases made
        exact Nat.le_refl _

theorem Leads.size_le (leads : before.Leads after) :
    before.packages.size ≤ after.packages.size := by
  induction leads with
  | refl => exact Nat.le_refl _
  | tail _ step soFar => exact Nat.le_trans soFar step.size_le

theorem coherent_empty : Coherent {} := by
  constructor <;> simp [present?, Owns, symbol?, internal?, external?, packageName?]

/-- The first store is made by operations as well. -/
theorem initial_eq : initial =
    (((addPackage {} "keyword").2.addPackage "system").2.addPackage "user").2.usePackage
      PackageId.user PackageId.system := by
  simp [initial, addPackage, findPackage?, usePackage, PackageId.user, PackageId.system,
    List.findIdx?_cons, Array.modify, Array.modifyM]

theorem Reachable.coherent (reachable : store.Reachable) : store.Coherent := by
  have started : initial.Coherent := by
    rw [initial_eq]
    have first := (coherent_empty.addPackage "keyword").1
    exact (((first.addPackage "system").1.addPackage "user").1.usePackage _ _).1
  exact (started.leads reachable).1

/-- A symbol is one name in one package, for good.  Whatever the operations so far, the two
tables of a package share no name, a package has an entry under a name exactly for the symbol
that has this name and this home, and the keywords are the symbols of the keyword package.
Whatever the operations to come, names, homes, constants and exports stay, and a name looked up
at home denotes the symbol that it denotes now. -/
theorem Reachable.symbol_identity_kept (reachable : store.Reachable) :
    (∀ name package, store.internal? name package = none ∨ store.external? name package = none) ∧
    (∀ name package symbol,
      store.internal? name package = some symbol ∨ store.external? name package = some symbol ↔
        store.Owns package name symbol) ∧
    (∀ name package first second, store.Owns package name first →
      store.Owns package name second → first = second) ∧
    (∀ symbol found, store.symbol? symbol = some found →
      (found.kind = .keyword ↔ found.home = some PackageId.keyword)) ∧
    ∀ later, store.Leads later →
      (∀ symbol found, store.symbol? symbol = some found →
        ∃ now, later.symbol? symbol = some now ∧ now.name = found.name ∧
          now.home = found.home ∧ (found.kind = .constant → now.kind = .constant)) ∧
      (∀ name package symbol, store.external? name package = some symbol →
        later.external? name package = some symbol ∧ later.internal? name package = none) ∧
      ∀ name package symbol, store.Owns package name symbol →
        later.find? name package = some symbol := by
  have coherent := reachable.coherent
  refine ⟨coherent.disjoint, ?_, ?_, fun _ _ => coherent.keyword, ?_⟩
  · intro name package symbol
    rw [← coherent.present_iff, present?_eq]
    rcases coherent.disjoint name package with empty | empty <;> simp [empty]
  · intro name package first second ownsFirst ownsSecond
    have denotes := coherent.present_iff.mpr ownsFirst
    rw [coherent.present_iff.mpr ownsSecond] at denotes
    exact (Option.some.inj denotes).symm
  · intro later leads
    obtain ⟨laterCoherent, keeps⟩ := coherent.leads leads
    refine ⟨fun _ _ => keeps.symbols, ?_, fun _ _ _ owns =>
      laterCoherent.find?_of_owns (keeps.owns owns)⟩
    intro name package symbol exported
    have stays := keeps.external exported
    refine ⟨stays, (laterCoherent.disjoint name package).resolve_right ?_⟩
    rw [stays]
    exact nofun

/-- An exported constant of a new package is found there after whatever follows. -/
theorem symbol_identity_kept_of_export :
    ∃ store : SymbolStore, store.Reachable ∧ store.Owns 3 "origin" 0 ∧
      ∀ later, store.Leads later → later.find? "origin" 3 = some 0 := by
  have reachable :
      (exportSymbol (((initial.addPackage "geo").2.internIn "origin" 3).2) 0).Reachable :=
    .tail (.tail (.tail .refl (.addPackage _ "geo")) (.internIn _ "origin" 3)) (.exportSymbol _ 0)
  have owns : (exportSymbol (((initial.addPackage "geo").2.internIn "origin" 3).2) 0).Owns 3
      "origin" 0 := ⟨.fresh "origin" (some 3), by decide +kernel, rfl, rfl⟩
  exact ⟨_, reachable, owns, fun later leads =>
    (reachable.symbol_identity_kept.2.2.2.2 later leads).2.2 "origin" 3 0 owns⟩

end ObjectLisp.SymbolStore
