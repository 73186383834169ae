import ObjectLisp.Proofs.Symbols.Keywords

/-!
# Records of symbols

Once a symbol is made its record hardly changes.  The one thing that can still
happen is that a plain symbol becomes a constant, and then it is no longer
dynamic.  So a symbol that is known to be lexical stays lexical, a keyword stays
a keyword, and a symbol that is neither becomes no keyword.

None of this holds of a number that no symbol has yet.  Interning therefore gives
numbers of the store that it leaves.
-/

namespace ObjectLisp

/-- The record stays as it is, or that of a plain symbol becomes that of a constant. -/
def Symbol.Settles (found later : Symbol) : Prop :=
  later = found ∨
    found.kind = .plain ∧ later = { found with kind := .constant, dynamic := false }

theorem Symbol.Settles.trans {first second third : Symbol} (left : first.Settles second)
    (right : second.Settles third) : first.Settles third := by
  rcases right with rfl | ⟨plain, rfl⟩
  · exact left
  · rcases left with rfl | ⟨_, rfl⟩
    · exact .inr ⟨plain, rfl⟩
    · cases plain

namespace SymbolStore

variable {store before after : SymbolStore} {name : String} {package : PackageId}
  {symbol : SymbolId}

theorem lt_count_iff : symbol < store.count ↔ ∃ found, store.symbol? symbol = some found := by
  unfold count symbol?
  simp [← Option.isSome_iff_exists]

/-! ## Operations -/

/-- Every record of the first store is in the second one, at most settled, and so is the record
that a new symbol got when it was made. -/
structure Settles (before after : SymbolStore) : Prop where
  old : ∀ symbol found, before.symbol? symbol = some found →
    ∃ later, after.symbol? symbol = some later ∧ found.Settles later
  new : ∀ symbol later, after.symbol? symbol = some later → before.symbol? symbol = none →
    ∃ name home, (Symbol.fresh name home).Settles later

namespace Settles

theorem of_eq (same : after.symbols = before.symbols) : before.Settles after := by
  have records : after.symbol? = before.symbol? := by
    funext symbol
    unfold symbol?
    rw [same]
  constructor
  · intro symbol found atSymbol
    rw [records]
    exact ⟨found, atSymbol, .inl rfl⟩
  · intro symbol later atLater absent
    rw [records, absent] at atLater
    cases atLater

theorem trans {last : SymbolStore} (left : before.Settles after) (right : after.Settles last) :
    before.Settles last := by
  constructor
  · intro symbol found atSymbol
    obtain ⟨middle, atMiddle, settled⟩ := left.old symbol found atSymbol
    obtain ⟨later, atLater, settled'⟩ := right.old symbol middle atMiddle
    exact ⟨later, atLater, settled.trans settled'⟩
  · intro symbol later atLater absent
    cases atMiddle : after.symbol? symbol with
    | none => exact right.new symbol later atLater atMiddle
    | some middle =>
        obtain ⟨name, home, settled⟩ := left.new symbol middle atMiddle absent
        obtain ⟨same, atSame, settled'⟩ := right.old symbol middle atMiddle
        obtain rfl : same = later := Option.some.inj (atSame.symm.trans atLater)
        exact ⟨name, home, settled.trans settled'⟩

/-- A new symbol starts with a fresh record. -/
theorem push (store : SymbolStore) (name : String) (home : Option PackageId)
    (packages : Array Package) :
    store.Settles { symbols := store.symbols.push (.fresh name home), packages } := by
  constructor
  · intro symbol found atSymbol
    exact ⟨found, symbol?_push_of_some packages atSymbol, .inl rfl⟩
  · intro symbol later atLater absent
    rw [symbol?_push] at atLater
    split at atLater
    · cases atLater
      exact ⟨name, home, .inl rfl⟩
    · rw [absent] at atLater
      cases atLater

theorem internIn (store : SymbolStore) (name : String) (package : PackageId) :
    store.Settles (store.internIn name package).2 := by
  unfold SymbolStore.internIn
  split
  · split
    · exact .of_eq rfl
    · exact .push store name (some package) _
  · exact .push store name none _

theorem intern {current : PackageId}
    (interned : store.intern name current = .ok (symbol, after)) : store.Settles after := by
  obtain ⟨plain, package, same⟩ := exists_internIn_of_intern interned
  have made := internIn store plain package
  rwa [same] at made

theorem exportSymbol (store : SymbolStore) (symbol : SymbolId) :
    store.Settles (store.exportSymbol symbol) := by
  refine .of_eq ?_
  unfold SymbolStore.exportSymbol
  split <;> rfl

theorem exportNames (store : SymbolStore) (package : PackageId) (names : List String) :
    store.Settles (store.exportNames package names).2 := by
  induction names generalizing store with
  | nil => exact .of_eq rfl
  | cons name names ih =>
      have one : store.Settles (store.exportName package name).2 := by
        have interned := Settles.internIn store name package
        unfold SymbolStore.exportName
        dsimp only
        split
        · exact interned.trans (.exportSymbol _ _)
        · exact interned
      exact one.trans (ih _)

theorem makeConstant (made : store.makeConstant symbol = .ok after) : store.Settles after := by
  unfold SymbolStore.makeConstant at made
  split at made
  · cases made
    exact .of_eq rfl
  · next record atRecord =>
      split at made
      · cases made
      · cases made
      · next plain =>
          cases made
          constructor
          · intro other found atOther
            unfold symbol? at atOther ⊢
            rw [Array.getElem?_modify]
            split
            · next same =>
                subst same
                rw [atRecord] at atOther
                cases atOther
                exact ⟨_, by rw [atRecord]; rfl, .inr ⟨plain, rfl⟩⟩
            · exact ⟨found, atOther, .inl rfl⟩
          · intro other later atLater absent
            unfold symbol? at atLater absent
            rw [Array.getElem?_modify, absent] at atLater
            split at atLater <;> cases atLater

end Settles

/-- One operation settles records at most. -/
theorem Step.settles (step : before.Step after) : before.Settles after := by
  cases step with
  | addPackage name =>
      refine .of_eq ?_
      unfold SymbolStore.addPackage
      split <;> rfl
  | usePackage package used =>
      refine .of_eq ?_
      unfold SymbolStore.usePackage
      split <;> rfl
  | intern interned => exact .intern interned
  | internIn name package => exact .internIn before name package
  | internKeyword name => exact .internIn before name PackageId.keyword
  | makeUninterned name => exact .push before name none _
  | exportSymbol symbol => exact .exportSymbol before symbol
  | exportNames package names => exact .exportNames before package names
  | makeConstant made => exact .makeConstant made

theorem Leads.settles (leads : before.Leads after) : before.Settles after := by
  induction leads with
  | refl => exact .of_eq rfl
  | tail _ step soFar => exact soFar.trans step.settles

/-! ## What lasts -/

namespace Leads

/-- No operation takes a symbol away. -/
theorem known (leads : before.Leads after) (known : symbol < before.count) :
    symbol < after.count := by
  obtain ⟨found, atSymbol⟩ := lt_count_iff.mp known
  obtain ⟨later, atLater, _⟩ := leads.settles.old symbol found atSymbol
  exact lt_count_iff.mpr ⟨later, atLater⟩

/-- A symbol that is lexical stays lexical. -/
theorem isDynamic_eq_false (leads : before.Leads after) (known : symbol < before.count)
    (lexical : before.isDynamic symbol = false) : after.isDynamic symbol = false := by
  obtain ⟨found, atSymbol⟩ := lt_count_iff.mp known
  obtain ⟨later, atLater, settled⟩ := leads.settles.old symbol found atSymbol
  unfold symbol? at atSymbol atLater
  unfold isDynamic at lexical ⊢
  rw [atSymbol] at lexical
  rw [atLater]
  rcases settled with rfl | ⟨_, rfl⟩
  · exact lexical
  · rfl

/-- The kind of a symbol is the same later on, unless the symbol was made a constant. -/
theorem kindOf_eq (leads : before.Leads after) (known : symbol < before.count) :
    after.kindOf symbol = before.kindOf symbol ∨
      before.kindOf symbol = .plain ∧ after.kindOf symbol = .constant := by
  obtain ⟨found, atSymbol⟩ := lt_count_iff.mp known
  obtain ⟨later, atLater, settled⟩ := leads.settles.old symbol found atSymbol
  unfold symbol? at atSymbol atLater
  unfold kindOf
  rw [atSymbol, atLater]
  rcases settled with rfl | ⟨plain, rfl⟩
  · exact .inl rfl
  · exact .inr ⟨plain, rfl⟩

/-- No symbol becomes a keyword once it is made. -/
theorem kindOf_ne_keyword (leads : before.Leads after) (known : symbol < before.count)
    (noKeyword : before.kindOf symbol ≠ .keyword) : after.kindOf symbol ≠ .keyword := by
  rcases leads.kindOf_eq known with same | ⟨_, constant⟩
  · rwa [same]
  · rw [constant]
    simp

/-- A constant stays a constant. -/
theorem kindOf_eq_constant (leads : before.Leads after)
    (constant : before.kindOf symbol = .constant) : after.kindOf symbol = .constant := by
  have known : symbol < before.count := by
    apply Classical.byContradiction
    intro unknown
    simp [kindOf, Array.getElem?_eq_none (Nat.not_lt.mp unknown)] at constant
  rcases leads.kindOf_eq known with same | ⟨plain, _⟩
  · exact same.trans constant
  · rw [plain] at constant
    cases constant

end Leads

/-- Only names with a star make dynamic variables. -/
theorem Reachable.isDynamic_eq_false (reachable : store.Reachable)
    (unstarred : Symbol.isDynamicName (store.nameOf symbol) = false) :
    store.isDynamic symbol = false := by
  unfold nameOf at unstarred
  unfold isDynamic
  cases atSymbol : store.symbols[symbol]? with
  | none => rfl
  | some found =>
      rw [atSymbol] at unstarred
      dsimp only at unstarred ⊢
      obtain ⟨name, home, settled⟩ := reachable.settles.new symbol found atSymbol rfl
      rcases settled with rfl | ⟨_, rfl⟩
      · have named : (Symbol.fresh name home).name = name := rfl
        rw [named] at unstarred
        simp [Symbol.fresh, unstarred]
      · rfl

/-! ## Symbols that are interned -/

theorem Coherent.lt_count_of_find? (coherent : store.Coherent)
    (found : store.find? name package = some symbol) : symbol < store.count := by
  obtain ⟨home, record, atSymbol, _⟩ := coherent.owns_of_find? found
  exact lt_count_iff.mpr ⟨record, atSymbol⟩

/-- Interning gives a symbol of the store that it leaves. -/
theorem Coherent.lt_count_internIn (coherent : store.Coherent) (name : String)
    (package : PackageId) :
    (store.internIn name package).1 < (store.internIn name package).2.count := by
  unfold SymbolStore.internIn
  split
  · split
    · next found => exact coherent.lt_count_of_find? found
    · simp [SymbolStore.makeInterned, count]
  · simp [SymbolStore.makeUninterned, count]

/-- Interning gives a symbol of the name. -/
theorem Coherent.nameOf_internIn (coherent : store.Coherent) (name : String)
    (package : PackageId) :
    (store.internIn name package).2.nameOf (store.internIn name package).1 = name := by
  unfold SymbolStore.internIn
  split
  · split
    · next found =>
        obtain ⟨_, owns⟩ := coherent.owns_of_find? found
        exact owns.nameOf
    · simp [SymbolStore.makeInterned, nameOf, Symbol.fresh]
  · simp [SymbolStore.makeUninterned, nameOf, Symbol.fresh]

theorem Coherent.lt_count_intern {current : PackageId} (coherent : store.Coherent)
    (interned : store.intern name current = .ok (symbol, after)) : symbol < after.count := by
  obtain ⟨plain, package, same⟩ := exists_internIn_of_intern interned
  have made := coherent.lt_count_internIn plain package
  rwa [same] at made

end SymbolStore

end ObjectLisp
