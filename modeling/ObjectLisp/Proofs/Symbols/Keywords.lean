import ObjectLisp.Proofs.Symbols.Lookup

/-!
# Interning keywords

Keywords are the symbols of a package of their own, and a name is interned among
them like in any other package: as what it denotes there.  This is a keyword as long
as the package uses no other one.  If it does, a name that is exported there denotes
the inherited symbol, which is no keyword, and interning the name makes none.

Whatever else is interned among the keywords, a name that denotes something there
goes on denoting it.
-/

namespace ObjectLisp.SymbolStore

variable {store : SymbolStore} {name : String} {package : PackageId} {symbol : SymbolId}

/-! ## Symbols that are found -/

theorem Reachable.keyword_lt_size (reachable : store.Reachable) :
    PackageId.keyword < store.packages.size :=
  Nat.lt_of_lt_of_le (by decide) reachable.size_le

theorem symbol?_internIn (known : symbol < store.count) (name : String) (package : PackageId) :
    (store.internIn name package).2.symbol? symbol = store.symbol? symbol := by
  have early : symbol ≠ store.symbols.size := Nat.ne_of_lt known
  unfold internIn
  split
  · split
    · rfl
    · exact (symbol?_push store _ _ symbol).trans (if_neg early)
  · exact (symbol?_push store _ _ symbol).trans (if_neg early)

/-- What is found in a package has the name it is found under, and a home. -/
theorem Coherent.owns_of_find? (coherent : store.Coherent)
    (found : store.find? name package = some symbol) : ∃ home, store.Owns home name symbol := by
  unfold find? at found
  cases present : store.present? name package with
  | some own =>
      rw [present] at found
      cases found
      exact ⟨package, coherent.present_iff.mp present⟩
  | none =>
      rw [present] at found
      obtain ⟨source, _, exported⟩ := List.exists_of_findSome?_eq_some found
      refine ⟨source, coherent.present_iff.mp ?_⟩
      rcases coherent.disjoint name source with empty | empty
      · rw [present?_eq, empty, Option.none_or, exported]
      · rw [exported] at empty
        cases empty

theorem Coherent.isKeyword_iff (coherent : store.Coherent) :
    store.isKeyword symbol = true ↔ store.homeOf symbol = some PackageId.keyword := by
  unfold isKeyword kindOf homeOf
  cases atSymbol : store.symbols[symbol]? with
  | none => simp
  | some found => simpa using coherent.keyword atSymbol

theorem Owns.homeOf (owns : store.Owns package name symbol) :
    store.homeOf symbol = some package := by
  obtain ⟨found, atSymbol, _, home⟩ := owns
  unfold SymbolStore.homeOf
  rw [← symbol?, atSymbol, Option.bind_some, home]

theorem Owns.nameOf (owns : store.Owns package name symbol) : store.nameOf symbol = name := by
  obtain ⟨found, atSymbol, named, _⟩ := owns
  unfold SymbolStore.nameOf
  rw [← symbol?, atSymbol]
  exact named

/-! ## One keyword -/

/-- Interning a name among the keywords changes what this name denotes there, and no other. -/
theorem find?_internKeyword (reachable : store.Reachable) (other name : String) :
    (store.internKeyword other).2.find? name PackageId.keyword =
      if other = name then some (store.internKeyword other).1
        else store.find? name PackageId.keyword := by
  have inside := reachable.keyword_lt_size
  split
  · next same =>
      rw [← same]
      exact find?_internIn inside other
  · next different =>
      unfold internKeyword internIn
      rw [if_pos inside]
      cases absent : store.find? other PackageId.keyword with
      | some _ => rfl
      | none =>
          exact find?_makeInterned inside (present?_of_find?_none absent)
            (fun both => different both.1) fun _ => store.not_mem_inherited_self _

theorem find?_internKeyword_of_some (reachable : store.Reachable)
    (found : store.find? name PackageId.keyword = some symbol) (other : String) :
    (store.internKeyword other).2.find? name PackageId.keyword = some symbol := by
  rw [find?_internKeyword reachable]
  split
  · next same =>
      rw [same, internKeyword, internIn_of_find? found]
  · exact found

/-- A name that denotes nothing among the keywords is interned as a keyword. -/
theorem owns_internKeyword (reachable : store.Reachable)
    (absent : store.find? name PackageId.keyword = none) :
    (store.internKeyword name).2.Owns PackageId.keyword name (store.internKeyword name).1 := by
  unfold internKeyword internIn
  rw [if_pos reachable.keyword_lt_size, absent]
  exact (owns_push_iff _ _).mpr (.inr ⟨rfl, rfl, rfl⟩)

/-! ## Any number of keywords -/

namespace InternsKeywords

variable {before after : SymbolStore}

theorem symbol?_eq (interns : before.InternsKeywords after) (known : symbol < before.count) :
    after.symbol? symbol = before.symbol? symbol := by
  induction interns with
  | refl => rfl
  | @tail middle _ _ step soFar =>
      obtain ⟨name, rfl⟩ := step
      have still : symbol < middle.count := by
        have found := Array.getElem?_eq_getElem known
        exact (Array.getElem?_eq_some_iff.mp (soFar.trans found)).1
      exact (symbol?_internIn still name PackageId.keyword).trans soFar

theorem nameOf_eq (interns : before.InternsKeywords after) (known : symbol < before.count) :
    after.nameOf symbol = before.nameOf symbol := by
  have same := interns.symbol?_eq known
  unfold symbol? at same
  unfold nameOf
  rw [same]

theorem kindOf_eq (interns : before.InternsKeywords after) (known : symbol < before.count) :
    after.kindOf symbol = before.kindOf symbol := by
  have same := interns.symbol?_eq known
  unfold symbol? at same
  unfold kindOf
  rw [same]

theorem reachable (interns : before.InternsKeywords after) (reachable : before.Reachable) :
    after.Reachable :=
  Relation.ReflTransGen.trans reachable interns.leads

theorem find?_eq_some (interns : before.InternsKeywords after) (reachable : before.Reachable)
    (found : before.find? name PackageId.keyword = some symbol) :
    after.find? name PackageId.keyword = some symbol := by
  induction interns with
  | refl => exact found
  | tail soFar step ih =>
      obtain ⟨other, rfl⟩ := step
      exact find?_internKeyword_of_some (InternsKeywords.reachable soFar reachable) ih other

theorem owns (interns : before.InternsKeywords after) (reachable : before.Reachable)
    (absent : before.find? name PackageId.keyword = none)
    (found : after.find? name PackageId.keyword = some symbol) :
    after.Owns PackageId.keyword name symbol := by
  induction interns generalizing symbol with
  | refl =>
      rw [absent] at found
      cases found
  | @tail middle _ soFar step ih =>
      obtain ⟨other, rfl⟩ := step
      have reached := InternsKeywords.reachable soFar reachable
      cases atMiddle : middle.find? name PackageId.keyword with
      | none =>
          rw [find?_internKeyword reached, atMiddle] at found
          split at found
          · next same =>
              subst same
              cases found
              exact owns_internKeyword reached atMiddle
          · cases found
      | some earlier =>
          rw [find?_internKeyword_of_some reached atMiddle] at found
          cases found
          have keeps := (reached.coherent.step (.internKeyword middle other)).2
          exact keeps.owns (ih atMiddle)

/-- What a name denotes among the keywords is a keyword, unless the name denoted something else
there before: a symbol that the keyword package inherits. -/
theorem isKeyword_iff (interns : before.InternsKeywords after) (reachable : before.Reachable)
    (found : after.find? name PackageId.keyword = some symbol) :
    after.isKeyword symbol = true ↔ ∀ earlier,
      before.find? name PackageId.keyword = some earlier →
        before.homeOf earlier = some PackageId.keyword := by
  have kept : ∀ {earlier}, before.find? name PackageId.keyword = some earlier →
      earlier = symbol ∧ after.homeOf earlier = before.homeOf earlier := by
    intro earlier atEarlier
    have still := interns.find?_eq_some reachable atEarlier
    obtain ⟨home, ownsBefore⟩ := reachable.coherent.owns_of_find? atEarlier
    have keeps := (reachable.coherent.leads interns.leads).2
    exact ⟨Option.some.inj (still.symm.trans found),
      (keeps.owns ownsBefore).homeOf.trans ownsBefore.homeOf.symm⟩
  rw [(interns.reachable reachable).coherent.isKeyword_iff]
  constructor
  · intro home earlier atEarlier
    obtain ⟨rfl, sameHome⟩ := kept atEarlier
    exact sameHome.symm.trans home
  · intro homes
    cases atBefore : before.find? name PackageId.keyword with
    | none => exact (interns.owns reachable atBefore found).homeOf
    | some earlier =>
        obtain ⟨rfl, sameHome⟩ := kept atBefore
        exact sameHome.trans (homes earlier atBefore)

end InternsKeywords

end ObjectLisp.SymbolStore
