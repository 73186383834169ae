import ObjectLisp.Proofs.Symbols.Identity

/-!
# Interning hides nothing

Interning makes entries and leaves the names and the use lists of packages alone.
A new entry can hide an inherited one only if it is exported, and of the new
entries only keywords are.  So as long as no package inherits the keywords, what a
store finds stays found while more is interned, and a name that was interned is
interned again without a change.
-/

namespace ObjectLisp.SymbolStore

variable {store before after later : SymbolStore} {name : String} {package : PackageId}
  {symbol : SymbolId}

/-! ## Names and use lists -/

/-- The packages have the same names and use lists. -/
def SameArrangement (before after : SymbolStore) : Prop :=
  after.packages.map (fun package => (package.name, package.uses)) =
    before.packages.map fun package => (package.name, package.uses)

namespace SameArrangement

theorem size (same : before.SameArrangement after) :
    after.packages.size = before.packages.size := by
  simpa using congrArg Array.size same

theorem packages_eq (same : before.SameArrangement after) (package : PackageId) :
    after.packages[package]?.map (fun package => (package.name, package.uses)) =
      before.packages[package]?.map fun package => (package.name, package.uses) := by
  rw [← Array.getElem?_map, ← Array.getElem?_map, same]

theorem packageName?_eq (same : before.SameArrangement after) (package : PackageId) :
    after.packageName? package = before.packageName? package := by
  have sameName := congrArg (Option.map Prod.fst) (same.packages_eq package)
  simpa [packageName?, Option.map_map, Function.comp_def] using sameName

theorem uses_eq (same : before.SameArrangement after) : after.uses = before.uses := by
  funext package
  have sameUses := congrArg (fun found => (found.map Prod.snd).getD []) (same.packages_eq package)
  unfold uses
  cases here : after.packages[package]? <;> cases first : before.packages[package]? <;>
    simp_all

theorem inherited_eq (same : before.SameArrangement after) (package : PackageId) :
    after.inherited package = before.inherited package := by
  have lists : after.packages.toList.map (·.uses) = before.packages.toList.map (·.uses) := by
    have pairs := congrArg (fun pairs => (pairs.map Prod.snd).toList) same
    simpa [Function.comp_def] using pairs
  have sameCount : after.useCount = before.useCount := by
    unfold useCount
    rw [List.flatMap_def, List.flatMap_def, lists]
  unfold inherited
  rw [same.uses_eq, sameCount]

theorem findPackage?_eq (same : before.SameArrangement after) (name : String) :
    after.findPackage? name = before.findPackage? name := by
  have names := congrArg (Array.findIdx? fun pair => pair.1 == name) same
  rw [Array.findIdx?_map, Array.findIdx?_map] at names
  exact names

end SameArrangement

theorem sameArrangement_makeInterned (store : SymbolStore) (name : String) (package : PackageId) :
    store.SameArrangement (store.makeInterned name package).2 := by
  unfold makeInterned
  apply Array.ext
  · simp
  · intro index _ _
    simp only [Array.getElem_map, Array.getElem_modify]
    split
    · split <;> rfl
    · rfl

/-- In the first store no package inherits the keywords, and a package that does not exist inherits
nothing. -/
theorem keyword_not_mem_inherited (package : PackageId) :
    PackageId.keyword ∉ initial.inherited package := by
  match package with
  | 0 | 1 | 2 => decide +kernel
  | more + 3 =>
      have alone : initial.uses (more + 3) = [] := rfl
      simp [inherited, Graph.preorder, Graph.visit, alone]

/-! ## What is found -/

/-- The packages are arranged as before, and what was found in them is found still. -/
structure Widens (before after : SymbolStore) : Prop where
  arranged : before.SameArrangement after
  found : ∀ {name package symbol}, before.find? name package = some symbol →
    after.find? name package = some symbol

namespace Widens

theorem refl (store : SymbolStore) : store.Widens store :=
  ⟨rfl, id⟩

theorem trans (first : before.Widens after) (second : after.Widens later) :
    before.Widens later :=
  ⟨Eq.trans second.arranged first.arranged, fun found => second.found (first.found found)⟩

end Widens

/-- The package and the two in which all readers intern exist, and no package inherits the
keywords. -/
structure Receives (store : SymbolStore) (package : PackageId) : Prop where
  current : package < store.packages.size
  system : PackageId.system < store.packages.size
  apart : ∀ other, PackageId.keyword ∉ store.inherited other

namespace Receives

theorem keyword (receives : store.Receives package) :
    PackageId.keyword < store.packages.size :=
  Nat.lt_trans (by decide) receives.system

theorem widens (receives : before.Receives package) (widens : before.Widens after) :
    after.Receives package where
  current := widens.arranged.size ▸ receives.current
  system := widens.arranged.size ▸ receives.system
  apart other := widens.arranged.inherited_eq other ▸ receives.apart other

/-- A package that is named can be interned in as well. -/
theorem named (receives : store.Receives package) {other : PackageId}
    (found : store.findPackage? name = some other) : store.Receives other :=
  { receives with current := (Array.findIdx?_eq_some_iff_getElem.mp found).1 }

end Receives

/-- A lookup goes on as before beside a new entry that it does not meet. -/
theorem find?_makeInterned_of_external? {other : String} {target : PackageId}
    (inside : package < store.packages.size) (absent : store.present? name package = none)
    (elsewhere : ¬ (name = other ∧ package = target))
    (inherits : ∀ source ∈ store.inherited target,
      (store.makeInterned name package).2.external? other source =
        store.external? other source) :
    (store.makeInterned name package).2.find? other target = store.find? other target := by
  unfold find?
  rw [present?_makeInterned inside absent, if_neg elsewhere,
    (store.sameArrangement_makeInterned name package).inherited_eq]
  cases store.present? other target with
  | some symbol => rfl
  | none =>
      have same := congrArg (List.findSome? id) (List.map_congr_left inherits)
      simpa only [List.findSome?_map, Function.id_comp] using same

/-- A new entry of an absent name changes no other lookup, unless it is exported to the package of
that lookup. -/
theorem find?_makeInterned {other : String} {target : PackageId}
    (inside : package < store.packages.size) (absent : store.present? name package = none)
    (elsewhere : ¬ (name = other ∧ package = target))
    (hidden : package = PackageId.keyword → package ∉ store.inherited target) :
    (store.makeInterned name package).2.find? other target = store.find? other target := by
  apply find?_makeInterned_of_external? inside absent elsewhere
  intro source member
  rw [external?_makeInterned inside, if_neg]
  rintro ⟨_, rfl, isKeyword⟩
  exact hidden isKeyword member

/-- Interning a name changes no lookup of another name. -/
theorem find?_internIn_of_ne {other : String} (inside : package < store.packages.size)
    (differ : name ≠ other) (target : PackageId) :
    (store.internIn name package).2.find? other target = store.find? other target := by
  unfold internIn
  rw [if_pos inside]
  cases found : store.find? name package with
  | some symbol => rfl
  | none =>
      apply find?_makeInterned_of_external? inside (present?_of_find?_none found)
      · exact fun here => differ here.1
      · intro source _
        rw [external?_makeInterned inside, if_neg fun here => differ here.1]

/-- A new entry of an absent name hides nothing. -/
theorem Receives.widens_makeInterned (receives : store.Receives package)
    (absent : store.find? name package = none) :
    store.Widens (store.makeInterned name package).2 := by
  refine ⟨store.sameArrangement_makeInterned name package, ?_⟩
  intro other target symbol found
  have elsewhere : ¬ (name = other ∧ package = target) := by
    rintro ⟨rfl, rfl⟩
    rw [absent] at found
    cases found
  rw [find?_makeInterned receives.current (present?_of_find?_none absent) elsewhere]
  · exact found
  · intro isKeyword
    rw [isKeyword]
    exact receives.apart target

theorem Receives.widens_internIn (receives : store.Receives package) (name : String) :
    store.Widens (store.internIn name package).2 := by
  unfold internIn
  rw [if_pos receives.current]
  cases found : store.find? name package with
  | some symbol => exact .refl store
  | none => exact receives.widens_makeInterned found

theorem find?_internIn (inside : package < store.packages.size) (name : String) :
    (store.internIn name package).2.find? name package = some (store.internIn name package).1 := by
  unfold internIn
  rw [if_pos inside]
  cases found : store.find? name package with
  | some symbol => exact found
  | none =>
      apply find?_of_present
      rw [present?_makeInterned inside (present?_of_find?_none found), if_pos ⟨rfl, rfl⟩]
      rfl

/-- A name that was interned is interned again without a change. -/
theorem internIn_again (inside : package < store.packages.size) (name : String)
    (widens : (store.internIn name package).2.Widens later) :
    later.internIn name package = ((store.internIn name package).1, later) :=
  internIn_of_find? (widens.found (find?_internIn inside name))

end ObjectLisp.SymbolStore
