import ObjectLisp.Proofs.Graph.Unfolding
import ObjectLisp.Proofs.Symbols.Arrangement

/-!
# What a name denotes in a package

A package inherits along its use list, along the use lists of the packages there,
and so on.  These lists may lead back to where they come from and to packages that
do not exist.  The search goes through them depth first and enters no package twice,
and yet it misses none: it finds what following every path without a repetition
would find first.

Interning relies on the search.  What it finds is interned already, and a name that
it does not find becomes a new symbol, which no other search comes across.
-/

namespace ObjectLisp.SymbolStore

variable {store : SymbolStore} {name : String} {package : PackageId} {symbol : SymbolId}
  {trace : List PackageId}

/-! ## Inherited packages -/

theorem uses_eq_getD (store : SymbolStore) (package : PackageId) :
    store.uses package = ((store.packages.toList.map (·.uses))[package]?).getD [] := by
  unfold uses
  rw [List.getElem?_map, Array.getElem?_toList]
  cases store.packages[package]? <;> rfl

theorem edgeBound_uses (store : SymbolStore) : Graph.EdgeBound store.uses store.useCount := by
  have bound := Graph.edgeBound_lists (store.packages.toList.map (·.uses))
  rw [← List.flatMap_def] at bound
  apply bound.fewer
  intro package
  exact Nat.le_of_eq (congrArg List.length (store.uses_eq_getD package))

/-- Following every path without a repetition comes to an end. -/
theorem exists_unfolds_uses (store : SymbolStore) (package : PackageId) :
    ∃ trace, Graph.Unfolds store.uses [] [package] trace := by
  have outside : ∀ other ∉ List.range store.packages.size, store.uses other = [] := by
    intro other absent
    have missing : store.packages[other]? = none :=
      Array.getElem?_eq_none (Nat.le_of_not_lt (List.mem_range.not.mp absent))
    unfold uses
    rw [missing]
  exact Graph.exists_unfolds outside [] [package]

/-- A package is searched before those it inherits from. -/
theorem preorder_uses_eq (store : SymbolStore) (package : PackageId) :
    Graph.preorder store.uses store.useCount package = package :: store.inherited package :=
  Graph.preorder_eq_cons store.edgeBound_uses package

/-- No package inherits from itself. -/
theorem not_mem_inherited_self (store : SymbolStore) (package : PackageId) :
    package ∉ store.inherited package := by
  have distinct := Graph.nodup_preorder store.edgeBound_uses package
  rw [preorder_uses_eq] at distinct
  exact (List.nodup_cons.mp distinct).1

theorem reaches_uses_iff {other : PackageId} :
    Graph.Reaches store.uses package other ↔
      other = package ∨ other ∈ store.inherited package := by
  rw [← Graph.mem_preorder_iff store.edgeBound_uses, preorder_uses_eq, List.mem_cons]

/-! ## Lookups -/

/-- What is found first does not depend on what comes again later. -/
theorem findSome?_eraseDups (entry : PackageId → Option SymbolId) (packages : List PackageId) :
    packages.eraseDups.findSome? entry = packages.findSome? entry := by
  induction size : packages.length using Nat.strongRecOn generalizing packages with
  | _ count shorter =>
      cases packages with
      | nil => rfl
      | cons first packages =>
          rw [List.eraseDups_cons, List.findSome?_cons, List.findSome?_cons]
          cases here : entry first with
          | some symbol => rfl
          | none =>
              have fewer := List.length_filter_le (fun other => !other == first) packages
              rw [List.length_cons] at size
              dsimp only
              rw [shorter _ (by omega) _ rfl, ← List.head?_filterMap, ← List.head?_filterMap,
                List.filterMap_filter]
              refine congrArg List.head? (List.filterMap_congr fun other _ => ?_)
              by_cases same : other = first
              · simp [same, here]
              · simp [same]

theorem external?_of_present?_none (absent : store.present? name package = none) :
    store.external? name package = none := by
  rw [present?_eq, Option.or_eq_none_iff] at absent
  exact absent.2

/-- A name that the package has no entry of denotes what the first package along the paths exports
under it. -/
theorem find?_eq_findSome? (absent : store.present? name package = none)
    (unfolds : Graph.Unfolds store.uses [] [package] trace) :
    store.find? name package = trace.findSome? (store.external? name) := by
  have order : package :: store.inherited package = trace.eraseDups := by
    rw [← unfolds.preorder_eq store.edgeBound_uses, preorder_uses_eq]
  unfold find?
  rw [absent, ← findSome?_eraseDups _ trace, ← order, List.findSome?_cons,
    external?_of_present?_none absent]

theorem find?_eq_none_iff :
    store.find? name package = none ↔ store.present? name package = none ∧
      ∀ other, Graph.Reaches store.uses package other → store.external? name other = none := by
  constructor
  · intro absent
    have own := present?_of_find?_none absent
    refine ⟨own, ?_⟩
    intro other path
    unfold find? at absent
    rw [own] at absent
    rcases reaches_uses_iff.mp path with rfl | member
    · exact external?_of_present?_none own
    · exact List.findSome?_eq_none_iff.mp absent other member
  · rintro ⟨own, others⟩
    unfold find?
    rw [own]
    exact List.findSome?_eq_none_iff.mpr fun other member =>
      others other (reaches_uses_iff.mpr (.inr member))

/-- A lookup is complete, however the use lists run.  The package's own entry comes first, the
internal one before the exported one.  Without one, the name denotes what the first package that
exports it has, in depth-first order along the use lists from the package on: the packages on all
paths that do not come back to themselves.  Nothing is found only where the package has no entry
and no package exports the name that the use lists lead to. -/
theorem find?_depth_first (store : SymbolStore) (name : String) (package : PackageId) :
    (∀ symbol, store.internal? name package = some symbol →
      store.find? name package = some symbol) ∧
    (store.internal? name package = none → ∀ symbol, store.external? name package = some symbol →
      store.find? name package = some symbol) ∧
    (∃ trace, Graph.Unfolds store.uses [] [package] trace) ∧
    (store.internal? name package = none → store.external? name package = none →
      ∀ trace, Graph.Unfolds store.uses [] [package] trace → ∀ symbol,
        store.find? name package = some symbol ↔
          ∃ front source back, trace = front ++ source :: back ∧
            store.external? name source = some symbol ∧
            ∀ earlier ∈ front, store.external? name earlier = none) ∧
    (store.find? name package = none ↔ store.present? name package = none ∧
      ∀ other, Graph.Reaches store.uses package other → store.external? name other = none) := by
  refine ⟨?_, ?_, store.exists_unfolds_uses package, ?_, find?_eq_none_iff⟩
  · intro symbol internal
    apply find?_of_present
    rw [present?_eq, internal, Option.some_or]
  · intro noInternal symbol external
    apply find?_of_present
    rw [present?_eq, noInternal, Option.none_or, external]
  · intro noInternal noExternal trace unfolds symbol
    have absent : store.present? name package = none := by
      rw [present?_eq, noInternal, noExternal, Option.none_or]
    rw [find?_eq_findSome? absent unfolds, List.findSome?_eq_some_iff]

/-- `geo` uses a package that does not exist and `shape`; `shape` uses `geo` in turn, and `draw`,
which exports a name. -/
private def ring : SymbolStore :=
  let named := (((initial.addPackage "geo").2.addPackage "shape").2.addPackage "draw").2
  let linked := (((named.usePackage 3 9).usePackage 3 4).usePackage 4 3).usePackage 4 5
  (linked.exportNames 5 ["pen"]).2

private theorem ring_unfolds : Graph.Unfolds ring.uses [] [3] [3, 9, 4, 5] := by
  have ofGeo : ring.uses 3 = [9, 4] := by decide +kernel
  have ofNone : ring.uses 9 = [] := by decide +kernel
  have ofShape : ring.uses 4 = [3, 5] := by decide +kernel
  have ofDraw : ring.uses 5 = [] := by decide +kernel
  have belowDraw : Graph.Unfolds ring.uses [5, 4, 3] (ring.uses 5) [] := by
    rw [ofDraw]
    exact .nil _
  have belowShape : Graph.Unfolds ring.uses [4, 3] (ring.uses 4) [5] := by
    rw [ofShape]
    exact .turn (by decide) (.enter (by decide) belowDraw (.nil _))
  have belowNone : Graph.Unfolds ring.uses [9, 3] (ring.uses 9) [] := by
    rw [ofNone]
    exact .nil _
  have belowGeo : Graph.Unfolds ring.uses [3] (ring.uses 3) [9, 4, 5] := by
    rw [ofGeo]
    exact .enter (by decide) belowNone (.enter (by decide) belowShape (.nil _))
  exact .enter (by decide) belowGeo (.nil _)

/-- The search passes the missing package and the package it started from, and finds the name. -/
theorem find?_depth_first_in_ring :
    Graph.Unfolds ring.uses [] [3] [3, 9, 4, 5] ∧ ring.find? "pen" 3 = some 0 := by
  have noInternal : ring.internal? "pen" 3 = none := by decide +kernel
  have noExternal : ring.external? "pen" 3 = none := by decide +kernel
  have first := (find?_depth_first ring "pen" 3).2.2.2.1 noInternal noExternal _ ring_unfolds 0
  refine ⟨ring_unfolds, first.mpr ⟨[3, 9, 4], 5, [], rfl, ?_, ?_⟩⟩
  · decide +kernel
  · decide +kernel

/-- Interning and lookup agree, and interning disturbs no other lookup.  In an existing package, a
name that is found is interned as what is found, with no change.  Any other name becomes a new
symbol that is at home in the package, has no entry anywhere before and is found there from then
on; unless it is a keyword, every other lookup gives what it gave before.  Interning the name once
more gives the same symbol and changes nothing. -/
theorem Reachable.interning_agrees (reachable : store.Reachable)
    (inside : package < store.packages.size) (name : String) :
    (∀ symbol, store.find? name package = some symbol →
      store.internIn name package = (symbol, store)) ∧
    (store.find? name package = none → ∀ symbol after,
        store.internIn name package = (symbol, after) →
      store.symbol? symbol = none ∧
      (∀ other target, store.present? other target ≠ some symbol) ∧
      after.Owns package name symbol ∧
      after.find? name package = some symbol ∧
      (package ≠ PackageId.keyword → ∀ other target, ¬ (name = other ∧ package = target) →
        after.find? other target = store.find? other target)) ∧
    ∀ symbol after, store.internIn name package = (symbol, after) →
      after.internIn name package = (symbol, after) := by
  refine ⟨fun symbol => internIn_of_find?, ?_, ?_⟩
  · intro absent symbol after interned
    have made : store.makeInterned name package = (symbol, after) := by
      rw [← interned, internIn, if_pos inside, absent]
    obtain rfl : store.symbols.size = symbol := congrArg Prod.fst made
    obtain rfl : (store.makeInterned name package).2 = after := congrArg Prod.snd made
    have unknown : store.symbol? store.symbols.size = none :=
      Array.getElem?_eq_none (Nat.le_refl _)
    refine ⟨unknown, ?_, ?_, ?_, ?_⟩
    · intro other target present
      obtain ⟨found, known, _⟩ := reachable.coherent.present_iff.mp present
      rw [unknown] at known
      cases known
    · exact (owns_push_iff _ _).mpr (.inr ⟨rfl, rfl, rfl⟩)
    · have found := find?_internIn inside name
      rwa [interned] at found
    · intro proper other target elsewhere
      exact find?_makeInterned inside (present?_of_find?_none absent) elsewhere
        fun isKeyword => absurd isKeyword proper
  · intro symbol after interned
    have again := internIn_again inside name (.refl _)
    rwa [interned] at again

private theorem ring_reachable : ring.Reachable := by
  have named : Leads initial _ :=
    .tail (.tail (.single (.addPackage _ "geo")) (.addPackage _ "shape")) (.addPackage _ "draw")
  have linked := ((((named.tail (.usePackage _ 3 9)).tail (.usePackage _ 3 4)).tail
    (.usePackage _ 4 3)).tail (.usePackage _ 4 5))
  exact linked.tail (.exportNames _ 5 ["pen"])

/-- A new name of a package that is used in a circle is found there, and nowhere else. -/
theorem Reachable.interning_agrees_in_ring :
    ring.Reachable ∧ ring.find? "line" 4 = none ∧
      (ring.internIn "line" 4).2.find? "line" 4 = some 1 ∧
      (ring.internIn "line" 4).2.find? "line" 3 = none ∧
      (ring.internIn "line" 4).2.find? "pen" 3 = some 0 := by
  have absent : ring.find? "line" 4 = none := by decide +kernel
  have inside : 4 < ring.packages.size := by decide +kernel
  have agrees := ring_reachable.interning_agrees inside "line"
  obtain ⟨_, _, _, found, others⟩ := agrees.2.1 absent 1 (ring.internIn "line" 4).2
    (Prod.ext (by decide +kernel) rfl)
  refine ⟨ring_reachable, absent, found, ?_, ?_⟩
  · rw [others (by decide) "line" 3 (by decide)]
    decide +kernel
  · rw [others (by decide) "pen" 3 (by decide)]
    decide +kernel

end ObjectLisp.SymbolStore
