import Mathlib.Logic.Relation
import ObjectLisp.Proofs.Evaluation.Holdings

/-!
# Operators choose the most specific method

An operator is asked for methods and given new ones in any order, and remembers
what it answered.  What it answers is fixed by the methods added so far: of the
pairs of types that cover the operands, the one with the lowest first type and,
among those, the lowest second type has the method that counts, and of the methods
added for this pair the last one.

The types above a type form a chain, so of the pairs that cover the same operands
one is always the most specific, and going through them in any order ends with it.
A remembered answer is the answer that going through the table would give, since
adding a method forgets all of them.
-/

namespace ObjectLisp

/-! ## Tables with one entry per key -/

namespace Assoc

variable {κ ν : Type} [DecidableEq κ] {table : Assoc κ ν} {key : κ} {value : ν}

theorem mem_keys_insertIn {other : κ} {entries : List (κ × ν)} :
    other ∈ (insertIn key value entries).map Prod.fst ↔
      other = key ∨ other ∈ entries.map Prod.fst := by
  induction entries with
  | nil => simp [insertIn]
  | cons entry rest ih =>
      unfold insertIn
      split
      · next same => simp [same]
      · simp only [List.map_cons, List.mem_cons, ih]
        exact or_left_comm

theorem nodup_keys_insert (distinct : table.keys.Nodup) (key : κ) (value : ν) :
    (table.insert key value).keys.Nodup := by
  obtain ⟨entries⟩ := table
  change ((insertIn key value entries).map Prod.fst).Nodup
  change (entries.map Prod.fst).Nodup at distinct
  induction entries with
  | nil => simp [insertIn]
  | cons entry rest ih =>
      obtain ⟨absent, restDistinct⟩ := List.nodup_cons.mp distinct
      unfold insertIn
      split
      · exact distinct
      · next different =>
          refine List.nodup_cons.mpr ⟨?_, ih restDistinct⟩
          rw [mem_keys_insertIn]
          exact not_or.mpr ⟨different, absent⟩

theorem isSome_find?_iff : (table.find? key).isSome ↔ key ∈ table.keys := by
  obtain ⟨entries⟩ := table
  change (findIn key entries).isSome ↔ key ∈ entries.map Prod.fst
  induction entries with
  | nil => simp [findIn]
  | cons entry rest ih =>
      unfold findIn
      split
      · next same => simp [same]
      · next different => simp [ih, Ne.symm different]

theorem find?_of_mem (distinct : table.keys.Nodup) (member : (key, value) ∈ table.entries) :
    table.find? key = some value := by
  obtain ⟨entries⟩ := table
  change findIn key entries = some value
  change (entries.map Prod.fst).Nodup at distinct
  induction entries with
  | nil => cases member
  | cons entry rest ih =>
      obtain ⟨absent, restDistinct⟩ := List.nodup_cons.mp distinct
      rcases List.mem_cons.mp member with rfl | later
      · exact if_pos rfl
      · have different : entry.1 ≠ key := by
          intro same
          exact absent (same ▸ List.mem_map_of_mem later)
        exact (if_neg different).trans (ih later restDistinct)

end Assoc

/-! ## The order of types -/

namespace TypeTag

/-- Going up from parent to parent leads from the first type to the second. -/
def Below : TypeTag → TypeTag → Prop :=
  Relation.ReflTransGen fun tag above => tag.parent? = some above

variable {tag above other : TypeTag}

theorem ancestors_of_parent? (parent : tag.parent? = some above) :
    tag.ancestors = tag :: above.ancestors := by
  rw [ancestors_eq, parent]
  rfl

theorem below_of_mem (tag : TypeTag) (member : above ∈ tag.ancestors) : Below tag above := by
  rw [ancestors_eq] at member
  cases parent : tag.parent? with
  | none =>
      obtain rfl : above = tag := by simpa [parent] using member
      exact .refl
  | some next =>
      have shorter : next.ancestors.length < tag.ancestors.length := by
        rw [ancestors_of_parent? parent]
        exact Nat.lt_succ_self _
      rw [parent] at member
      rcases List.mem_cons.mp member with rfl | further
      · exact .refl
      · exact .head parent (below_of_mem next further)
termination_by tag.ancestors.length

theorem mem_of_below (below : Below tag above) : above ∈ tag.ancestors := by
  induction below using Relation.ReflTransGen.head_induction_on with
  | refl =>
      rw [ancestors_eq]
      exact List.mem_cons_self
  | head parent _ member =>
      rw [ancestors_of_parent? parent]
      exact List.mem_cons_of_mem _ member

theorem includes_iff : above.includes tag = true ↔ Below tag above := by
  rw [includes, decide_eq_true_iff]
  exact ⟨below_of_mem tag, mem_of_below⟩

/-- The types above a type form a chain. -/
theorem Below.total (left : Below tag above) (right : Below tag other) :
    Below above other ∨ Below other above :=
  left.total_of_right_unique (fun _ _ _ first second => Option.some.inj (first.symm.trans second))
    right

theorem Below.eq_or_higher (below : Below tag above) :
    tag = above ∨ above.ancestors.length < tag.ancestors.length := by
  induction below using Relation.ReflTransGen.head_induction_on with
  | refl => exact .inl rfl
  | head parent _ higher =>
      right
      rw [ancestors_of_parent? parent, List.length_cons]
      rcases higher with rfl | higher <;> omega

theorem Below.antisymm (up : Below tag above) (down : Below above tag) : tag = above := by
  rcases up.eq_or_higher with same | higher
  · exact same
  · rcases down.eq_or_higher with same | lower
    · exact same.symm
    · omega

end TypeTag

namespace GenericOperator

open TypeTag (Below)

/-! ## The order of pairs -/

/-- The types of the pair cover operands of these types. -/
def Covers (pair : TypePair) (a b : TypeTag) : Prop :=
  Below a pair.1 ∧ Below b pair.2

/-- One pair is as specific as another or more.  The second types count where the first ones are
the same. -/
def AsSpecific (pair other : TypePair) : Prop :=
  if pair.1 = other.1 then Below pair.2 other.2 else Below pair.1 other.1

/-- Of some pairs that cover the operands, this one is the most specific. -/
structure MostSpecific (known : TypePair → Prop) (a b : TypeTag) (pair : TypePair) : Prop where
  isKnown : known pair
  covers : Covers pair a b
  least : ∀ other, known other → Covers other a b → AsSpecific pair other

variable {a b : TypeTag} {pair other third : TypePair}

theorem applies_iff : applies pair a b = true ↔ Covers pair a b := by
  rw [applies, Bool.and_eq_true, TypeTag.includes_iff, TypeTag.includes_iff]
  rfl

namespace AsSpecific

theorem refl (pair : TypePair) : AsSpecific pair pair := by
  rw [AsSpecific, if_pos rfl]
  exact .refl

theorem trans (left : AsSpecific pair other) (right : AsSpecific other third) :
    AsSpecific pair third := by
  unfold AsSpecific at left right ⊢
  by_cases first : pair.1 = other.1
  · rw [if_pos first] at left
    by_cases second : other.1 = third.1
    · rw [if_pos second] at right
      rw [if_pos (first.trans second)]
      exact left.trans right
    · rw [if_neg second] at right
      rw [if_neg (first ▸ second), first]
      exact right
  · rw [if_neg first] at left
    by_cases second : other.1 = third.1
    · rw [if_neg (second ▸ first), ← second]
      exact left
    · rw [if_neg second] at right
      have apart : pair.1 ≠ third.1 := by
        intro same
        exact first (left.antisymm (same ▸ right))
      rw [if_neg apart]
      exact left.trans right

theorem antisymm (left : AsSpecific pair other) (right : AsSpecific other pair) :
    pair = other := by
  unfold AsSpecific at left right
  by_cases first : pair.1 = other.1
  · rw [if_pos first] at left
    rw [if_pos first.symm] at right
    exact Prod.ext first (left.antisymm right)
  · rw [if_neg first] at left
    rw [if_neg (Ne.symm first)] at right
    exact absurd (left.antisymm right) first

theorem total (left : Covers pair a b) (right : Covers other a b) :
    AsSpecific pair other ∨ AsSpecific other pair := by
  unfold AsSpecific
  by_cases first : pair.1 = other.1
  · rw [if_pos first, if_pos first.symm]
    exact left.2.total right.2
  · rw [if_neg first, if_neg (Ne.symm first)]
    exact left.1.total right.1

end AsSpecific

theorem moreSpecific_iff :
    moreSpecific pair other = true ↔ AsSpecific pair other ∧ pair ≠ other := by
  obtain ⟨first, second⟩ := pair
  obtain ⟨first', second'⟩ := other
  by_cases same : first = first'
  · subst same
    simp [moreSpecific, AsSpecific, TypeTag.includes_iff, and_comm]
  · simp [moreSpecific, AsSpecific, TypeTag.includes_iff, same]

namespace MostSpecific

variable {known known' : TypePair → Prop}

/-- There is at most one most specific pair. -/
theorem unique (left : MostSpecific known a b pair) (right : MostSpecific known a b other) :
    pair = other :=
  (left.least other right.isKnown right.covers).antisymm
    (right.least pair left.isKnown left.covers)

theorem congr (same : ∀ pair, known pair ↔ known' pair) :
    MostSpecific known a b pair ↔ MostSpecific known' a b pair := by
  rw [funext fun pair => propext (same pair)]

end MostSpecific

/-! ## Going through the pairs -/

/-- Of two pairs the better one is kept. -/
theorem better_spec (left : Covers pair a b) (right : Covers other a b) :
    ∃ kept, better (some pair) other = some kept ∧ MostSpecific (· ∈ [pair, other]) a b kept := by
  unfold better
  dsimp only
  split
  · next isMore =>
      obtain ⟨specific, _⟩ := moreSpecific_iff.mp isMore
      refine ⟨other, rfl, by simp, right, ?_⟩
      intro third member _
      obtain rfl | rfl : third = pair ∨ third = other := by simpa using member
      · exact specific
      · exact .refl third
  · next isNotMore =>
      have specific : AsSpecific pair other := by
        by_cases same : other = pair
        · exact same ▸ .refl other
        · exact (AsSpecific.total left right).resolve_right fun less =>
            isNotMore (moreSpecific_iff.mpr ⟨less, same⟩)
      refine ⟨pair, rfl, by simp, left, ?_⟩
      intro third member _
      obtain rfl | rfl : third = pair ∨ third = other := by simpa using member
      · exact .refl third
      · exact specific

/-- Going through pairs that cover the operands ends with the most specific one. -/
theorem foldl_better (held : TypePair) (pairs : List TypePair)
    (covers : ∀ pair ∈ held :: pairs, Covers pair a b) :
    ∃ best, pairs.foldl better (some held) = some best ∧
      MostSpecific (· ∈ held :: pairs) a b best := by
  induction pairs generalizing held with
  | nil =>
      refine ⟨held, rfl, List.mem_cons_self, covers held List.mem_cons_self, ?_⟩
      intro other member _
      obtain rfl := List.mem_singleton.mp member
      exact .refl other
  | cons next pairs goOn =>
      obtain ⟨heldCovers, nextCovers, restCover⟩ :
          Covers held a b ∧ Covers next a b ∧ ∀ pair ∈ pairs, Covers pair a b := by
        simpa only [List.forall_mem_cons] using covers
      obtain ⟨kept, isKept, keptBest⟩ := better_spec heldCovers nextCovers
      obtain ⟨best, isBest, best_⟩ :=
        goOn kept (List.forall_mem_cons.mpr ⟨keptBest.covers, restCover⟩)
      have parts : ∀ pair, pair ∈ held :: next :: pairs ↔ pair ∈ [held, next] ∨ pair ∈ pairs := by
        simp [or_assoc]
      refine ⟨best, by rw [List.foldl_cons, isKept, isBest], (parts best).mpr ?_, best_.covers, ?_⟩
      · rcases List.mem_cons.mp best_.isKnown with rfl | late
        · exact .inl keptBest.isKnown
        · exact .inr late
      · intro other member otherCovers
        have below : AsSpecific best kept := best_.least kept List.mem_cons_self keptBest.covers
        rcases (parts other).mp member with early | late
        · exact below.trans (keptBest.least other early otherCovers)
        · exact best_.least other (List.mem_cons_of_mem _ late) otherCovers

variable {μ : Type} {operator : GenericOperator μ}

/-- Going through the table finds a pair unless none covers the operands, and then the most specific
one. -/
theorem scan_cases (operator : GenericOperator μ) (a b : TypeTag) :
    (operator.scan a b = none ∧ ∀ pair ∈ operator.pairs, ¬ Covers pair a b) ∨
      ∃ best, operator.scan a b = some best ∧ MostSpecific (· ∈ operator.pairs) a b best := by
  have mem_filtered : ∀ pair, pair ∈ operator.pairs.filter (applies · a b) ↔
      pair ∈ operator.pairs ∧ Covers pair a b := by
    intro pair
    rw [List.mem_filter, applies_iff]
  unfold scan
  cases filtered : operator.pairs.filter (applies · a b) with
  | nil =>
      refine .inl ⟨rfl, fun pair member covers => ?_⟩
      have kept := (mem_filtered pair).mpr ⟨member, covers⟩
      rw [filtered] at kept
      cases kept
  | cons held pairs =>
      rw [filtered] at mem_filtered
      obtain ⟨best, isBest, best_⟩ :=
        foldl_better held pairs fun pair member => ((mem_filtered pair).mp member).2
      refine .inr ⟨best, isBest, ((mem_filtered best).mp best_.isKnown).1, best_.covers, ?_⟩
      intro other member covers
      exact best_.least other ((mem_filtered other).mpr ⟨member, covers⟩) covers

theorem scan_eq_some_iff :
    operator.scan a b = some pair ↔ MostSpecific (· ∈ operator.pairs) a b pair := by
  rcases operator.scan_cases a b with ⟨nothing, uncovered⟩ | ⟨best, found, best_⟩
  · rw [nothing]
    simp only [reduceCtorEq, false_iff]
    intro specific
    exact uncovered pair specific.isKnown specific.covers
  · rw [found, Option.some.injEq]
    constructor
    · rintro rfl
      exact best_
    · exact best_.unique

/-! ## The table and the cache -/

theorem mem_pairs_iff (distinct : operator.table.keys.Nodup) :
    pair ∈ operator.pairs ↔ (operator.method? pair).isSome := by
  obtain ⟨first, second⟩ := pair
  simp only [pairs, List.mem_flatMap, List.mem_map, Prod.mk.injEq, method?, row]
  constructor
  · rintro ⟨entry, member, _, among, rfl, rfl⟩
    rw [Assoc.find?_of_mem distinct member]
    exact Assoc.isSome_find?_iff.mpr among
  · intro found
    cases atFirst : operator.table.find? first with
    | none =>
        rw [atFirst] at found
        cases found
    | some methods =>
        rw [atFirst] at found
        exact ⟨(first, methods), Assoc.mem_of_findIn atFirst, second,
          Assoc.isSome_find?_iff.mp found, rfl, rfl⟩

/-- The table has one row for a type, and what is remembered is what going through the table
gives. -/
structure Sound (operator : GenericOperator μ) : Prop where
  distinct : operator.table.keys.Nodup
  remembered : ∀ a b found, operator.cache.find? (a, b) = some found → found = operator.scan a b

namespace Sound

theorem new (name : String) (shape : OperatorShape) :
    Sound ({ name, shape } : GenericOperator μ) where
  distinct := .nil
  remembered _ _ _ found := nomatch found

theorem addMethod (sound : operator.Sound) (first second : TypeTag) (method : μ) :
    (operator.addMethod first second method).Sound where
  distinct := Assoc.nodup_keys_insert sound.distinct first _
  remembered _ _ _ found := nomatch found

theorem choose_fst (sound : operator.Sound) (a b : TypeTag) :
    (operator.choose a b).1 = operator.scan a b := by
  unfold choose
  split
  · next found remembered => exact sound.remembered a b found remembered
  · rfl

theorem choose (sound : operator.Sound) (a b : TypeTag) : (operator.choose a b).2.Sound := by
  unfold GenericOperator.choose
  split
  · exact sound
  · refine ⟨sound.distinct, fun c d found remembered => ?_⟩
    dsimp only at remembered
    rw [Assoc.find?_insert] at remembered
    split at remembered
    · next same =>
        cases same
        cases remembered
        rfl
    · exact sound.remembered c d found remembered

theorem select_fst (sound : operator.Sound) (a b : TypeTag) :
    (operator.select a b).1 = (operator.scan a b).bind operator.method? := by
  change (operator.choose a b).1.bind (operator.choose a b).2.method? = _
  rw [sound.choose_fst, funext (operator.method?_choose a b)]

theorem scan_eq_some_iff (sound : operator.Sound) :
    operator.scan a b = some pair ↔
      MostSpecific (fun pair => (operator.method? pair).isSome) a b pair :=
  GenericOperator.scan_eq_some_iff.trans
    (MostSpecific.congr fun _ => mem_pairs_iff sound.distinct)

theorem select_eq_some_iff (sound : operator.Sound) {method : μ} :
    (operator.select a b).1 = some method ↔
      ∃ pair, MostSpecific (fun pair => (operator.method? pair).isSome) a b pair ∧
        operator.method? pair = some method := by
  rw [sound.select_fst, Option.bind_eq_some_iff]
  exact exists_congr fun pair => and_congr_left' sound.scan_eq_some_iff

theorem select_eq_none_iff (sound : operator.Sound) :
    (operator.select a b).1 = none ↔
      ∀ pair, (operator.method? pair).isSome → ¬ Covers pair a b := by
  rw [sound.select_fst]
  rcases operator.scan_cases a b with ⟨nothing, uncovered⟩ | ⟨best, found, _⟩
  · simp only [nothing, Option.bind_none, true_iff]
    intro pair registered
    exact uncovered pair ((mem_pairs_iff sound.distinct).mpr registered)
  · have specific := sound.scan_eq_some_iff.mp found
    obtain ⟨method, isMethod⟩ := Option.isSome_iff_exists.mp specific.isKnown
    simp only [found, Option.bind_some, isMethod, reduceCtorEq, false_iff]
    intro uncovered
    exact uncovered best specific.isKnown specific.covers

end Sound

/-! ## Histories -/

/-- What happens to an operator. -/
inductive Event (μ : Type) where
  /-- A method was added for a pair of types. -/
  | added (first second : TypeTag) (method : μ)
  /-- The method for operands of two types was asked for. -/
  | asked (a b : TypeTag)

/-- The operator after one event. -/
def happen (operator : GenericOperator μ) : Event μ → GenericOperator μ
  | .added first second method => operator.addMethod first second method
  | .asked a b => (operator.select a b).2

/-- The operator after a history. -/
def after (operator : GenericOperator μ) (history : List (Event μ)) : GenericOperator μ :=
  history.foldl happen operator

/-- The method that an event adds for a pair. -/
def Event.method? : Event μ → TypePair → Option μ
  | added first second method, pair => if (first, second) = pair then some method else none
  | asked _ _, _ => none

/-- The method that was added last for a pair. -/
def lastAdded? : List (Event μ) → TypePair → Option μ
  | [], _ => none
  | event :: history, pair => (lastAdded? history pair).or (event.method? pair)

theorem Sound.happen (sound : operator.Sound) (event : Event μ) :
    (operator.happen event).Sound := by
  cases event with
  | added first second method => exact sound.addMethod first second method
  | asked a b => exact sound.choose a b

theorem Sound.after (sound : operator.Sound) (history : List (Event μ)) :
    (operator.after history).Sound := by
  induction history generalizing operator with
  | nil => exact sound
  | cons event history ih => exact ih (sound.happen event)

theorem method?_happen (operator : GenericOperator μ) (event : Event μ) (pair : TypePair) :
    (operator.happen event).method? pair = (event.method? pair).or (operator.method? pair) := by
  cases event with
  | added first second method =>
      rw [happen, method?_addMethod, Event.method?]
      split <;> rfl
  | asked a b => exact operator.method?_choose a b pair

/-- An operator has the methods that were added last. -/
theorem method?_after (operator : GenericOperator μ) (history : List (Event μ)) (pair : TypePair) :
    (operator.after history).method? pair =
      (lastAdded? history pair).or (operator.method? pair) := by
  induction history generalizing operator with
  | nil => rfl
  | cons event history ih =>
      change ((operator.happen event).after history).method? pair = _
      rw [ih, method?_happen, lastAdded?, Option.or_assoc]

theorem method?_after_new (name : String) (shape : OperatorShape) (history : List (Event μ)) :
    (({ name, shape } : GenericOperator μ).after history).method? = lastAdded? history := by
  funext pair
  rw [method?_after]
  exact Option.or_none

/-- Whatever methods were added to an operator and asked for before, for operands of two types it
selects the method added last for the most specific pair of types that covers them, and none
exactly if no pair with a method does.  So two histories that added the same methods last lead to
the same selections, whatever their order and whatever was remembered meanwhile. -/
theorem most_specific_selected (name : String) (shape : OperatorShape)
    (history : List (Event μ)) (a b : TypeTag) :
    let operator := ({ name, shape } : GenericOperator μ).after history
    (∀ method, (operator.select a b).1 = some method ↔
      ∃ pair, MostSpecific (fun pair => (lastAdded? history pair).isSome) a b pair ∧
        lastAdded? history pair = some method) ∧
    ((operator.select a b).1 = none ↔
      ∀ pair, (lastAdded? history pair).isSome → ¬ Covers pair a b) ∧
    ∀ other, lastAdded? other = lastAdded? history →
      ((({ name, shape } : GenericOperator μ).after other).select a b).1 =
        (operator.select a b).1 := by
  intro operator
  have sound : ∀ history, (({ name, shape } : GenericOperator μ).after history).Sound :=
    (Sound.new name shape).after
  have methods := @method?_after_new μ name shape
  refine ⟨fun method => ?_, ?_, fun other same => ?_⟩
  · rw [← methods]
    exact (sound history).select_eq_some_iff
  · rw [← methods]
    exact (sound history).select_eq_none_iff
  · have sameMethods : (({ name, shape } : GenericOperator μ).after other).method? =
        operator.method? := by
      rw [methods, same, ← methods]
    apply Option.ext
    intro method
    rw [(sound other).select_eq_some_iff, (sound history).select_eq_some_iff, sameMethods]

/-- Two methods are added in either order, once with a question between them. -/
theorem most_specific_selected_in_either_order :
    let operator : GenericOperator Nat := { name := "join", shape := .binary }
    ((operator.after [.added .object .object 1, .asked .integer .string,
        .added .number .object 2]).select .integer .string).1 = some 2 ∧
      ((operator.after [.added .number .object 2, .added .object .object 1]).select
        .integer .string).1 = some 2 := by
  intro operator
  have direct : ((operator.after [.added .object .object 1, .asked .integer .string,
      .added .number .object 2]).select .integer .string).1 = some 2 := by
    decide
  refine ⟨direct, ?_⟩
  rw [(most_specific_selected "join" .binary [.added .object .object 1, .asked .integer .string,
    .added .number .object 2] .integer .string).2.2, direct]
  funext pair
  by_cases general : (TypeTag.object, TypeTag.object) = pair
  · subst general
    rfl
  · simp [lastAdded?, Event.method?, general]

end GenericOperator

end ObjectLisp
