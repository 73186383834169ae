import ObjectLisp.Proofs.Evaluation.Objects

/-!
# Classes of single instances

A class that was made for a single instance extends the class of that instance, and
no class extends it.  As long as only classes that were defined stand in the
extension lists, a class of a single instance stands in its own linearization and
in no other, and a change of it is seen by no other class.

Operations on classes never change what kind a class is of.  What they add to the
values that classes hold is handed to them.
-/

namespace ObjectLisp

universe u v

namespace ClassSpace

/-! ## Kinds of classes -/

section Kinds

variable {δ : Type u} {μ : Type v} {space before after : ClassSpace δ μ} {id parent : ClassId}

/-- Was the class made for a single instance?  There is no answer if there is no such class. -/
def synthetic? (space : ClassSpace δ μ) (id : ClassId) : Option Bool :=
  (space.get? id).map (·.synthetic)

/-- The class exists and was defined. -/
def Ordinary (space : ClassSpace δ μ) (id : ClassId) : Prop := space.synthetic? id = some false

/-- The class exists and was made for a single instance. -/
def Synthetic (space : ClassSpace δ μ) (id : ClassId) : Prop := space.synthetic? id = some true

theorem lt_size_of_synthetic? {kind : Bool} (known : space.synthetic? id = some kind) :
    id < space.size := by
  obtain ⟨found, present, _⟩ := Option.map_eq_some_iff.mp known
  exact (Array.getElem?_eq_some_iff.mp present).1

theorem Ordinary.not_synthetic (ordinary : space.Ordinary id) : ¬ space.Synthetic id := by
  unfold Ordinary at ordinary
  unfold Synthetic
  rw [ordinary]
  simp

theorem synthetic?_push {made : ClassDef δ μ} (classes : after.classes = before.classes.push made)
    (id : ClassId) :
    after.synthetic? id =
      if id = before.size then some made.synthetic else before.synthetic? id := by
  unfold synthetic?
  rw [get?_push classes]
  split <;> rfl

/-- A class that is added changes no other class. -/
theorem synthetic?_push_of_some {made : ClassDef δ μ} {kind : Bool}
    (classes : after.classes = before.classes.push made)
    (known : before.synthetic? id = some kind) : after.synthetic? id = some kind := by
  rw [synthetic?_push classes, if_neg (Nat.ne_of_lt (lt_size_of_synthetic? known))]
  exact known

/-- The extensions fit together, and only classes that were defined are extended. -/
structure Guarded (space : ClassSpace δ μ) : Prop extends space.Hierarchical where
  ordinary_root : space.Ordinary ClassId.object
  ordinary_parent : ∀ id parent, space.Extends id parent → space.Ordinary parent

theorem guarded_new : ({} : ClassSpace δ μ).Guarded where
  toHierarchical := hierarchical_new
  ordinary_root := rfl
  ordinary_parent := by
    intro id parent extension
    unfold Extends extensionsOf get? at extension
    cases id <;> simp at extension

namespace Guarded

theorem refreshed (guarded : before.Guarded) (refreshes : before.Refreshes after)
    (kinds : ∀ id, after.synthetic? id = before.synthetic? id) : after.Guarded where
  toHierarchical := guarded.toHierarchical.refreshed refreshes
  ordinary_root := (kinds _).trans guarded.ordinary_root
  ordinary_parent := by
    intro id parent extension
    rw [refreshes.extends_eq] at extension
    exact (kinds parent).trans (guarded.ordinary_parent id parent extension)

/-- The classes above a class were defined, unless it is the class itself. -/
theorem ordinary_of_path (guarded : space.Guarded) {ancestor : ClassId}
    (path : Relation.ReflTransGen space.Extends id ancestor) :
    ancestor = id ∨ space.Ordinary ancestor := by
  rcases Relation.ReflTransGen.cases_tail path with same | ⟨middle, _, extension⟩
  · exact .inl same
  · exact .inr (guarded.ordinary_parent middle ancestor extension)

theorem ordinary_of_mem_linearization (guarded : space.Guarded) {ancestor : ClassId}
    (member : ancestor ∈ (space.linearization id).1) :
    ancestor = id ∨ space.Ordinary ancestor := by
  rw [guarded.linearization_fst, mem_freshOrder_iff guarded.top] at member
  rcases member with rfl | path
  · exact .inr guarded.ordinary_root
  · exact guarded.ordinary_of_path path

end Guarded

/-! ## New extensions -/

theorem mem_of_checkParents {existing added parents accepted : List ClassId}
    (checked : (space.checkParents id existing added parents).1 = .ok accepted)
    (member : parent ∈ accepted) : parent ∈ added ∨ parent ∈ parents := by
  induction parents generalizing space added with
  | nil =>
      cases checked
      exact .inl member
  | cons first rest ih =>
      unfold checkParents at checked
      split at checked
      · exact (ih checked).imp_right (List.mem_cons_of_mem first)
      · split at checked
        · cases checked
        · split at checked
          · cases checked
          · dsimp only at checked
            split at checked
            · cases checked
            · rcases ih checked with inAdded | inRest
              · rcases List.mem_append.mp inAdded with old | new
                · exact .inl old
                · exact .inr (List.mem_singleton.mp new ▸ List.mem_cons_self)
              · exact .inr (List.mem_cons_of_mem first inRest)

theorem extends_of_grown {added : List ClassId} {child : ClassId}
    (extension : (space.grown id added).Extends child parent) :
    space.Extends child parent ∨ parent ∈ added := by
  unfold Extends extensionsOf at extension ⊢
  rw [get?_grown] at extension
  split at extension
  · cases present : space.get? child with
    | none => simp [present] at extension
    | some found => simpa [present] using extension
  · exact .inl extension

/-- A class extends only what it did before and what it was told to. -/
theorem extends_of_extend {parents : List ClassId} {child : ClassId}
    (extension : (space.extend id parents).2.Extends child parent) :
    space.Extends child parent ∨ parent ∈ parents := by
  unfold extend at extension
  cases present : space.get? id with
  | none =>
      rw [present] at extension
      exact .inl extension
  | some found =>
      rw [present] at extension
      dsimp only at extension
      have refreshes := (space.keepsMethods_checkParents id found.extensions [] parents).refreshes
      have listed : ∀ accepted,
          (space.checkParents id found.extensions [] parents).1 = .ok accepted →
            parent ∈ accepted → parent ∈ parents :=
        fun accepted checked member => (mem_of_checkParents checked member).resolve_left nofun
      generalize space.checkParents id found.extensions [] parents = outcome at *
      obtain ⟨result, later⟩ := outcome
      rw [← refreshes.extends_eq]
      rcases result with problem | accepted
      · exact .inl extension
      · cases accepted with
        | nil => exact .inl extension
        | cons first more =>
            have grown : (later.grown id (first :: more)).Extends child parent := by
              rw [← (refreshes_invalidate _ id).extends_eq]
              exact extension
            rcases extends_of_grown grown with old | new
            · exact .inl old
            · exact .inr (listed _ rfl new)

/-! ## New classes -/

/-- The space after a class was defined, before it extends any class. -/
def declared (space : ClassSpace δ μ) (name : String) (slots : List (String × δ)) :
    ClassSpace δ μ :=
  { space with
    classes := space.classes.push
      { name
        version := space.nextVersion name
        slots := slots.map fun slot => { name := slot.1, owner := space.size, default := slot.2 } }
    byName := space.byName.insert name space.size }

theorem Hierarchical.declared (hierarchical : space.Hierarchical) (name : String)
    (slots : List (String × δ)) : (space.declared name slots).Hierarchical := by
  have alone : ∀ parent ∈ ([] : List ClassId), parent < space.size := nofun
  apply hierarchical.push rfl alone rfl
  intro id parent
  constructor
  · exact .inl
  · rintro (old | ⟨_, none⟩)
    · exact old
    · cases none

/-- A definition declares a class and lets it extend others. -/
theorem define_snd (space : ClassSpace δ μ) (name : String) (parents : List ClassId)
    (slots : List (String × δ)) :
    let extended := ((space.declared name slots).extend space.size parents).2
    (space.define name parents slots).2 = extended ∨
      ∃ event, (space.define name parents slots).2 = extended.record event := by
  change _ ∨ ∃ event, _
  unfold define
  dsimp only
  split
  · next problem later same => exact .inl (congrArg Prod.snd same).symm
  · next later same =>
      have outcome : ((space.declared name slots).extend space.size parents).2 = later :=
        congrArg Prod.snd same
      exact .inr ⟨_, by rw [outcome]⟩

theorem fst_of_define {name : String} {parents : List ClassId} {slots : List (String × δ)}
    (defined : (space.define name parents slots).1 = .ok id) : id = space.size := by
  unfold define at defined
  dsimp only at defined
  split at defined
  · cases defined
  · exact (Except.ok.inj defined).symm

namespace Guarded

theorem extend (guarded : space.Guarded) {parents : List ClassId}
    (ordinary : ∀ parent ∈ parents, space.Ordinary parent)
    (kinds : ∀ other, (space.extend id parents).2.synthetic? other = space.synthetic? other) :
    (space.extend id parents).2.Guarded where
  toHierarchical := guarded.toHierarchical.extend id parents
  ordinary_root := (kinds _).trans guarded.ordinary_root
  ordinary_parent := by
    intro child parent extension
    unfold Ordinary
    rw [kinds]
    rcases extends_of_extend extension with old | new
    · exact guarded.ordinary_parent child parent old
    · exact ordinary parent new

/-- A class may be added that extends only classes that were defined. -/
theorem push (guarded : before.Guarded) {made : ClassDef δ μ}
    (classes : after.classes = before.classes.push made) (hierarchical : after.Hierarchical)
    (ordinary : ∀ parent ∈ made.extensions, before.Ordinary parent) : after.Guarded where
  toHierarchical := hierarchical
  ordinary_root := synthetic?_push_of_some classes guarded.ordinary_root
  ordinary_parent := by
    intro child parent extension
    rcases (gains_push classes child parent).mp extension with old | ⟨_, new⟩
    · exact synthetic?_push_of_some classes (guarded.ordinary_parent child parent old)
    · exact synthetic?_push_of_some classes (ordinary parent new)

theorem declared (guarded : space.Guarded) (name : String) (slots : List (String × δ)) :
    (space.declared name slots).Guarded := by
  have alone : ∀ parent ∈ ([] : List ClassId), space.Ordinary parent := nofun
  exact guarded.push rfl (guarded.toHierarchical.declared name slots) alone

theorem customize (guarded : space.Guarded) {membership : Membership}
    (ordinary : space.Ordinary membership.nominal) :
    (space.customize membership).2.2.Guarded := by
  have hierarchical := guarded.toHierarchical.customize (lt_size_of_synthetic? ordinary)
  unfold ClassSpace.customize at hierarchical ⊢
  split
  · exact guarded
  · next isNone =>
      rw [isNone] at hierarchical
      apply guarded.push rfl hierarchical
      intro parent member
      rwa [List.mem_singleton.mp member]

end Guarded

/-! ## Changes of a class that no class extends -/

/-- Two spaces have all classes but one in common. -/
def SameButOne (before after : ClassSpace δ μ) (id : ClassId) : Prop :=
  ∀ other, other ≠ id → after.get? other = before.get? other

namespace SameButOne

variable {last : ClassSpace δ μ}

theorem trans (first : before.SameButOne after id) (second : after.SameButOne last id) :
    before.SameButOne last id :=
  fun other different => (second other different).trans (first other different)

theorem modify (space : ClassSpace δ μ) (id : ClassId) (change : ClassDef δ μ → ClassDef δ μ) :
    space.SameButOne (space.modify id change) id := by
  intro other different
  rw [get?_modify, if_neg (Ne.symm different)]

theorem addSlot (space : ClassSpace δ μ) (id : ClassId) (name : String) (default : δ) :
    space.SameButOne (space.addSlot id name default) id := by
  unfold ClassSpace.addSlot
  split
  · exact fun _ _ => rfl
  · exact modify space id _

theorem removeSlot (space : ClassSpace δ μ) (id : ClassId) (name : String) :
    space.SameButOne (space.removeSlot id name).2 id := by
  unfold ClassSpace.removeSlot
  split
  · exact fun _ _ => rfl
  · split
    · exact modify space id _
    · exact fun _ _ => rfl

/-- If no class extends a class, an invalidation of it ends with it. -/
theorem invalidate (registered : ∀ id parent, space.Registered parent id ↔ space.Extends id parent)
    (alone : ∀ other, ¬ space.Extends other id) : space.SameButOne (space.invalidate id) id := by
  intro other different
  have apart : other ∉ Graph.preorder space.children space.extenderCount id := by
    rw [Graph.mem_preorder_iff space.edgeBound_children, reaches_children_iff registered]
    intro path
    rcases Relation.ReflTransGen.cases_tail path with same | ⟨middle, _, extension⟩
    · exact different same.symm
    · exact alone middle extension
  unfold ClassSpace.invalidate
  rw [get?_foldl_forget, if_neg apart]

theorem addBehavior (hierarchical : space.Hierarchical) (alone : ∀ other, ¬ space.Extends other id)
    (name : String) (qualifier : Qualifier) (method : μ) :
    space.SameButOne (space.addBehavior id name qualifier method) id := by
  unfold ClassSpace.addBehavior
  split
  · exact fun _ _ => rfl
  · next found present =>
      have refreshes := space.refreshes_equipped id name
        (((found.behaviors.find? name).getD {}).set qualifier method)
      have equipped := hierarchical.refreshed refreshes
      have aloneStill : ∀ other, ¬ (space.equipped id name
          (((found.behaviors.find? name).getD {}).set qualifier method)).Extends other id := by
        rw [refreshes.extends_eq]
        exact alone
      exact (modify space id _).trans (invalidate equipped.registered aloneStill)

/-- A new class for an instance changes no class that is there. -/
theorem customize (space : ClassSpace δ μ) (membership : Membership) :
    space.SameButOne (space.customize membership).2.2 (space.customize membership).1 := by
  unfold ClassSpace.customize
  split
  · exact fun _ _ => rfl
  · intro other different
    exact (get?_push rfl other).trans (if_neg different)

end SameButOne

/-- A class answers all questions as before. -/
structure SameAnswers (before after : ClassSpace δ μ) (id : ClassId) : Prop where
  linearization : (after.linearization id).1 = (before.linearization id).1
  effectiveSlot : ∀ name, (after.effectiveSlot? id name).1 = (before.effectiveSlot? id name).1
  slotNames : (after.slotNames id).1 = (before.slotNames id).1
  chain : ∀ name, (after.chain id name).1 = (before.chain id name).1

theorem SameAnswers.trans {last : ClassSpace δ μ} (first : before.SameAnswers after id)
    (second : after.SameAnswers last id) : before.SameAnswers last id where
  linearization := second.linearization.trans first.linearization
  effectiveSlot name := (second.effectiveSlot name).trans (first.effectiveSlot name)
  slotNames := second.slotNames.trans first.slotNames
  chain name := (second.chain name).trans (first.chain name)

/-- A class that no class extends is above no other class, so no other class sees a change of it. -/
theorem SameButOne.sameAnswers_of_alone (same : before.SameButOne after id)
    (earlier : before.Hierarchical) (later : after.Hierarchical)
    (alone : ∀ child, ¬ before.Extends child id) (proper : id ≠ ClassId.object) {other : ClassId}
    (different : other ≠ id) : before.SameAnswers after other := by
  have order : (after.linearization other).1 = (before.linearization other).1 := by
    rw [later.linearization_fst, earlier.linearization_fst]
    apply freshOrder_congr (· ≠ id) _ _ different
    · intro class_ apart
      unfold extensionsOf
      rw [same class_ apart]
    · rintro class_ _ parent extension rfl
      exact alone class_ extension
  have apart : ∀ owner ∈ (before.linearization other).1, owner ≠ id := by
    rintro owner member rfl
    rw [earlier.linearization_fst, mem_freshOrder_iff earlier.top] at member
    rcases member with root | path
    · exact proper root
    · rcases Relation.ReflTransGen.cases_tail path with self | ⟨middle, _, extension⟩
      · exact different self.symm
      · exact alone middle extension
  have slots : ∀ owner ∈ (before.linearization other).1,
      after.slotsOf owner = before.slotsOf owner := by
    intro owner member
    unfold slotsOf
    rw [same owner (apart owner member)]
  have methods : ∀ name, ∀ owner ∈ (before.linearization other).1,
      after.methodsOf? name owner = before.methodsOf? name owner := by
    intro name owner member
    unfold methodsOf?
    rw [same owner (apart owner member)]
  refine ⟨order, ?_, ?_, ?_⟩
  · intro name
    unfold effectiveSlot?
    simp only [slotsOf_linearization, order]
    generalize (before.linearization other).1 = owners at slots
    induction owners with
    | nil => rfl
    | cons owner owners ih =>
        rw [List.forall_mem_cons] at slots
        rw [List.findSome?_cons, List.findSome?_cons, slots.1, ih slots.2]
  · unfold slotNames
    simp only [slotsOf_linearization, order]
    rw [List.flatMap_congr fun owner member => by rw [slots owner member]]
  · intro name
    unfold ClassSpace.chain
    rw [same other different]
    cases (before.get? other).bind (·.chains.find? name) with
    | some known => rfl
    | none =>
        simp only [(keepsMethods_linearization _ _).methods, order]
        rw [List.filterMap_congr (methods name)]

/-- No class extends a class that was not defined. -/
theorem SameButOne.sameAnswers (same : before.SameButOne after id) (guarded : before.Guarded)
    (hierarchical : after.Hierarchical) (special : ¬ before.Ordinary id) {other : ClassId}
    (different : other ≠ id) : before.SameAnswers after other := by
  apply same.sameAnswers_of_alone guarded.toHierarchical hierarchical _ _ different
  · exact fun child extension => special (guarded.ordinary_parent child id extension)
  · rintro rfl
    exact special guarded.ordinary_root

end Kinds

end ClassSpace

end ObjectLisp
