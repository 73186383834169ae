import ObjectLisp.ClassSpace
import ObjectLisp.Proofs.Graph.Walk

/-!
# Linearizations and what classes remember of them

The extension lists of a class space are the edges of a graph, and so are the
entries of its table of extenders.  Both graphs have a bounded number of edges, so
a linearization lists all classes above a class, and an invalidation reaches all
classes below it.

Most operations change no extension list.  They may drop a linearization that a
class remembers, or let a class remember the one that the graph gives it.
-/

namespace ObjectLisp

universe u v

namespace ClassSpace

variable {δ : Type u} {μ : Type v} {space before after : ClassSpace δ μ} {id parent : ClassId}

/-- The classes that a class extends. -/
def extensionsOf (space : ClassSpace δ μ) (id : ClassId) : List ClassId :=
  ((space.get? id).map (·.extensions)).getD []

/-- A class directly extends another one. -/
def Extends (space : ClassSpace δ μ) (id parent : ClassId) : Prop :=
  parent ∈ space.extensionsOf id

/-- The linearization that a class remembers. -/
def remembered? (space : ClassSpace δ μ) (id : ClassId) : Option (List ClassId) :=
  (space.get? id).bind (·.order?)

theorem parents_eq (space : ClassSpace δ μ) (id : ClassId) :
    space.parents id = (space.extensionsOf id).filter (· ≠ ClassId.object) := by
  unfold parents extensionsOf
  cases space.get? id <;> rfl

theorem mem_parents_iff :
    parent ∈ space.parents id ↔ space.Extends id parent ∧ parent ≠ ClassId.object := by
  rw [parents_eq, List.mem_filter, decide_eq_true_eq]
  rfl

/-! ## Numbers of edges -/

theorem edgeBound_parents (space : ClassSpace δ μ) :
    Graph.EdgeBound space.parents space.extensionCount := by
  have bound := Graph.edgeBound_lists (space.classes.toList.map (·.extensions))
  rw [← List.flatMap_def] at bound
  apply bound.fewer
  intro id
  rw [parents_eq, extensionsOf, get?, List.getElem?_map, Array.getElem?_toList]
  exact List.length_filter_le _ _

theorem edgeBound_entries (entries : List (ClassId × List ClassId)) :
    Graph.EdgeBound (fun id => ((Assoc.findIn id entries).getD []).reverse)
      (entries.map Prod.snd).flatten.length := by
  induction entries with
  | nil => exact Graph.edgeBound_nil (by simp [Assoc.findIn])
  | cons entry rest ih =>
      obtain ⟨first, listed⟩ := entry
      rw [List.map_cons, List.flatten_cons, List.length_append, Nat.add_comm]
      apply ih.override first
      · intro other different
        simp [Assoc.findIn, Ne.symm different]
      · simp [Assoc.findIn]

theorem edgeBound_children (space : ClassSpace δ μ) :
    Graph.EdgeBound space.children space.extenderCount :=
  edgeBound_entries space.extenders.entries

/-! ## Linearizations -/

theorem object_mem_freshOrder (space : ClassSpace δ μ) (id : ClassId) :
    ClassId.object ∈ space.freshOrder id := by
  unfold freshOrder
  split <;> simp

/-- A linearization lists the classes that are reached through extensions, and the root class. -/
theorem mem_freshOrder_iff (top : space.extensionsOf ClassId.object = []) {ancestor : ClassId} :
    ancestor ∈ space.freshOrder id ↔
      ancestor = ClassId.object ∨ Relation.ReflTransGen space.Extends id ancestor := by
  have fromObject : ∀ target, Relation.ReflTransGen space.Extends ClassId.object target →
      target = ClassId.object := by
    intro target path
    rcases path.cases_head with same | ⟨middle, extension, _⟩
    · exact same.symm
    · simp [Extends, top] at extension
  have weaker : Graph.Edge space.parents ≤ space.Extends :=
    fun _ _ edge => (mem_parents_iff.mp edge).1
  by_cases isObject : id = ClassId.object
  · rw [freshOrder, if_pos isObject, List.mem_singleton, isObject]
    constructor
    · exact .inl
    · rintro (same | path)
      · exact same
      · exact fromObject ancestor path
  · rw [freshOrder, if_neg isObject, List.mem_append, List.mem_singleton,
      Graph.mem_preorder_iff space.edgeBound_parents]
    constructor
    · rintro (path | same)
      · exact .inr (Relation.ReflTransGen.mono weaker _ _ path)
      · exact .inl same
    · rintro (same | path)
      · exact .inr same
      · -- A path to another class than the root never passes the root.
        by_cases root : ancestor = ClassId.object
        · exact .inr root
        · left
          induction path using Relation.ReflTransGen.head_induction_on with
          | refl => exact .refl
          | @head source middle extension rest ih =>
              have proper : middle ≠ ClassId.object := by
                rintro rfl
                exact root (fromObject ancestor rest)
              exact .head (mem_parents_iff.mpr ⟨extension, proper⟩) (ih proper)

/-- The linearization of a class is the same in two spaces that agree on the classes above it. -/
theorem freshOrder_congr (inside : ClassId → Prop)
    (agree : ∀ id, inside id → after.extensionsOf id = before.extensionsOf id)
    (closed : ∀ id, inside id → ∀ parent, before.Extends id parent → inside parent)
    (start : inside id) : after.freshOrder id = before.freshOrder id := by
  have same : Graph.preorder after.parents after.extensionCount id =
      Graph.preorder before.parents before.extensionCount id := by
    apply Graph.preorder_congr before.edgeBound_parents after.edgeBound_parents _ _ start
    · intro node here
      rw [parents_eq, parents_eq, agree node here]
    · intro node here target edge
      exact closed node here target (mem_parents_iff.mp edge).1
  unfold freshOrder
  rw [same]

/-! ## Operations that change no extension -/

/-- All extensions are as before, and what a class remembers newly is right. -/
structure Refreshes (before after : ClassSpace δ μ) : Prop where
  size : after.size = before.size
  extensions : ∀ id, after.extensionsOf id = before.extensionsOf id
  extenders : after.extenders = before.extenders
  remembered : ∀ id order, after.remembered? id = some order →
    before.remembered? id = some order ∨ order = before.freshOrder id

namespace Refreshes

theorem refl (space : ClassSpace δ μ) : space.Refreshes space where
  size := rfl
  extensions _ := rfl
  extenders := rfl
  remembered _ _ same := .inl same

theorem freshOrder_eq (refreshes : before.Refreshes after) (id : ClassId) :
    after.freshOrder id = before.freshOrder id :=
  freshOrder_congr (fun _ => True) (fun id _ => refreshes.extensions id)
    (fun _ _ _ _ => trivial) trivial

theorem trans {last : ClassSpace δ μ} (first : before.Refreshes after)
    (second : after.Refreshes last) : before.Refreshes last where
  size := second.size.trans first.size
  extensions id := (second.extensions id).trans (first.extensions id)
  extenders := second.extenders.trans first.extenders
  remembered := by
    intro id order same
    rcases second.remembered id order same with old | new
    · exact first.remembered id order old
    · exact .inr (new.trans (first.freshOrder_eq id))

end Refreshes

theorem get?_modify (space : ClassSpace δ μ) (id other : ClassId)
    (change : ClassDef δ μ → ClassDef δ μ) :
    (space.modify id change).get? other =
      if id = other then (space.get? other).map change else space.get? other :=
  Array.getElem?_modify

theorem refreshes_modify (space : ClassSpace δ μ) (id : ClassId)
    (change : ClassDef δ μ → ClassDef δ μ)
    (extensions : ∀ found, (change found).extensions = found.extensions)
    (order : ∀ found order, (change found).order? = some order →
      found.order? = some order ∨ order = space.freshOrder id) :
    space.Refreshes (space.modify id change) where
  size := by simp [modify, size]
  extensions other := by
    unfold extensionsOf
    rw [get?_modify]
    by_cases same : id = other
    · rw [if_pos same, Option.map_map]
      cases space.get? other <;> simp [extensions]
    · rw [if_neg same]
  extenders := rfl
  remembered other remembered := by
    unfold remembered?
    rw [get?_modify]
    by_cases same : id = other
    · subst same
      rw [if_pos rfl]
      cases space.get? id with
      | none => simp
      | some found => exact order found remembered
    · rw [if_neg same]
      exact .inl

theorem refreshes_record (space : ClassSpace δ μ) (event : ClassEvent) :
    space.Refreshes (space.record event) :=
  ⟨rfl, fun _ => rfl, rfl, fun _ _ same => .inl same⟩

theorem refreshes_linearization (space : ClassSpace δ μ) (id : ClassId) :
    space.Refreshes (space.linearization id).2 := by
  unfold linearization
  split
  · exact .refl space
  · apply space.refreshes_modify id
    · exact fun _ => rfl
    · intro found order same
      exact .inr (Option.some.inj same).symm

theorem slotsOf_linearization (space : ClassSpace δ μ) (id owner : ClassId) :
    (space.linearization id).2.slotsOf owner = space.slotsOf owner := by
  unfold linearization
  split
  · rfl
  · simp only [slotsOf, get?_modify]
    by_cases same : id = owner
    · subst same
      cases space.get? id <;> simp
    · simp [same]

/-! ## Invalidation -/

theorem refreshes_forget (space : ClassSpace δ μ) (id : ClassId) :
    space.Refreshes (space.forget id) := by
  have changed : space.Refreshes
      (space.modify id ({ · with order? := none, chains := {} })) :=
    space.refreshes_modify id _ (fun _ => rfl) (by simp)
  exact changed.trans (refreshes_record _ _)

theorem remembered?_forget (space : ClassSpace δ μ) (id other : ClassId) :
    (space.forget id).remembered? other =
      if id = other then none else space.remembered? other := by
  have sameClass : (space.forget id).get? other =
      (space.modify id ({ · with order? := none, chains := {} })).get? other := rfl
  unfold remembered?
  rw [sameClass, get?_modify]
  by_cases same : id = other
  · rw [if_pos same, if_pos same]
    cases space.get? other <;> rfl
  · rw [if_neg same, if_neg same]

theorem refreshes_foldl_forget (space : ClassSpace δ μ) (ids : List ClassId) :
    space.Refreshes (ids.foldl forget space) := by
  induction ids generalizing space with
  | nil => exact .refl space
  | cons first rest ih => exact (space.refreshes_forget first).trans (ih (space.forget first))

theorem remembered?_foldl_forget (space : ClassSpace δ μ) (ids : List ClassId)
    (other : ClassId) :
    (ids.foldl forget space).remembered? other =
      if other ∈ ids then none else space.remembered? other := by
  induction ids generalizing space with
  | nil => rfl
  | cons first rest ih =>
      rw [List.foldl_cons, ih, remembered?_forget]
      by_cases here : first = other
      · simp [here]
      · simp [here, Ne.symm here]

theorem refreshes_invalidate (space : ClassSpace δ μ) (id : ClassId) :
    space.Refreshes (space.invalidate id) :=
  space.refreshes_foldl_forget _

/-- After an invalidation no class that is registered below a class remembers anything. -/
theorem remembered?_invalidate {other : ClassId} {order : List ClassId}
    (remembered : (space.invalidate id).remembered? other = some order) :
    space.remembered? other = some order ∧ ¬ Graph.Reaches space.children id other := by
  unfold invalidate at remembered
  rw [remembered?_foldl_forget] at remembered
  by_cases below : other ∈ Graph.preorder space.children space.extenderCount id
  · rw [if_pos below] at remembered
    cases remembered
  · rw [if_neg below] at remembered
    rw [Graph.mem_preorder_iff space.edgeBound_children] at below
    exact ⟨remembered, below⟩

end ClassSpace

end ObjectLisp
