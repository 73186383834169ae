import Mathlib.Order.Defs.Unbundled
import ObjectLisp.Proofs.Classes.Order

/-!
# The class hierarchy

No class extends itself, not even through other classes, and the table of
extenders is the extension relation read from the other side.  A class remembers
its linearization only as long as it is the one that the extensions give it.

The three facts need each other.  A new extension is refused by a look at a
linearization that may be remembered, and a remembered linearization is dropped
by a walk through the table of extenders.
-/

namespace ObjectLisp

universe u v

namespace ClassSpace

variable {δ : Type u} {μ : Type v} {space before after : ClassSpace δ μ} {id parent : ClassId}

/-- A class stands in the table of extenders under another one. -/
def Registered (space : ClassSpace δ μ) (parent id : ClassId) : Prop :=
  id ∈ (space.extenders.find? parent).getD []

/-- The extensions, the table of extenders and the remembered linearizations fit together. -/
structure Hierarchical (space : ClassSpace δ μ) : Prop where
  root : ClassId.object < space.size
  top : space.extensionsOf ClassId.object = []
  known : ∀ id parent, space.Extends id parent → parent < space.size
  acyclic : ∀ id, ¬ Relation.TransGen space.Extends id id
  registered : ∀ id parent, space.Registered parent id ↔ space.Extends id parent
  remembered : ∀ id order, space.remembered? id = some order → order = space.freshOrder id

theorem hierarchical_new : ({} : ClassSpace δ μ).Hierarchical := by
  have none : ∀ id parent, ¬ ({} : ClassSpace δ μ).Extends id parent := by
    intro id parent
    unfold Extends extensionsOf get?
    cases id <;> simp
  constructor
  · exact Nat.zero_lt_one
  · rfl
  · intro id parent extension
    exact absurd extension (none id parent)
  · intro id cycle
    obtain ⟨middle, extension, _⟩ := Relation.TransGen.head'_iff.mp cycle
    exact none id middle extension
  · intro id parent
    constructor
    · intro registered
      cases registered
    · intro extension
      exact absurd extension (none id parent)
  · intro id order remembered
    unfold remembered? get? at remembered
    cases id <;> simp at remembered

/-! ## Extensions that one class gains -/

/-- The class extends some more classes, and no other class does. -/
def Gains (before after : ClassSpace δ μ) (id : ClassId) (added : List ClassId) : Prop :=
  ∀ other parent, after.Extends other parent ↔
    before.Extends other parent ∨ other = id ∧ parent ∈ added

namespace Gains

variable {added : List ClassId} {other : ClassId}

/-- A path to the class needs no new extension, since it may end where it first comes there. -/
theorem path_to_class (gains : before.Gains after id added)
    (path : Relation.ReflTransGen after.Extends other id) :
    Relation.ReflTransGen before.Extends other id := by
  induction path using Relation.ReflTransGen.head_induction_on with
  | refl => exact .refl
  | head extension _ ih =>
      rcases (gains _ _).mp extension with old | ⟨here, _⟩
      · exact .head old ih
      · rw [here]

/-- A path is an old one, or it comes to the class and takes a new extension there. -/
theorem old_or_through (gains : before.Gains after id added) {target : ClassId}
    (path : Relation.TransGen after.Extends other target) :
    Relation.TransGen before.Extends other target ∨
      Relation.ReflTransGen before.Extends other id ∧
        ∃ parent ∈ added, Relation.ReflTransGen after.Extends parent target := by
  induction path with
  | single extension =>
      rcases (gains _ _).mp extension with old | ⟨here, new⟩
      · exact .inl (.single old)
      · exact .inr ⟨here ▸ .refl, _, new, .refl⟩
  | tail _ extension ih =>
      rcases ih with oldPath | ⟨front, parent, new, back⟩
      · rcases (gains _ _).mp extension with old | ⟨here, new⟩
        · exact .inl (.tail oldPath old)
        · exact .inr ⟨here ▸ oldPath.to_reflTransGen, _, new, .refl⟩
      · exact .inr ⟨front, parent, new, .tail back extension⟩

/-- There is no new cycle if no new parent is below the class. -/
theorem acyclic (gains : before.Gains after id added)
    (acyclic : ∀ other, ¬ Relation.TransGen before.Extends other other)
    (above : ∀ parent ∈ added, ¬ Relation.ReflTransGen before.Extends parent id)
    (other : ClassId) : ¬ Relation.TransGen after.Extends other other := by
  intro cycle
  have weaker : before.Extends ≤ after.Extends :=
    fun other parent old => (gains other parent).mpr (.inl old)
  rcases gains.old_or_through cycle with old | ⟨front, parent, new, back⟩
  · exact acyclic other old
  · have around := back.trans (Relation.ReflTransGen.mono weaker _ _ front)
    exact above parent new (gains.path_to_class around)

theorem known (gains : before.Gains after id added)
    (old : ∀ other parent, before.Extends other parent → parent < before.size)
    (new : ∀ parent ∈ added, parent < before.size) (extension : after.Extends other parent) :
    parent < before.size := by
  rcases (gains other parent).mp extension with extended | ⟨_, member⟩
  · exact old other parent extended
  · exact new parent member

end Gains

theorem get?_push {made : ClassDef δ μ} (classes : after.classes = before.classes.push made)
    (id : ClassId) : after.get? id = if id = before.size then some made else before.get? id := by
  unfold get?
  rw [classes, Array.getElem?_push]
  rfl

theorem gains_push {made : ClassDef δ μ} (classes : after.classes = before.classes.push made) :
    before.Gains after before.size made.extensions := by
  intro id parent
  unfold Extends extensionsOf
  rw [get?_push classes]
  by_cases last : id = before.size
  · have absent : before.get? id = none := Array.getElem?_eq_none (Nat.le_of_eq last.symm)
    rw [if_pos last, absent]
    simp [last]
  · simp [last]

namespace Hierarchical

/-! ## Operations that change no extension -/

theorem refreshed (hierarchical : before.Hierarchical) (refreshes : before.Refreshes after) :
    after.Hierarchical := by
  have sameExtends : after.Extends = before.Extends := by
    funext id parent
    unfold Extends
    rw [refreshes.extensions]
  constructor
  · rw [refreshes.size]
    exact hierarchical.root
  · rw [refreshes.extensions]
    exact hierarchical.top
  · rw [refreshes.size, sameExtends]
    exact hierarchical.known
  · rw [sameExtends]
    exact hierarchical.acyclic
  · unfold Registered
    rw [refreshes.extenders, sameExtends]
    exact hierarchical.registered
  · intro id order remembered
    rw [refreshes.freshOrder_eq]
    rcases refreshes.remembered id order remembered with old | new
    · exact hierarchical.remembered id order old
    · exact new

/-- What a class remembers is as good as a new linearization. -/
theorem linearization_fst (hierarchical : space.Hierarchical) (id : ClassId) :
    (space.linearization id).1 = space.freshOrder id := by
  unfold linearization
  split
  · next order remembered => exact hierarchical.remembered id order remembered
  · rfl

theorem isSubclass_fst (hierarchical : space.Hierarchical) (id ancestor : ClassId) :
    (space.isSubclass id ancestor).1 = true ↔
      ancestor = ClassId.object ∨ Relation.ReflTransGen space.Extends id ancestor := by
  rw [← mem_freshOrder_iff hierarchical.top, ← hierarchical.linearization_fst id]
  exact decide_eq_true_iff

theorem linearization (hierarchical : space.Hierarchical) (id : ClassId) :
    (space.linearization id).2.Hierarchical :=
  hierarchical.refreshed (space.refreshes_linearization id)

theorem addSlot (hierarchical : space.Hierarchical) (id : ClassId) (name : String)
    (default : δ) : (space.addSlot id name default).Hierarchical := by
  unfold ClassSpace.addSlot
  split
  · exact hierarchical
  · apply hierarchical.refreshed
    apply Refreshes.trans _ (refreshes_record _ _)
    exact space.refreshes_modify id _ (fun _ => rfl) (fun _ _ => .inl)

theorem removeSlot (hierarchical : space.Hierarchical) (id : ClassId) (name : String) :
    (space.removeSlot id name).2.Hierarchical := by
  unfold ClassSpace.removeSlot
  split
  · exact hierarchical
  · split
    · apply hierarchical.refreshed
      apply Refreshes.trans _ (refreshes_record _ _)
      exact space.refreshes_modify id _ (fun _ => rfl) (fun _ _ => .inl)
    · exact hierarchical

theorem addBehavior (hierarchical : space.Hierarchical) (id : ClassId) (name : String)
    (qualifier : Qualifier) (method : μ) :
    (space.addBehavior id name qualifier method).Hierarchical := by
  unfold ClassSpace.addBehavior
  split
  · exact hierarchical
  · apply hierarchical.refreshed
    apply Refreshes.trans _ (refreshes_record _ _)
    apply Refreshes.trans _ (refreshes_invalidate _ id)
    exact space.refreshes_modify id _ (fun _ => rfl) (fun _ _ => .inl)

theorem chain (hierarchical : space.Hierarchical) (id : ClassId) (name : String) :
    (space.chain id name).2.2.Hierarchical := by
  unfold ClassSpace.chain
  split
  · exact hierarchical
  · apply hierarchical.refreshed
    apply (space.refreshes_linearization id).trans
    exact refreshes_modify _ id _ (fun _ => rfl) (fun _ _ => .inl)

/-! ## New classes -/

/-- A new class may extend classes that are there, and nothing extends it yet. -/
theorem push (hierarchical : before.Hierarchical) {made : ClassDef δ μ}
    (classes : after.classes = before.classes.push made)
    (known : ∀ parent ∈ made.extensions, parent < before.size) (blank : made.order? = none)
    (registered : ∀ id parent, after.Registered parent id ↔
      before.Registered parent id ∨ id = before.size ∧ parent ∈ made.extensions) :
    after.Hierarchical := by
  have found := get?_push classes
  have gains := gains_push classes
  have newSize : after.size = before.size + 1 := by
    simp [ClassSpace.size, classes]
  have older : ∀ id, id ≠ before.size → after.extensionsOf id = before.extensionsOf id := by
    intro id different
    unfold extensionsOf
    rw [found, if_neg different]
  constructor
  · rw [newSize]
    exact Nat.lt_succ_of_lt hierarchical.root
  · rw [older _ (Nat.ne_of_lt hierarchical.root)]
    exact hierarchical.top
  · intro id parent extension
    rw [newSize]
    exact Nat.lt_succ_of_lt (gains.known hierarchical.known known extension)
  · refine gains.acyclic hierarchical.acyclic fun parent new path => ?_
    -- Nothing led to the new class.
    rcases Relation.reflTransGen_iff_eq_or_transGen.mp path with same | steps
    · exact absurd same.symm (Nat.ne_of_lt (known parent new))
    · obtain ⟨middle, _, extension⟩ := Relation.TransGen.tail'_iff.mp steps
      exact Nat.lt_irrefl _ (hierarchical.known middle _ extension)
  · intro id parent
    rw [registered, gains, hierarchical.registered]
  · intro id order remembered
    by_cases last : id = before.size
    · unfold remembered? at remembered
      rw [found, if_pos last, Option.bind_some, blank] at remembered
      cases remembered
    · have same : after.remembered? id = before.remembered? id := by
        unfold remembered?
        rw [found, if_neg last]
      have early : id < before.size := by
        rw [same] at remembered
        unfold remembered? at remembered
        obtain ⟨class_, present, _⟩ := Option.bind_eq_some_iff.mp remembered
        exact (Array.getElem?_eq_some_iff.mp present).1
      rw [same] at remembered
      rw [hierarchical.remembered id order remembered]
      symm
      apply freshOrder_congr (· < before.size) _ _ early
      · exact fun id early => older id (Nat.ne_of_lt early)
      · exact fun id _ parent => hierarchical.known id parent

/-! ## New extensions -/

/-- A class may extend classes that are not below it, if all classes below it forget. -/
theorem extended (hierarchical : before.Hierarchical) {added : List ClassId}
    (proper : id ≠ ClassId.object)
    (checked : ∀ parent ∈ added,
      parent < before.size ∧ ¬ Relation.ReflTransGen before.Extends parent id)
    (size : after.size = before.size)
    (extensions : ∀ other, after.extensionsOf other =
      if other = id then before.extensionsOf other ++ added else before.extensionsOf other)
    (registered : ∀ other parent, after.Registered parent other ↔
      before.Registered parent other ∨ other = id ∧ parent ∈ added)
    (remembered : ∀ other order, after.remembered? other = some order →
      before.remembered? other = some order ∧ ¬ Relation.ReflTransGen after.Extends other id) :
    after.Hierarchical := by
  have gains : before.Gains after id added := by
    intro other parent
    unfold Extends
    rw [extensions]
    by_cases here : other = id
    · simp [here]
    · simp [here]
  constructor
  · rw [size]
    exact hierarchical.root
  · rw [extensions, if_neg (Ne.symm proper)]
    exact hierarchical.top
  · intro other parent extension
    rw [size]
    exact gains.known hierarchical.known (fun parent new => (checked parent new).1) extension
  · exact gains.acyclic hierarchical.acyclic fun parent new => (checked parent new).2
  · intro other parent
    rw [registered, gains, hierarchical.registered]
  · intro other order same
    obtain ⟨old, apart⟩ := remembered other order same
    rw [hierarchical.remembered other order old]
    symm
    -- The classes that are not below the class have no new extension, nor have those above them.
    apply freshOrder_congr (¬ Relation.ReflTransGen after.Extends · id) _ _ apart
    · intro other apart
      have different : other ≠ id := by
        rintro rfl
        exact apart .refl
      rw [extensions, if_neg different]
    · intro other apart parent extension below
      exact apart (.head ((gains other parent).mpr (.inl extension)) below)

end Hierarchical

/-! ## Checked parents -/

/-- Checking parents asks for linearizations and does nothing else. -/
theorem checkParents_snd_of_linearization {relation : ClassSpace δ μ → ClassSpace δ μ → Prop}
    (refl : ∀ space, relation space space)
    (trans : ∀ {first second third}, relation first second → relation second third →
      relation first third)
    (asks : ∀ space parent, relation space (space.linearization parent).2)
    (space : ClassSpace δ μ) (id : ClassId) (existing added parents : List ClassId) :
    relation space (space.checkParents id existing added parents).2 := by
  induction parents generalizing space added with
  | nil => exact refl space
  | cons parent rest ih =>
      unfold checkParents
      split
      · exact ih space added
      · split
        · exact refl space
        · split
          · exact refl space
          · have asked := asks space parent
            by_cases below : id ∈ (space.linearization parent).1
            · simp only [isSubclass, below]
              exact asked
            · simp only [isSubclass, below]
              exact trans asked (ih _ _)

/-- Parents that pass the check exist and are not below the class. -/
theorem checkParents_spec (hierarchical : space.Hierarchical) (id : ClassId)
    (existing parents : List ClassId) {added : List ClassId}
    (sound : ∀ parent ∈ added, parent < space.size ∧ id ∉ space.freshOrder parent) :
    space.Refreshes (space.checkParents id existing added parents).2 ∧
      ∀ accepted, (space.checkParents id existing added parents).1 = .ok accepted →
        ∀ parent ∈ accepted, parent < space.size ∧ id ∉ space.freshOrder parent := by
  refine ⟨checkParents_snd_of_linearization .refl .trans refreshes_linearization space id existing
    added parents, ?_⟩
  induction parents generalizing space added with
  | nil =>
      intro accepted same
      cases same
      exact sound
  | cons parent rest ih =>
      unfold checkParents
      split
      · exact ih hierarchical sound
      · split
        · intro accepted same
          cases same
        · next present =>
            split
            · intro accepted same
              cases same
            · have refreshes := space.refreshes_linearization parent
              by_cases below : id ∈ space.freshOrder parent
              · simp only [isSubclass, hierarchical.linearization_fst, below]
                intro accepted same
                cases same
              · simp only [isSubclass, hierarchical.linearization_fst, below]
                have inside : parent < space.classes.size := by
                  unfold get? at present
                  simpa using present
                have soundLater : ∀ other ∈ added ++ [parent],
                    other < (space.linearization parent).2.size ∧
                      id ∉ (space.linearization parent).2.freshOrder other := by
                  intro other member
                  rw [refreshes.size, refreshes.freshOrder_eq]
                  rcases List.mem_append.mp member with old | new
                  · exact sound other old
                  · rw [List.mem_singleton.mp new]
                    exact ⟨inside, below⟩
                intro accepted same other member
                have := ih (hierarchical.linearization parent) soundLater accepted same other member
                rwa [refreshes.size, refreshes.freshOrder_eq] at this

/-! ## Registration -/

theorem registered_register (space : ClassSpace δ μ) (parent child other id : ClassId) :
    (space.register parent child).Registered other id ↔
      space.Registered other id ∨ id = child ∧ other = parent := by
  unfold Registered register
  rw [Assoc.find?_insert]
  by_cases same : parent = other
  · simp [same]
  · simp [same, Ne.symm same]

theorem registered_foldl_register (space : ClassSpace δ μ) (added : List ClassId)
    (child other id : ClassId) :
    (added.foldl (fun space parent => space.register parent child) space).Registered other id ↔
      space.Registered other id ∨ id = child ∧ other ∈ added := by
  induction added generalizing space with
  | nil => simp
  | cons first rest ih =>
      rw [List.foldl_cons, ih, registered_register, List.mem_cons, or_assoc, ← and_or_left]

theorem classes_foldl_register (space : ClassSpace δ μ) (added : List ClassId) (child : ClassId) :
    (added.foldl (fun space parent => space.register parent child) space).classes =
      space.classes := by
  induction added generalizing space with
  | nil => rfl
  | cons first rest ih => rw [List.foldl_cons, ih]; rfl

/-- The classes found through the table of extenders are those below a class. -/
theorem reaches_children_iff (registered : ∀ id parent, space.Registered parent id ↔ space.Extends id parent)
    {other : ClassId} :
    Graph.Reaches space.children id other ↔ Relation.ReflTransGen space.Extends other id := by
  have sameEdges : Graph.Edge space.children = Function.swap space.Extends := by
    funext parent child
    apply propext
    unfold Graph.Edge children
    rw [List.mem_reverse]
    exact registered child parent
  unfold Graph.Reaches
  rw [sameEdges]
  exact Relation.reflTransGen_swap

/-- The space after a class got further extensions, before anything is forgotten. -/
def grown (space : ClassSpace δ μ) (id : ClassId) (added : List ClassId) : ClassSpace δ μ :=
  added.foldl (fun space parent => space.register parent id)
    (space.modify id fun old => { old with extensions := old.extensions ++ added })

theorem get?_grown (space : ClassSpace δ μ) (id : ClassId) (added : List ClassId)
    (other : ClassId) :
    (space.grown id added).get? other =
      if id = other then
        (space.get? other).map fun old => { old with extensions := old.extensions ++ added }
      else space.get? other := by
  unfold grown get?
  rw [classes_foldl_register]
  exact space.get?_modify id other _

namespace Hierarchical

theorem grow (hierarchical : space.Hierarchical) {added : List ClassId} {first : ClassId}
    (inside : id < space.size) (nonempty : first ∈ added)
    (checked : ∀ parent ∈ added, parent < space.size ∧ id ∉ space.freshOrder parent) :
    ((space.grown id added).invalidate id).Hierarchical := by
  have refreshes := (space.grown id added).refreshes_invalidate id
  have grownExtensions : ∀ other, (space.grown id added).extensionsOf other =
      if other = id then space.extensionsOf other ++ added else space.extensionsOf other := by
    intro other
    unfold extensionsOf
    rw [get?_grown]
    by_cases here : other = id
    · subst here
      have present : space.get? other = some _ := Array.getElem?_eq_getElem inside
      simp [present]
    · simp [here, Ne.symm here]
  have grownRegistered : ∀ other parent, (space.grown id added).Registered parent other ↔
      space.Registered parent other ∨ other = id ∧ parent ∈ added :=
    fun other parent => registered_foldl_register _ added id parent other
  have fits : ∀ other parent, (space.grown id added).Registered parent other ↔
      (space.grown id added).Extends other parent := by
    intro other parent
    rw [grownRegistered, hierarchical.registered]
    unfold Extends
    rw [grownExtensions]
    by_cases here : other = id
    · simp [here]
    · simp [here]
  have sameExtends : ((space.grown id added).invalidate id).Extends =
      (space.grown id added).Extends := by
    funext other parent
    unfold Extends
    rw [refreshes.extensions]
  have proper : id ≠ ClassId.object := by
    rintro rfl
    exact (checked first nonempty).2 (space.object_mem_freshOrder first)
  apply hierarchical.extended proper
  · intro parent member
    obtain ⟨inside, apart⟩ := checked parent member
    rw [mem_freshOrder_iff hierarchical.top, not_or] at apart
    exact ⟨inside, apart.2⟩
  · rw [refreshes.size]
    unfold grown size
    rw [classes_foldl_register]
    exact Array.size_modify
  · intro other
    rw [refreshes.extensions, grownExtensions]
  · intro other parent
    rw [← grownRegistered]
    unfold Registered
    rw [refreshes.extenders]
  · intro other order remembered
    obtain ⟨old, apart⟩ := remembered?_invalidate remembered
    rw [reaches_children_iff fits] at apart
    rw [sameExtends]
    constructor
    · rw [← old]
      unfold remembered?
      rw [get?_grown]
      split
      · cases space.get? other <;> rfl
      · rfl
    · exact apart

theorem extend (hierarchical : space.Hierarchical) (id : ClassId) (parents : List ClassId) :
    (space.extend id parents).2.Hierarchical := by
  unfold ClassSpace.extend
  cases present : space.get? id with
  | none => exact hierarchical
  | some found =>
      have nothing : ∀ parent ∈ ([] : List ClassId),
          parent < space.size ∧ id ∉ space.freshOrder parent := nofun
      obtain ⟨refreshes, accepts⟩ :=
        checkParents_spec hierarchical id found.extensions parents nothing
      dsimp only
      generalize space.checkParents id found.extensions [] parents = outcome at refreshes accepts
      obtain ⟨result, later⟩ := outcome
      have hierarchicalLater := hierarchical.refreshed refreshes
      cases result with
      | error problem => exact hierarchicalLater
      | ok accepted =>
          cases accepted with
          | nil => exact hierarchicalLater
          | cons first more =>
              apply Hierarchical.refreshed _ (refreshes_record _ _)
              have inside : id < later.size := by
                rw [refreshes.size]
                exact (Array.getElem?_eq_some_iff.mp present).1
              apply hierarchicalLater.grow inside List.mem_cons_self
              intro parent member
              rw [refreshes.size, refreshes.freshOrder_eq]
              exact accepts (first :: more) rfl parent member

theorem define (hierarchical : space.Hierarchical) (name : String) (parents : List ClassId)
    (slots : List (String × δ)) : (space.define name parents slots).2.Hierarchical := by
  have pushed : ∀ (made : ClassDef δ μ) (byName : Assoc String ClassId), made.extensions = [] →
      made.order? = none →
      { space with classes := space.classes.push made, byName }.Hierarchical := by
    intro made byName alone blank
    apply hierarchical.push rfl _ blank
    · simp [alone, Registered]
    · simp [alone]
  unfold ClassSpace.define
  dsimp only
  split
  · next problem later same =>
      have outcome : _ = later := congrArg Prod.snd same
      rw [← outcome]
      apply Hierarchical.extend
      exact pushed _ _ rfl rfl
  · next later same =>
      have outcome : _ = later := congrArg Prod.snd same
      apply Hierarchical.refreshed _ (refreshes_record _ _)
      rw [← outcome]
      apply Hierarchical.extend
      exact pushed _ _ rfl rfl

theorem customize (hierarchical : space.Hierarchical) {membership : Membership}
    (inside : membership.nominal < space.size) :
    (space.customize membership).2.2.Hierarchical := by
  unfold ClassSpace.customize
  split
  · exact hierarchical
  · apply hierarchical.push rfl
    · intro parent member
      rwa [List.mem_singleton.mp member]
    · rfl
    · intro id parent
      rw [registered_register, List.mem_singleton]
      rfl

/-! ## Subclasses -/

theorem eq_object_of_object_le (hierarchical : space.Hierarchical) {ancestor : ClassId}
    (below : (space.isSubclass ClassId.object ancestor).1 = true) : ancestor = ClassId.object := by
  rcases (hierarchical.isSubclass_fst _ _).mp below with same | path
  · exact same
  · rcases path.cases_head with same | ⟨middle, extension, _⟩
    · exact same.symm
    · simp [Extends, hierarchical.top] at extension

theorem isSubclass_trans (hierarchical : space.Hierarchical) {lower middle upper : ClassId}
    (first : (space.isSubclass lower middle).1 = true)
    (second : (space.isSubclass middle upper).1 = true) :
    (space.isSubclass lower upper).1 = true := by
  rcases (hierarchical.isSubclass_fst _ _).mp first with rfl | front
  · rw [hierarchical.eq_object_of_object_le second, hierarchical.isSubclass_fst]
    exact .inl rfl
  · rw [hierarchical.isSubclass_fst] at second ⊢
    rcases second with root | back
    · exact .inl root
    · exact .inr (front.trans back)

theorem isSubclass_antisymm (hierarchical : space.Hierarchical) {left right : ClassId}
    (first : (space.isSubclass left right).1 = true)
    (second : (space.isSubclass right left).1 = true) : left = right := by
  rcases (hierarchical.isSubclass_fst _ _).mp first with rfl | front
  · exact hierarchical.eq_object_of_object_le second
  · rcases (hierarchical.isSubclass_fst _ _).mp second with rfl | back
    · exact (hierarchical.eq_object_of_object_le first).symm
    · rcases Relation.reflTransGen_iff_eq_or_transGen.mp front with same | strict
      · exact same.symm
      · exact absurd (strict.trans_left back) (hierarchical.acyclic left)

end Hierarchical

/-! ## Reachable class spaces -/

/-- A class space that comes from the new one by its operations, also by failing ones. -/
inductive Reachable : ClassSpace δ μ → Prop where
  | new : Reachable {}
  | define {space : ClassSpace δ μ} (reachable : Reachable space) (name : String)
      (parents : List ClassId) (slots : List (String × δ)) :
      Reachable (space.define name parents slots).2
  | extend {space : ClassSpace δ μ} (reachable : Reachable space) (id : ClassId)
      (parents : List ClassId) : Reachable (space.extend id parents).2
  | customize {space : ClassSpace δ μ} (reachable : Reachable space) (membership : Membership)
      (inside : membership.nominal < space.size) : Reachable (space.customize membership).2.2
  | addSlot {space : ClassSpace δ μ} (reachable : Reachable space) (id : ClassId)
      (name : String) (default : δ) : Reachable (space.addSlot id name default)
  | removeSlot {space : ClassSpace δ μ} (reachable : Reachable space) (id : ClassId)
      (name : String) : Reachable (space.removeSlot id name).2
  | addBehavior {space : ClassSpace δ μ} (reachable : Reachable space) (id : ClassId)
      (name : String) (qualifier : Qualifier) (method : μ) :
      Reachable (space.addBehavior id name qualifier method)
  | linearization {space : ClassSpace δ μ} (reachable : Reachable space) (id : ClassId) :
      Reachable (space.linearization id).2
  | chain {space : ClassSpace δ μ} (reachable : Reachable space) (id : ClassId)
      (name : String) : Reachable (space.chain id name).2.2

theorem Reachable.hierarchical (reachable : space.Reachable) : space.Hierarchical := by
  induction reachable with
  | new => exact hierarchical_new
  | define _ name parents slots ih => exact ih.define name parents slots
  | extend _ id parents ih => exact ih.extend id parents
  | customize _ membership inside ih => exact ih.customize inside
  | addSlot _ id name default ih => exact ih.addSlot id name default
  | removeSlot _ id name ih => exact ih.removeSlot id name
  | addBehavior _ id name qualifier method ih => exact ih.addBehavior id name qualifier method
  | linearization _ id ih => exact ih.linearization id
  | chain _ id name ih => exact ih.chain id name

/-- In every class space that can be reached, the extensions have no cycle, the table of extenders
is their converse, and what a class remembers is its linearization.  So the classes are partially
ordered by `isSubclass`, which follows extensions upwards and has the root class on top. -/
theorem Reachable.classes_partially_ordered (reachable : space.Reachable) :
    (∀ id, ¬ Relation.TransGen space.Extends id id) ∧
    (∀ id parent, id ∈ (space.extenders.find? parent).getD [] ↔
      ∃ found, space.get? id = some found ∧ parent ∈ found.extensions) ∧
    (∀ id found order, space.get? id = some found → found.order? = some order →
      order = space.freshOrder id) ∧
    (∀ id ancestor, (space.isSubclass id ancestor).1 = true ↔
      ancestor = ClassId.object ∨ Relation.ReflTransGen space.Extends id ancestor) ∧
    IsPartialOrder (Fin space.size) fun id ancestor => (space.isSubclass id ancestor).1 = true := by
  have hierarchical := reachable.hierarchical
  refine ⟨hierarchical.acyclic, ?_, ?_, hierarchical.isSubclass_fst, ?_⟩
  · intro id parent
    have registered := hierarchical.registered id parent
    unfold Registered Extends extensionsOf at registered
    rw [registered]
    cases space.get? id <;> simp
  · intro id found order present same
    apply hierarchical.remembered id order
    unfold remembered?
    rw [present]
    exact same
  · exact
      { refl id := (hierarchical.isSubclass_fst id id).mpr (.inr .refl)
        trans _ _ _ := hierarchical.isSubclass_trans
        antisymm _ _ first second := Fin.ext (hierarchical.isSubclass_antisymm first second) }

/-- `shape`, then `disc` extending it, which remembers its linearization; then `figure`, and
`shape` is made to extend it. -/
private def figures : ClassSpace Unit Unit :=
  let shape := (({} : ClassSpace Unit Unit).define "shape" [] []).2
  let disc := (shape.define "disc" [1] []).2
  let remembering := (disc.linearization 2).2
  let figure := (remembering.define "figure" [] []).2
  (figure.extend 1 [3]).2

private theorem figures_reachable : figures.Reachable :=
  ((((Reachable.new.define "shape" [] []).define "disc" [1] []).linearization 2).define
    "figure" [] []).extend 1 [3]

/-- The class that had remembered its linearization sees the new class above it. -/
theorem Reachable.classes_partially_ordered_after_extend :
    figures.Reachable ∧ (figures.isSubclass 2 3).1 = true ∧ (figures.isSubclass 3 2).1 = false := by
  have ordered := figures_reachable.classes_partially_ordered.2.2.2
  have discExtends : figures.Extends 2 1 := by
    unfold Extends
    decide +kernel
  have shapeExtends : figures.Extends 1 3 := by
    unfold Extends
    decide +kernel
  have above : (figures.isSubclass 2 3).1 = true :=
    (ordered.1 2 3).mpr (.inr (.head discExtends (.single shapeExtends)))
  have apart : (figures.isSubclass 3 2).1 = false := by
    rw [Bool.eq_false_iff]
    intro below
    have size : figures.size = 4 := by decide +kernel
    have same := ordered.2.antisymm ⟨2, by omega⟩ ⟨3, by omega⟩ above below
    simp at same
  exact ⟨figures_reachable, above, apart⟩

end ClassSpace

end ObjectLisp
