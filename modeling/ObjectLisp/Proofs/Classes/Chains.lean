import ObjectLisp.Proofs.Classes.Hierarchy

/-!
# Remembered method chains

A class remembers the method chains that were asked of it.  Methods that are added
to a class drop the chains of all classes below it, which are found through the
table of extenders.  The root class stands in every linearization, but a class is
listed as its extender only if it names it as an extension, and most classes do
not.  So a method that is added to the root class does not reach the chains that
other classes remember.

What a chain holds of all other classes is up to date.  Of the root class it holds
the methods of some earlier time, in roles that the root class still fills.
-/

namespace ObjectLisp

universe u v

/-! ## Sets of methods that grow -/

namespace MethodSet

variable {μ : Type u}

/-- The method in a role. -/
def role (methods : MethodSet μ) : Qualifier → Option μ
  | .primary => methods.primary
  | .before => methods.before
  | .after => methods.after
  | .around => methods.around

/-- Every role that the first set fills is filled in the second one. -/
def Within (older newer : MethodSet μ) : Prop :=
  ∀ qualifier, (older.role qualifier).isSome → (newer.role qualifier).isSome

theorem role_set (methods : MethodSet μ) (qualifier other : Qualifier) (method : μ) :
    (methods.set qualifier method).role other =
      if qualifier = other then some method else methods.role other := by
  cases qualifier <;> cases other <;> rfl

theorem within_set (methods : MethodSet μ) (qualifier : Qualifier) (method : μ) :
    methods.Within (methods.set qualifier method) := by
  intro other filled
  rw [role_set]
  split
  · rfl
  · exact filled

/-- If there is an older set, there is a newer one, and it fills its roles. -/
def OlderThan (older newer : Option (MethodSet μ)) : Prop :=
  ∀ methods ∈ older, ∃ later ∈ newer, methods.Within later

theorem OlderThan.refl (methods : Option (MethodSet μ)) : OlderThan methods methods :=
  fun same member => ⟨same, member, fun _ => id⟩

theorem OlderThan.trans {first second third : Option (MethodSet μ)}
    (older : OlderThan first second) (newer : OlderThan second third) : OlderThan first third := by
  intro methods member
  obtain ⟨middle, inMiddle, within⟩ := older methods member
  obtain ⟨last, inLast, within'⟩ := newer middle inMiddle
  exact ⟨last, inLast, fun qualifier filled => within' qualifier (within qualifier filled)⟩

end MethodSet

namespace ClassSpace

variable {δ : Type u} {μ : Type v} {space before after : ClassSpace δ μ} {id : ClassId}
  {name : String}

/-! ## Chains -/

/-- The chain that a class remembers for a behavior. -/
def chained? (space : ClassSpace δ μ) (id : ClassId) (name : String) :
    Option (Option (MethodChain μ)) :=
  (space.get? id).bind (·.chains.find? name)

/-- The chain that the method tables along the linearization give a class. -/
def freshChain (space : ClassSpace δ μ) (id : ClassId) (name : String) : Option (MethodChain μ) :=
  MethodChain.build? name ((space.freshOrder id).filterMap (space.methodsOf? name))

/-- The chain that a class has if the root class has the given methods. -/
def chainWith (space : ClassSpace δ μ) (id : ClassId) (name : String)
    (root : Option (MethodSet μ)) : Option (MethodChain μ) :=
  MethodChain.build? name
    ((space.freshOrder id).dropLast.filterMap (space.methodsOf? name) ++ root.toList)

/-- The root class comes last, and only there. -/
theorem freshOrder_eq_concat (space : ClassSpace δ μ) (id : ClassId) :
    space.freshOrder id = (space.freshOrder id).dropLast ++ [ClassId.object] := by
  unfold freshOrder
  split
  · rfl
  · rw [List.dropLast_concat]

theorem chainWith_root (space : ClassSpace δ μ) (id : ClassId) (name : String) :
    space.chainWith id name (space.methodsOf? name ClassId.object) = space.freshChain id name := by
  rw [chainWith, freshChain, freshOrder_eq_concat, List.filterMap_append, List.dropLast_concat]
  cases methods : space.methodsOf? name ClassId.object <;> simp [methods]

theorem mem_dropLast_freshOrder {other : ClassId}
    (member : other ∈ (space.freshOrder id).dropLast) :
    other ≠ ClassId.object ∧ Relation.ReflTransGen space.Extends id other := by
  unfold freshOrder at member
  split at member
  · cases member
  · next proper =>
      rw [List.dropLast_concat, Graph.mem_preorder_iff space.edgeBound_parents] at member
      constructor
      · rcases Relation.ReflTransGen.cases_tail member with same | ⟨middle, _, edge⟩
        · exact same ▸ proper
        · exact (mem_parents_iff.mp edge).2
      · exact Relation.ReflTransGen.mono (fun _ _ edge => (mem_parents_iff.mp edge).1) _ _ member

/-- The chain is that of the class, up to the time of the root class's methods.  A class that
names the root class among its extensions, or extends one that does, is told of its methods. -/
def Accounts (space : ClassSpace δ μ) (id : ClassId) (name : String)
    (known : Option (MethodChain μ)) : Prop :=
  ∃ root, known = space.chainWith id name root ∧
    MethodSet.OlderThan root (space.methodsOf? name ClassId.object) ∧
    (Relation.ReflTransGen space.Extends id ClassId.object →
      root = space.methodsOf? name ClassId.object)

/-- All remembered chains are accounted for. -/
def ChainsHold (space : ClassSpace δ μ) : Prop :=
  ∀ id name known, space.chained? id name = some known → space.Accounts id name known

theorem accounts_freshChain (space : ClassSpace δ μ) (id : ClassId) (name : String) :
    space.Accounts id name (space.freshChain id name) :=
  ⟨_, (space.chainWith_root id name).symm, .refl _, fun _ => rfl⟩

/-- A chain outlives changes that leave the linearization and the methods along it alone, the
methods of the root class apart. -/
theorem Accounts.transfer {known : Option (MethodChain μ)}
    (accounts : before.Accounts id name known)
    (order : after.freshOrder id = before.freshOrder id)
    (methods : ∀ other ∈ (before.freshOrder id).dropLast,
      after.methodsOf? name other = before.methodsOf? name other)
    (grows : MethodSet.OlderThan (before.methodsOf? name ClassId.object)
      (after.methodsOf? name ClassId.object))
    (told : Relation.ReflTransGen after.Extends id ClassId.object →
      Relation.ReflTransGen before.Extends id ClassId.object ∧
        after.methodsOf? name ClassId.object = before.methodsOf? name ClassId.object) :
    after.Accounts id name known := by
  obtain ⟨root, rfl, older, current⟩ := accounts
  refine ⟨root, ?_, older.trans grows, ?_⟩
  · rw [chainWith, chainWith, order, List.filterMap_congr methods]
  · intro path
    obtain ⟨old, same⟩ := told path
    rw [same, current old]

/-! ## Operations that change no method -/

theorem Refreshes.extends_eq (refreshes : before.Refreshes after) :
    after.Extends = before.Extends := by
  funext id parent
  unfold Extends
  rw [refreshes.extensions]

/-- Extensions and methods are as before, and what a class remembers newly is right. -/
structure KeepsMethods (before after : ClassSpace δ μ) : Prop where
  refreshes : before.Refreshes after
  methods : ∀ name id, after.methodsOf? name id = before.methodsOf? name id
  chains : ∀ id name known, after.chained? id name = some known →
    before.chained? id name = some known ∨ known = before.freshChain id name

namespace KeepsMethods

theorem refl (space : ClassSpace δ μ) : space.KeepsMethods space :=
  ⟨.refl space, fun _ _ => rfl, fun _ _ _ => .inl⟩

theorem freshChain_eq (keeps : before.KeepsMethods after) (id : ClassId) (name : String) :
    after.freshChain id name = before.freshChain id name := by
  rw [freshChain, freshChain, keeps.refreshes.freshOrder_eq,
    List.filterMap_congr fun other _ => keeps.methods name other]

theorem trans {last : ClassSpace δ μ} (first : before.KeepsMethods after)
    (second : after.KeepsMethods last) : before.KeepsMethods last where
  refreshes := first.refreshes.trans second.refreshes
  methods name id := (second.methods name id).trans (first.methods name id)
  chains := by
    intro id name known same
    rcases second.chains id name known same with old | new
    · exact first.chains id name known old
    · exact .inr (new.trans (first.freshChain_eq id name))

theorem chainsHold (keeps : before.KeepsMethods after) (hold : before.ChainsHold) :
    after.ChainsHold := by
  intro id name known same
  have accounts : before.Accounts id name known := by
    rcases keeps.chains id name known same with old | rfl
    · exact hold id name known old
    · exact before.accounts_freshChain id name
  apply accounts.transfer
  · exact keeps.refreshes.freshOrder_eq id
  · exact fun other _ => keeps.methods name other
  · rw [keeps.methods]
    exact .refl _
  · intro path
    rw [keeps.refreshes.extends_eq] at path
    exact ⟨path, keeps.methods name _⟩

end KeepsMethods

theorem keepsMethods_modify (space : ClassSpace δ μ) (id : ClassId)
    (change : ClassDef δ μ → ClassDef δ μ)
    (extensions : ∀ found, (change found).extensions = found.extensions)
    (order : ∀ found order, (change found).order? = some order →
      found.order? = some order ∨ order = space.freshOrder id)
    (behaviors : ∀ found, (change found).behaviors = found.behaviors)
    (chains : ∀ found name known, (change found).chains.find? name = some known →
      found.chains.find? name = some known ∨ known = space.freshChain id name) :
    space.KeepsMethods (space.modify id change) := by
  refine ⟨space.refreshes_modify id change extensions order, ?_, ?_⟩
  · intro name other
    unfold methodsOf?
    rw [get?_modify]
    split
    · cases space.get? other <;> simp [behaviors]
    · rfl
  · intro other name known same
    unfold chained? at same ⊢
    rw [get?_modify] at same
    split at same
    · next here =>
        subst here
        cases present : space.get? id with
        | none => simp [present] at same
        | some found =>
            rw [present, Option.map_some, Option.bind_some] at same
            exact chains found name known same
    · exact .inl same

theorem keepsMethods_record (space : ClassSpace δ μ) (event : ClassEvent) :
    space.KeepsMethods (space.record event) :=
  ⟨space.refreshes_record event, fun _ _ => rfl, fun _ _ _ => .inl⟩

theorem keepsMethods_linearization (space : ClassSpace δ μ) (id : ClassId) :
    space.KeepsMethods (space.linearization id).2 := by
  unfold linearization
  split
  · exact .refl space
  · apply space.keepsMethods_modify id
    · exact fun _ => rfl
    · intro found order same
      exact .inr (Option.some.inj same).symm
    · exact fun _ => rfl
    · exact fun _ _ _ => .inl

theorem Hierarchical.keepsMethods_chain (hierarchical : space.Hierarchical) (id : ClassId)
    (name : String) : space.KeepsMethods (space.chain id name).2.2 := by
  unfold ClassSpace.chain
  split
  · exact .refl space
  · have keeps := space.keepsMethods_linearization id
    have built : MethodChain.build? name ((space.linearization id).1.filterMap
        ((space.linearization id).2.methodsOf? name)) =
        (space.linearization id).2.freshChain id name := by
      rw [hierarchical.linearization_fst, freshChain, keeps.refreshes.freshOrder_eq]
    dsimp only
    rw [built]
    apply keeps.trans
    apply keepsMethods_modify _ id
    · exact fun _ => rfl
    · exact fun _ _ => .inl
    · exact fun _ => rfl
    · intro found other known same
      rw [Assoc.find?_insert] at same
      split at same
      · next here => exact .inr (here ▸ (Option.some.inj same).symm)
      · exact .inl same

/-- What a class answers is accounted for, whether it remembers it or not. -/
theorem ChainsHold.accounts_chain (hold : space.ChainsHold) (hierarchical : space.Hierarchical)
    (id : ClassId) (name : String) : space.Accounts id name (space.chain id name).1 := by
  unfold chain
  split
  · next known same => exact hold id name known same
  · have keeps := space.keepsMethods_linearization id
    dsimp only
    rw [hierarchical.linearization_fst,
      List.filterMap_congr fun other _ => keeps.methods name other]
    exact space.accounts_freshChain id name

theorem keepsMethods_checkParents (space : ClassSpace δ μ) (id : ClassId)
    (existing added parents : List ClassId) :
    space.KeepsMethods (space.checkParents id existing added parents).2 :=
  checkParents_snd_of_linearization .refl .trans keepsMethods_linearization space id existing added
    parents

theorem keepsMethods_addSlot (space : ClassSpace δ μ) (id : ClassId) (name : String)
    (default : δ) : space.KeepsMethods (space.addSlot id name default) := by
  unfold addSlot
  split
  · exact .refl space
  · apply KeepsMethods.trans _ (keepsMethods_record _ _)
    exact space.keepsMethods_modify id _ (fun _ => rfl) (fun _ _ => .inl) (fun _ => rfl)
      (fun _ _ _ => .inl)

theorem keepsMethods_removeSlot (space : ClassSpace δ μ) (id : ClassId) (name : String) :
    space.KeepsMethods (space.removeSlot id name).2 := by
  unfold removeSlot
  split
  · exact .refl space
  · split
    · apply KeepsMethods.trans _ (keepsMethods_record _ _)
      exact space.keepsMethods_modify id _ (fun _ => rfl) (fun _ _ => .inl) (fun _ => rfl)
        (fun _ _ _ => .inl)
    · exact .refl space

/-! ## Invalidation -/

theorem get?_foldl_forget (space : ClassSpace δ μ) (ids : List ClassId) (other : ClassId) :
    (ids.foldl forget space).get? other =
      if other ∈ ids then (space.get? other).map ({ · with order? := none, chains := {} })
      else space.get? other := by
  induction ids generalizing space with
  | nil => rfl
  | cons first rest inRest =>
      have forgotten : (space.forget first).get? other =
          if first = other then (space.get? other).map ({ · with order? := none, chains := {} })
          else space.get? other := space.get?_modify first other _
      rw [List.foldl_cons, inRest, forgotten]
      by_cases here : first = other
      · cases space.get? other <;> simp [here]
      · simp [here, Ne.symm here]

/-- An invalidation changes no methods, and leaves no chains to the classes registered below. -/
theorem chained?_invalidate {other : ClassId} {known : Option (MethodChain μ)}
    (same : (space.invalidate id).chained? other name = some known) :
    space.chained? other name = some known ∧ ¬ Graph.Reaches space.children id other := by
  unfold invalidate chained? at same
  rw [get?_foldl_forget] at same
  split at same
  · cases present : space.get? other <;> simp [present, Assoc.find?, Assoc.findIn] at same
  · next apart =>
      rw [Graph.mem_preorder_iff space.edgeBound_children] at apart
      exact ⟨same, apart⟩

theorem methodsOf?_invalidate (space : ClassSpace δ μ) (id other : ClassId) (name : String) :
    (space.invalidate id).methodsOf? name other = space.methodsOf? name other := by
  unfold invalidate methodsOf?
  rw [get?_foldl_forget]
  split
  · cases space.get? other <;> rfl
  · rfl

/-! ## New methods -/

/-- The space after a class got methods for a behavior, before anything is forgotten. -/
def equipped (space : ClassSpace δ μ) (id : ClassId) (name : String) (methods : MethodSet μ) :
    ClassSpace δ μ :=
  space.modify id fun old => { old with behaviors := old.behaviors.insert name methods }

theorem refreshes_equipped (space : ClassSpace δ μ) (id : ClassId) (name : String)
    (methods : MethodSet μ) : space.Refreshes (space.equipped id name methods) :=
  space.refreshes_modify id _ (fun _ => rfl) (fun _ _ => .inl)

theorem chained?_equipped (space : ClassSpace δ μ) (id other : ClassId) (name asked : String)
    (methods : MethodSet μ) :
    (space.equipped id name methods).chained? other asked = space.chained? other asked := by
  unfold equipped chained?
  rw [get?_modify]
  split
  · cases space.get? other <;> rfl
  · rfl

theorem methodsOf?_equipped {methods : MethodSet μ} (inside : id < space.size) (other : ClassId)
    (asked : String) :
    (space.equipped id name methods).methodsOf? asked other =
      if id = other ∧ name = asked then some methods else space.methodsOf? asked other := by
  unfold equipped methodsOf?
  rw [get?_modify]
  by_cases here : id = other
  · subst here
    have present : space.get? id = some _ := Array.getElem?_eq_getElem inside
    simp [present]
  · simp [here]

/-- New methods are seen by all classes that are told of them, and by no chain of another class,
unless they are methods of the root class. -/
theorem ChainsHold.equip (hold : space.ChainsHold) (hierarchical : space.Hierarchical)
    {methods : MethodSet μ} (inside : id < space.size)
    (grows : MethodSet.OlderThan (space.methodsOf? name id) (some methods)) :
    ((space.equipped id name methods).invalidate id).ChainsHold := by
  have refreshes := (space.refreshes_equipped id name methods).trans (refreshes_invalidate _ id)
  have registered := (hierarchical.refreshed (space.refreshes_equipped id name methods)).registered
  intro other asked known same
  obtain ⟨kept, apart⟩ := chained?_invalidate same
  rw [reaches_children_iff registered, (space.refreshes_equipped id name methods).extends_eq]
    at apart
  rw [chained?_equipped] at kept
  apply (hold other asked known kept).transfer
  · exact refreshes.freshOrder_eq other
  · intro above member
    have different : ¬ (id = above ∧ name = asked) := by
      rintro ⟨rfl, _⟩
      exact apart (mem_dropLast_freshOrder member).2
    rw [methodsOf?_invalidate, methodsOf?_equipped inside, if_neg different]
  · rw [methodsOf?_invalidate, methodsOf?_equipped inside]
    split
    · next here =>
        obtain ⟨rfl, rfl⟩ := here
        exact grows
    · exact .refl _
  · intro path
    rw [refreshes.extends_eq] at path
    have different : ¬ (id = ClassId.object ∧ name = asked) := by
      rintro ⟨rfl, _⟩
      exact apart path
    rw [methodsOf?_invalidate, methodsOf?_equipped inside, if_neg different]
    exact ⟨path, rfl⟩

theorem ChainsHold.addBehavior (hold : space.ChainsHold) (hierarchical : space.Hierarchical)
    (id : ClassId) (name : String) (qualifier : Qualifier) (method : μ) :
    (space.addBehavior id name qualifier method).ChainsHold := by
  unfold ClassSpace.addBehavior
  split
  · exact hold
  · next found present =>
      apply (keepsMethods_record _ _).chainsHold
      have inside : id < space.size := (Array.getElem?_eq_some_iff.mp present).1
      apply hold.equip hierarchical inside
      intro methods member
      have old : found.behaviors.find? name = some methods := by
        simpa [methodsOf?, present] using member
      rw [old, Option.getD_some]
      exact ⟨_, rfl, methods.within_set qualifier method⟩

/-! ## New classes and extensions -/

/-- A path stays among classes that no edge leaves. -/
theorem path_congr (inside : ClassId → Prop)
    (agree : ∀ id, inside id → after.extensionsOf id = before.extensionsOf id)
    (closed : ∀ id, inside id → ∀ parent, before.Extends id parent → inside parent)
    (start : inside id) {target : ClassId} (path : Relation.ReflTransGen after.Extends id target) :
    Relation.ReflTransGen before.Extends id target ∧ inside target := by
  induction path with
  | refl => exact ⟨.refl, start⟩
  | @tail middle last _ extension front =>
      obtain ⟨old, here⟩ := front
      have oldExtension : before.Extends middle last := by
        unfold Extends at extension ⊢
        rwa [agree middle here] at extension
      exact ⟨.tail old oldExtension, closed middle here last oldExtension⟩

/-- A chain outlives changes to other classes than those above its own. -/
theorem Accounts.transfer_inside {known : Option (MethodChain μ)}
    (accounts : before.Accounts id name known) (inside : ClassId → Prop)
    (agree : ∀ id, inside id → after.extensionsOf id = before.extensionsOf id)
    (closed : ∀ id, inside id → ∀ parent, before.Extends id parent → inside parent)
    (start : inside id)
    (methods : ∀ other, inside other ∨ other = ClassId.object →
      after.methodsOf? name other = before.methodsOf? name other) :
    after.Accounts id name known := by
  have root := methods ClassId.object (.inr rfl)
  apply accounts.transfer
  · exact freshOrder_congr inside agree closed start
  · intro other member
    have path := (mem_dropLast_freshOrder member).2
    exact methods other (.inl (path_congr inside (fun _ _ => rfl) closed start path).2)
  · rw [root]
    exact .refl _
  · intro path
    exact ⟨(path_congr inside agree closed start path).1, root⟩

theorem ChainsHold.push (hold : before.ChainsHold) (hierarchical : before.Hierarchical)
    {made : ClassDef δ μ} (classes : after.classes = before.classes.push made)
    (blank : ∀ name, made.chains.find? name = none) : after.ChainsHold := by
  have older : ∀ id, id ≠ before.size → after.get? id = before.get? id :=
    fun id different => (get?_push classes id).trans (if_neg different)
  intro id name known same
  have different : id ≠ before.size := by
    rintro rfl
    rw [chained?, get?_push classes, if_pos rfl, Option.bind_some, blank] at same
    cases same
  rw [chained?, older id different] at same
  obtain ⟨found, present, _⟩ := Option.bind_eq_some_iff.mp same
  apply (hold id name known same).transfer_inside (· < before.size)
  · intro id early
    unfold extensionsOf
    rw [older id (Nat.ne_of_lt early)]
  · exact fun id _ parent => hierarchical.known id parent
  · exact (Array.getElem?_eq_some_iff.mp present).1
  · intro other here
    have early : other < before.size := by
      rcases here with early | rfl
      · exact early
      · exact hierarchical.root
    unfold methodsOf?
    rw [older other (Nat.ne_of_lt early)]

theorem ChainsHold.grow (hold : space.ChainsHold) {added : List ClassId}
    (hierarchical : ((space.grown id added).invalidate id).Hierarchical) :
    ((space.grown id added).invalidate id).ChainsHold := by
  have refreshes := (space.grown id added).refreshes_invalidate id
  have registered : ∀ other parent, (space.grown id added).Registered parent other ↔
      (space.grown id added).Extends other parent := by
    intro other parent
    have fits := hierarchical.registered other parent
    unfold Registered at fits ⊢
    rwa [refreshes.extenders, refreshes.extends_eq] at fits
  have elsewhere : ∀ other, other ≠ id →
      ((space.grown id added).invalidate id).extensionsOf other = space.extensionsOf other := by
    intro other different
    rw [refreshes.extensions]
    unfold extensionsOf
    rw [get?_grown, if_neg (Ne.symm different)]
  have methods : ∀ name other, ((space.grown id added).invalidate id).methodsOf? name other =
      space.methodsOf? name other := by
    intro name other
    rw [methodsOf?_invalidate]
    unfold methodsOf?
    rw [get?_grown]
    split
    · cases space.get? other <;> rfl
    · rfl
  intro other name known same
  obtain ⟨kept, apart⟩ := chained?_invalidate same
  rw [reaches_children_iff registered, ← refreshes.extends_eq] at apart
  have old : space.chained? other name = some known := by
    rw [← kept]
    unfold chained?
    rw [get?_grown]
    split
    · cases space.get? other <;> rfl
    · rfl
  -- The classes that are not below the class have no new extension, nor have those above them.
  apply (hold other name known old).transfer_inside
    (¬ Relation.ReflTransGen ((space.grown id added).invalidate id).Extends · id)
  · intro other apart
    apply elsewhere
    rintro rfl
    exact apart .refl
  · intro other apart parent extension below
    have different : other ≠ id := by
      rintro rfl
      exact apart .refl
    have stays : ((space.grown id added).invalidate id).Extends other parent := by
      unfold Extends at extension ⊢
      rwa [elsewhere other different]
    exact apart (.head stays below)
  · exact apart
  · exact fun other _ => methods name other

theorem ChainsHold.extend (hold : space.ChainsHold) (hierarchical : space.Hierarchical)
    (id : ClassId) (parents : List ClassId) : (space.extend id parents).2.ChainsHold := by
  have extended := hierarchical.extend id parents
  unfold ClassSpace.extend at extended ⊢
  cases present : space.get? id with
  | none => exact hold
  | some found =>
      rw [present] at extended
      have keeps := space.keepsMethods_checkParents id found.extensions [] parents
      dsimp only at extended ⊢
      generalize space.checkParents id found.extensions [] parents = outcome at keeps extended
      obtain ⟨result, later⟩ := outcome
      have holdLater := keeps.chainsHold hold
      rcases result with problem | accepted
      · exact holdLater
      · rcases accepted with _ | ⟨first, more⟩
        · exact holdLater
        · apply (keepsMethods_record _ _).chainsHold
          apply holdLater.grow
          exact extended.refreshed ⟨rfl, fun _ => rfl, rfl, fun _ _ => .inl⟩

theorem ChainsHold.define (hold : space.ChainsHold) (hierarchical : space.Hierarchical)
    (name : String) (parents : List ClassId) (slots : List (String × δ)) :
    (space.define name parents slots).2.ChainsHold := by
  have pushed : ∀ (made : ClassDef δ μ) (byName : Assoc String ClassId), made.extensions = [] →
      made.order? = none → (∀ name, made.chains.find? name = none) →
      { space with classes := space.classes.push made, byName }.Hierarchical ∧
        { space with classes := space.classes.push made, byName }.ChainsHold := by
    intro made byName alone blank unchained
    constructor
    · apply hierarchical.push rfl _ blank
      · simp [alone, Registered]
      · simp [alone]
    · exact hold.push hierarchical rfl unchained
  unfold ClassSpace.define
  dsimp only
  obtain ⟨pushedHierarchical, pushedHold⟩ :=
    pushed { name, version := space.nextVersion name, slots := slots.map fun slot =>
      { name := slot.1, owner := space.size, default := slot.2 } }
      (space.byName.insert name space.size) rfl rfl (fun _ => rfl)
  have extendedHold := pushedHold.extend pushedHierarchical space.size parents
  split
  · next problem later same =>
      rw [same] at extendedHold
      exact extendedHold
  · next later same =>
      rw [same] at extendedHold
      exact (keepsMethods_record _ _).chainsHold extendedHold

theorem ChainsHold.customize (hold : space.ChainsHold) (hierarchical : space.Hierarchical)
    (membership : Membership) : (space.customize membership).2.2.ChainsHold := by
  unfold ClassSpace.customize
  split
  · exact hold
  · exact hold.push hierarchical rfl fun _ => rfl

theorem chainsHold_new : ({} : ClassSpace δ μ).ChainsHold := by
  intro id name known same
  unfold chained? get? at same
  cases id <;> simp [Assoc.find?, Assoc.findIn] at same

theorem Reachable.chainsHold (reachable : space.Reachable) : space.ChainsHold := by
  induction reachable with
  | new => exact chainsHold_new
  | define reachable name parents slots hold =>
      exact hold.define reachable.hierarchical name parents slots
  | extend reachable id parents hold => exact hold.extend reachable.hierarchical id parents
  | customize reachable membership _ hold => exact hold.customize reachable.hierarchical membership
  | addSlot _ id name default hold =>
      exact (keepsMethods_addSlot _ id name default).chainsHold hold
  | removeSlot _ id name hold => exact (keepsMethods_removeSlot _ id name).chainsHold hold
  | addBehavior reachable id name qualifier method hold =>
      exact hold.addBehavior reachable.hierarchical id name qualifier method
  | linearization _ id hold => exact (keepsMethods_linearization _ id).chainsHold hold
  | chain reachable id name hold =>
      exact (reachable.hierarchical.keepsMethods_chain id name).chainsHold hold

/-- A class that was asked for a behavior before the root class got a method for it. -/
private def outdated : ClassSpace Unit Unit :=
  let shape := (({} : ClassSpace Unit Unit).define "shape" [] []).2
  let asked := (shape.chain 1 "area").2.2
  asked.addBehavior ClassId.object "area" .primary ()

private theorem outdated_reachable : outdated.Reachable :=
  ((Reachable.new.define "shape" [] []).chain 1 "area").addBehavior ClassId.object
    "area" .primary ()

end ClassSpace

end ObjectLisp
