import ObjectLisp.Proofs.Classes.Synthetic

/-!
# Refused changes of classes

A class space answers the same whether its classes remember their linearizations or
not.  So two spaces that differ only in the linearizations that are remembered
cannot be told apart, whatever is asked of them or done to them afterwards.

The parents of an extension are all checked before anything is written, and the
check does no more than ask for linearizations.  A refused extension is therefore
never noticed.  A definition declares its class before the parents are checked.  If
a parent is refused, the class stays, without parents, keeps the name, and nobody
is told of it.
-/

namespace ObjectLisp

universe u v

namespace ClassSpace

variable {δ : Type u} {μ : Type v} {space first second third : ClassSpace δ μ} {id : ClassId}

/-- A definition declares its class, and lets it extend others then. -/
theorem define_eq (space : ClassSpace δ μ) (name : String) (parents : List ClassId)
    (slots : List (String × δ)) :
    space.define name parents slots =
      match (space.declared name slots).extend space.size parents with
      | (.error problem, later) => (.error problem, later)
      | (.ok (), later) =>
          (.ok space.size, later.record (.defined space.size (space.nextVersion name))) :=
  rfl

/-- A class that was declared extends no class. -/
theorem extends_of_declared {name : String} {slots : List (String × δ)} {child parent : ClassId}
    (extension : (space.declared name slots).Extends child parent) :
    space.Extends child parent := by
  rcases (gains_push rfl child parent).mp extension with old | ⟨_, new⟩
  · exact old
  · cases new

/-! ## Spaces that differ in remembered linearizations -/

/-- Two spaces differ at most in the linearizations that their classes remember. -/
structure Alike (first second : ClassSpace δ μ) : Prop where
  size : second.size = first.size
  classes : ∀ id, ∃ order?, second.get? id =
    (first.get? id).map fun found => { found with order? := order? }
  byName : second.byName = first.byName
  extenders : second.extenders = first.extenders
  log : second.log = first.log

namespace Alike

theorem refl (space : ClassSpace δ μ) : space.Alike space where
  size := rfl
  classes id := by
    cases present : space.get? id with
    | none => exact ⟨none, rfl⟩
    | some found => exact ⟨found.order?, rfl⟩
  byName := rfl
  extenders := rfl
  log := rfl

theorem symm (alike : first.Alike second) : second.Alike first where
  size := alike.size.symm
  classes id := by
    obtain ⟨order?, same⟩ := alike.classes id
    rw [same]
    cases present : first.get? id with
    | none => exact ⟨none, rfl⟩
    | some found => exact ⟨found.order?, rfl⟩
  byName := alike.byName.symm
  extenders := alike.extenders.symm
  log := alike.log.symm

theorem trans (front : first.Alike second) (back : second.Alike third) : first.Alike third where
  size := back.size.trans front.size
  classes id := by
    obtain ⟨middle?, fromFirst⟩ := front.classes id
    obtain ⟨order?, fromSecond⟩ := back.classes id
    refine ⟨order?, ?_⟩
    rw [fromSecond, fromFirst, Option.map_map]
    rfl
  byName := back.byName.trans front.byName
  extenders := back.extenders.trans front.extenders
  log := back.log.trans front.log

/-! ### What is read of such spaces -/

theorem isNone_get? (alike : first.Alike second) (id : ClassId) :
    (second.get? id).isNone = (first.get? id).isNone := by
  obtain ⟨order?, same⟩ := alike.classes id
  rw [same, Option.isNone_map]

theorem nameOf (alike : first.Alike second) (id : ClassId) :
    second.nameOf id = first.nameOf id := by
  obtain ⟨order?, same⟩ := alike.classes id
  unfold ClassSpace.nameOf
  rw [same]
  cases first.get? id <;> rfl

theorem extensionsOf (alike : first.Alike second) (id : ClassId) :
    second.extensionsOf id = first.extensionsOf id := by
  obtain ⟨order?, same⟩ := alike.classes id
  unfold ClassSpace.extensionsOf
  rw [same]
  cases first.get? id <;> rfl

theorem slotsOf (alike : first.Alike second) (id : ClassId) :
    second.slotsOf id = first.slotsOf id := by
  obtain ⟨order?, same⟩ := alike.classes id
  unfold ClassSpace.slotsOf
  rw [same]
  cases first.get? id <;> rfl

theorem methodsOf? (alike : first.Alike second) (name : String) (id : ClassId) :
    second.methodsOf? name id = first.methodsOf? name id := by
  obtain ⟨order?, same⟩ := alike.classes id
  unfold ClassSpace.methodsOf?
  rw [same]
  cases first.get? id <;> rfl

theorem chained? (alike : first.Alike second) (id : ClassId) (name : String) :
    second.chained? id name = first.chained? id name := by
  obtain ⟨order?, same⟩ := alike.classes id
  unfold ClassSpace.chained?
  rw [same]
  cases first.get? id <;> rfl

theorem find? (alike : first.Alike second) (name : String) :
    second.find? name = first.find? name := by
  unfold ClassSpace.find?
  rw [alike.byName]

theorem nextVersion (alike : first.Alike second) (name : String) :
    second.nextVersion name = first.nextVersion name := by
  unfold ClassSpace.nextVersion
  rw [alike.find?]
  cases first.find? name with
  | none => rfl
  | some old =>
      obtain ⟨order?, same⟩ := alike.classes old
      dsimp only
      rw [same]
      cases first.get? old <;> rfl

theorem linearization_fst (alike : first.Alike second) (early : first.Hierarchical)
    (late : second.Hierarchical) (id : ClassId) :
    (second.linearization id).1 = (first.linearization id).1 := by
  rw [early.linearization_fst, late.linearization_fst]
  exact freshOrder_congr (fun _ => True) (fun id _ => alike.extensionsOf id)
    (fun _ _ _ _ => trivial) trivial

/-! ### What is written to such spaces -/

theorem record (alike : first.Alike second) (event : ClassEvent) :
    (first.record event).Alike (second.record event) where
  size := alike.size
  classes := alike.classes
  byName := alike.byName
  extenders := alike.extenders
  log := congrArg (event :: ·) alike.log

theorem register (alike : first.Alike second) (parent child : ClassId) :
    (first.register parent child).Alike (second.register parent child) where
  size := alike.size
  classes := alike.classes
  byName := alike.byName
  extenders := by
    unfold ClassSpace.register
    rw [alike.extenders]
  log := alike.log

/-- A change that does not look at what the class remembers. -/
theorem modify (alike : first.Alike second) (id : ClassId)
    {change : ClassDef δ μ → ClassDef δ μ}
    (blind : ∀ found order?, ∃ later?, change { found with order? := order? } =
      { change found with order? := later? }) :
    (first.modify id change).Alike (second.modify id change) where
  size := by
    unfold ClassSpace.size ClassSpace.modify
    rw [Array.size_modify, Array.size_modify]
    exact alike.size
  classes other := by
    obtain ⟨order?, same⟩ := alike.classes other
    rw [get?_modify, get?_modify]
    by_cases here : id = other
    · rw [if_pos here, if_pos here, same]
      cases first.get? other with
      | none => exact ⟨none, rfl⟩
      | some found =>
          obtain ⟨later?, changed⟩ := blind found order?
          exact ⟨later?, congrArg some changed⟩
    · rw [if_neg here, if_neg here]
      exact ⟨order?, same⟩
  byName := alike.byName
  extenders := alike.extenders
  log := alike.log

theorem push (alike : first.Alike second) (made : ClassDef δ μ)
    {names sameNames : Assoc String ClassId} (same : sameNames = names) :
    { first with classes := first.classes.push made, byName := names }.Alike
      { second with classes := second.classes.push made, byName := sameNames } where
  size := by
    unfold ClassSpace.size
    rw [Array.size_push, Array.size_push]
    exact congrArg (· + 1) alike.size
  classes id := by
    have early : { first with classes := first.classes.push made, byName := names }.get? id =
        if id = first.size then some made else first.get? id := get?_push rfl id
    have late : { second with classes := second.classes.push made, byName := sameNames }.get? id =
        if id = second.size then some made else second.get? id := get?_push rfl id
    rw [early, late, alike.size]
    split
    · exact ⟨made.order?, rfl⟩
    · exact alike.classes id
  byName := same
  extenders := alike.extenders
  log := alike.log

/-- A class gets further extensions. -/
theorem grown (alike : first.Alike second) (id : ClassId) (added : List ClassId) :
    (first.grown id added).Alike (second.grown id added) := by
  have registered : ∀ {first second : ClassSpace δ μ}, first.Alike second →
      (added.foldl (fun space parent => space.register parent id) first).Alike
        (added.foldl (fun space parent => space.register parent id) second) := by
    induction added with
    | nil => exact fun alike => alike
    | cons parent rest ih => exact fun alike => ih (alike.register parent id)
  exact registered (alike.modify id fun _ order? => ⟨order?, rfl⟩)

theorem foldl_forget (alike : first.Alike second) (ids : List ClassId) :
    (ids.foldl ClassSpace.forget first).Alike (ids.foldl ClassSpace.forget second) := by
  induction ids generalizing first second with
  | nil => exact alike
  | cons id rest ih =>
      apply ih
      exact (alike.modify id fun _ _ => ⟨none, rfl⟩).record _

theorem invalidate (alike : first.Alike second) (id : ClassId) :
    (first.invalidate id).Alike (second.invalidate id) := by
  have children : second.children = first.children := by
    funext id
    unfold ClassSpace.children
    rw [alike.extenders]
  unfold ClassSpace.invalidate ClassSpace.extenderCount
  rw [children, alike.extenders]
  exact alike.foldl_forget _

/-- A question about a linearization changes only what is remembered. -/
theorem linearization_snd (space : ClassSpace δ μ) (id : ClassId) :
    space.Alike (space.linearization id).2 := by
  unfold ClassSpace.linearization
  split
  · exact .refl space
  · exact
      { size := Array.size_modify
        classes := by
          intro other
          rw [get?_modify]
          split
          · exact ⟨_, rfl⟩
          · exact (Alike.refl space).classes other
        byName := rfl
        extenders := rfl
        log := rfl }

theorem linearization (alike : first.Alike second) (id : ClassId) :
    (first.linearization id).2.Alike (second.linearization id).2 :=
  ((linearization_snd first id).symm.trans alike).trans (linearization_snd second id)

/-- Checking parents asks for linearizations only. -/
theorem checkParents_snd (space : ClassSpace δ μ) (id : ClassId)
    (existing added parents : List ClassId) :
    space.Alike (space.checkParents id existing added parents).2 :=
  checkParents_snd_of_linearization .refl .trans linearization_snd space id existing added parents

theorem checkParents_fst (alike : first.Alike second) (early : first.Hierarchical)
    (late : second.Hierarchical) (id : ClassId) (existing added parents : List ClassId) :
    (second.checkParents id existing added parents).1 =
      (first.checkParents id existing added parents).1 := by
  induction parents generalizing first second added with
  | nil => rfl
  | cons parent rest ih =>
      have asked := alike.linearization parent
      have order := alike.linearization_fst early late parent
      unfold ClassSpace.checkParents
      simp only [isSubclass, alike.isNone_get?, alike.nameOf, asked.nameOf, order]
      split
      · exact ih alike early late added
      · split
        · rfl
        · split
          · rfl
          · by_cases below : id ∈ (first.linearization parent).1
            · simp only [below]
              rfl
            · simp only [below]
              exact ih asked (early.linearization parent) (late.linearization parent) _

theorem extend (alike : first.Alike second) (early : first.Hierarchical)
    (late : second.Hierarchical) (id : ClassId) (parents : List ClassId) :
    (second.extend id parents).1 = (first.extend id parents).1 ∧
      (first.extend id parents).2.Alike (second.extend id parents).2 := by
  obtain ⟨order?, same⟩ := alike.classes id
  unfold ClassSpace.extend
  rw [same]
  cases first.get? id with
  | none => exact ⟨rfl, alike⟩
  | some found =>
      have answers := alike.checkParents_fst early late id found.extensions [] parents
      have checked : (first.checkParents id found.extensions [] parents).2.Alike
          (second.checkParents id found.extensions [] parents).2 :=
        ((checkParents_snd first _ _ _ _).symm.trans alike).trans (checkParents_snd second _ _ _ _)
      simp only [Option.map_some]
      generalize second.checkParents id found.extensions [] parents = late at answers checked
      generalize first.checkParents id found.extensions [] parents = early at answers checked
      obtain ⟨result, early⟩ := early
      obtain ⟨_, late⟩ := late
      cases answers
      rcases result with problem | accepted
      · exact ⟨rfl, checked⟩
      · rcases accepted with _ | ⟨parent, more⟩
        · exact ⟨rfl, checked⟩
        · exact ⟨rfl, ((checked.grown id _).invalidate id).record _⟩

theorem declared (alike : first.Alike second) (name : String) (slots : List (String × δ)) :
    (first.declared name slots).Alike (second.declared name slots) := by
  unfold ClassSpace.declared
  rw [alike.nextVersion, alike.size, alike.byName]
  exact alike.push _ rfl

theorem define (alike : first.Alike second) (early : first.Hierarchical)
    (late : second.Hierarchical) (name : String) (parents : List ClassId)
    (slots : List (String × δ)) :
    (second.define name parents slots).1 = (first.define name parents slots).1 ∧
      (first.define name parents slots).2.Alike (second.define name parents slots).2 := by
  have extended := (alike.declared name slots).extend (early.declared name slots)
    (late.declared name slots) first.size parents
  rw [define_eq, define_eq, alike.size, alike.nextVersion]
  generalize (second.declared name slots).extend first.size parents = late at extended
  generalize (first.declared name slots).extend first.size parents = early at extended
  obtain ⟨result, early⟩ := early
  obtain ⟨_, late⟩ := late
  obtain ⟨answers, extended⟩ := extended
  cases answers
  cases result with
  | error problem => exact ⟨rfl, extended⟩
  | ok _ => exact ⟨rfl, extended.record _⟩

theorem customize (alike : first.Alike second) (membership : Membership) :
    (second.customize membership).1 = (first.customize membership).1 ∧
      (second.customize membership).2.1 = (first.customize membership).2.1 ∧
      (first.customize membership).2.2.Alike (second.customize membership).2.2 := by
  unfold ClassSpace.customize
  split
  · exact ⟨rfl, rfl, alike⟩
  · dsimp only
    rw [alike.nameOf, alike.size]
    exact ⟨rfl, rfl, (alike.push _ alike.byName).register _ _⟩

theorem addSlot (alike : first.Alike second) (id : ClassId) (name : String) (default : δ) :
    (first.addSlot id name default).Alike (second.addSlot id name default) := by
  obtain ⟨order?, same⟩ := alike.classes id
  unfold ClassSpace.addSlot
  rw [same]
  cases first.get? id with
  | none => exact alike
  | some found => exact (alike.modify id fun _ order? => ⟨order?, rfl⟩).record _

theorem removeSlot (alike : first.Alike second) (id : ClassId) (name : String) :
    (second.removeSlot id name).1 = (first.removeSlot id name).1 ∧
      (first.removeSlot id name).2.Alike (second.removeSlot id name).2 := by
  obtain ⟨order?, same⟩ := alike.classes id
  unfold ClassSpace.removeSlot
  rw [same]
  cases first.get? id with
  | none => exact ⟨rfl, alike⟩
  | some found =>
      dsimp only [Option.map_some]
      split
      · exact ⟨rfl, (alike.modify id fun _ order? => ⟨order?, rfl⟩).record _⟩
      · exact ⟨rfl, alike⟩

theorem addBehavior (alike : first.Alike second) (id : ClassId) (name : String)
    (qualifier : Qualifier) (method : μ) :
    (first.addBehavior id name qualifier method).Alike
      (second.addBehavior id name qualifier method) := by
  obtain ⟨order?, same⟩ := alike.classes id
  unfold ClassSpace.addBehavior
  rw [same]
  cases first.get? id with
  | none => exact alike
  | some found =>
      exact ((alike.modify id fun _ order? => ⟨order?, rfl⟩).invalidate id).record _

/-! ### What is asked of such spaces -/

theorem chain (alike : first.Alike second) (early : first.Hierarchical)
    (late : second.Hierarchical) (id : ClassId) (name : String) :
    (second.chain id name).1 = (first.chain id name).1 ∧
      (second.chain id name).2.1 = (first.chain id name).2.1 ∧
      (first.chain id name).2.2.Alike (second.chain id name).2.2 := by
  have known := alike.chained? id name
  unfold ClassSpace.chained? at known
  unfold ClassSpace.chain
  rw [known]
  split
  · exact ⟨rfl, rfl, alike⟩
  · have asked := alike.linearization id
    have methods : (second.linearization id).2.methodsOf? name =
        (first.linearization id).2.methodsOf? name := funext (asked.methodsOf? name)
    dsimp only
    rw [methods, alike.linearization_fst early late]
    exact ⟨rfl, rfl, asked.modify id fun _ order? => ⟨order?, rfl⟩⟩

theorem sameAnswers (alike : first.Alike second) (early : first.Hierarchical)
    (late : second.Hierarchical) (id : ClassId) : first.SameAnswers second id := by
  have order := alike.linearization_fst early late id
  have slots : (second.linearization id).2.slotsOf = (first.linearization id).2.slotsOf :=
    funext (alike.linearization id).slotsOf
  refine ⟨order, ?_, ?_, fun name => (alike.chain early late id name).1⟩
  · intro name
    unfold ClassSpace.effectiveSlot?
    simp only [order, slots]
  · unfold ClassSpace.slotNames
    simp only [order, slots]

end Alike

/-! ## Sequences of operations -/

/-- An operation on a class space. -/
inductive Operation (δ : Type u) (μ : Type v) where
  | count
  | find (name : String)
  | describe (id : ClassId)
  | linearization (id : ClassId)
  | isSubclass (id ancestor : ClassId)
  | effectiveSlot (id : ClassId) (name : String)
  | slotNames (id : ClassId)
  | chain (id : ClassId) (name : String)
  | takeEvents
  | define (name : String) (parents : List ClassId) (slots : List (String × δ))
  | extend (id : ClassId) (parents : List ClassId)
  | invalidate (id : ClassId)
  | customize (membership : Membership)
  | addSlot (id : ClassId) (name : String) (default : δ)
  | removeSlot (id : ClassId) (name : String)
  | addBehavior (id : ClassId) (name : String) (qualifier : Qualifier) (method : μ)

/-- What an operation answers. -/
inductive Answer (δ : Type u) (μ : Type v) where
  | done
  | number (number : Nat)
  | class? (id? : Option ClassId)
  /-- A class, without what it remembers of its linearization. -/
  | described (class? : Option (ClassDef δ μ))
  | order (ids : List ClassId)
  | truth (truth : Bool)
  | slot? (slot? : Option (Slot δ))
  | names (names : List String)
  | chain? (chain? : Option (MethodChain μ)) (built : Bool)
  | events (events : List ClassEvent)
  | defined (result : Except ClassProblem ClassId)
  | extended (result : Except ClassProblem Unit)
  | customized (own : ClassId) (membership : Membership)

namespace Operation

/-- The answer to an operation and the space after it.  There are no instances of classes that do
not exist, so these are not customized. -/
def run (space : ClassSpace δ μ) : Operation δ μ → Answer δ μ × ClassSpace δ μ
  | count => (.number space.size, space)
  | find name => (.class? (space.find? name), space)
  | describe id => (.described ((space.get? id).map ({ · with order? := none })), space)
  | linearization id => (.order (space.linearization id).1, (space.linearization id).2)
  | isSubclass id ancestor =>
      (.truth (space.isSubclass id ancestor).1, (space.isSubclass id ancestor).2)
  | effectiveSlot id name =>
      (.slot? (space.effectiveSlot? id name).1, (space.effectiveSlot? id name).2)
  | slotNames id => (.names (space.slotNames id).1, (space.slotNames id).2)
  | chain id name =>
      (.chain? (space.chain id name).1 (space.chain id name).2.1, (space.chain id name).2.2)
  | takeEvents => (.events space.takeEvents.1, space.takeEvents.2)
  | define name parents slots =>
      (.defined (space.define name parents slots).1, (space.define name parents slots).2)
  | extend id parents => (.extended (space.extend id parents).1, (space.extend id parents).2)
  | invalidate id => (.done, space.invalidate id)
  | customize membership =>
      if membership.nominal < space.size then
        (.customized (space.customize membership).1 (space.customize membership).2.1,
          (space.customize membership).2.2)
      else (.done, space)
  | addSlot id name default => (.done, space.addSlot id name default)
  | removeSlot id name => (.truth (space.removeSlot id name).1, (space.removeSlot id name).2)
  | addBehavior id name qualifier method => (.done, space.addBehavior id name qualifier method)

/-- Perform operations one after the other. -/
def perform (space : ClassSpace δ μ) : List (Operation δ μ) → List (Answer δ μ) × ClassSpace δ μ
  | [] => ([], space)
  | operation :: rest =>
      let later := perform (operation.run space).2 rest
      ((operation.run space).1 :: later.1, later.2)

theorem hierarchical_run (hierarchical : space.Hierarchical) (operation : Operation δ μ) :
    (operation.run space).2.Hierarchical := by
  cases operation with
  | count => exact hierarchical
  | find name => exact hierarchical
  | describe id => exact hierarchical
  | linearization id => exact hierarchical.linearization id
  | isSubclass id ancestor => exact hierarchical.linearization id
  | effectiveSlot id name => exact hierarchical.linearization id
  | slotNames id => exact hierarchical.linearization id
  | chain id name => exact hierarchical.chain id name
  | takeEvents => exact hierarchical.refreshed ⟨rfl, fun _ => rfl, rfl, fun _ _ => .inl⟩
  | define name parents slots => exact hierarchical.define name parents slots
  | extend id parents => exact hierarchical.extend id parents
  | invalidate id => exact hierarchical.refreshed (space.refreshes_invalidate id)
  | customize membership =>
      dsimp only [run]
      split
      · next inside => exact hierarchical.customize inside
      · exact hierarchical
  | addSlot id name default => exact hierarchical.addSlot id name default
  | removeSlot id name => exact hierarchical.removeSlot id name
  | addBehavior id name qualifier method => exact hierarchical.addBehavior id name qualifier method

theorem hierarchical_perform (hierarchical : space.Hierarchical)
    (operations : List (Operation δ μ)) : (perform space operations).2.Hierarchical := by
  induction operations generalizing space with
  | nil => exact hierarchical
  | cons operation rest ih => exact ih (hierarchical_run hierarchical operation)

/-- No operation tells spaces apart that differ only in remembered linearizations. -/
theorem alike_run (alike : first.Alike second) (early : first.Hierarchical)
    (late : second.Hierarchical) (operation : Operation δ μ) :
    (operation.run second).1 = (operation.run first).1 ∧
      (operation.run first).2.Alike (operation.run second).2 := by
  have answers := alike.sameAnswers early late
  cases operation with
  | count => exact ⟨congrArg Answer.number alike.size, alike⟩
  | find name => exact ⟨congrArg Answer.class? (alike.find? name), alike⟩
  | describe id =>
      obtain ⟨order?, same⟩ := alike.classes id
      dsimp only [run]
      rw [same, Option.map_map]
      exact ⟨rfl, alike⟩
  | linearization id =>
      exact ⟨congrArg Answer.order (answers id).linearization, alike.linearization id⟩
  | isSubclass id ancestor =>
      have order := (answers id).linearization
      simp only [run, ClassSpace.isSubclass, order]
      exact ⟨trivial, alike.linearization id⟩
  | effectiveSlot id name =>
      exact ⟨congrArg Answer.slot? ((answers id).effectiveSlot name), alike.linearization id⟩
  | slotNames id => exact ⟨congrArg Answer.names (answers id).slotNames, alike.linearization id⟩
  | chain id name =>
      obtain ⟨sameChain, sameFlag, later⟩ := alike.chain early late id name
      exact ⟨congrArg₂ Answer.chain? sameChain sameFlag, later⟩
  | takeEvents =>
      constructor
      · exact congrArg (fun log => Answer.events log.reverse) alike.log
      · exact ⟨alike.size, alike.classes, alike.byName, alike.extenders, rfl⟩
  | define name parents slots =>
      obtain ⟨sameResult, later⟩ := alike.define early late name parents slots
      exact ⟨congrArg Answer.defined sameResult, later⟩
  | extend id parents =>
      obtain ⟨sameResult, later⟩ := alike.extend early late id parents
      exact ⟨congrArg Answer.extended sameResult, later⟩
  | invalidate id => exact ⟨rfl, alike.invalidate id⟩
  | customize membership =>
      obtain ⟨sameClass, sameMembership, later⟩ := alike.customize membership
      dsimp only [run]
      rw [alike.size]
      split
      · exact ⟨congrArg₂ Answer.customized sameClass sameMembership, later⟩
      · exact ⟨rfl, alike⟩
  | addSlot id name default => exact ⟨rfl, alike.addSlot id name default⟩
  | removeSlot id name =>
      obtain ⟨sameResult, later⟩ := alike.removeSlot id name
      exact ⟨congrArg Answer.truth sameResult, later⟩
  | addBehavior id name qualifier method =>
      exact ⟨rfl, alike.addBehavior id name qualifier method⟩

theorem alike_perform (alike : first.Alike second) (early : first.Hierarchical)
    (late : second.Hierarchical) (operations : List (Operation δ μ)) :
    (perform second operations).1 = (perform first operations).1 := by
  induction operations generalizing first second with
  | nil => rfl
  | cons operation rest ih =>
      obtain ⟨sameAnswer, later⟩ := alike_run alike early late operation
      have sameRest := ih later (hierarchical_run early operation) (hierarchical_run late operation)
      exact congrArg₂ List.cons sameAnswer sameRest

end Operation

/-! ## Refused operations -/

/-- A parent is refused if there is no such class or if it is below the class. -/
theorem refused_of_checkParents (hierarchical : space.Hierarchical) {existing added : List ClassId}
    {parents : List ClassId} {problem : ClassProblem}
    (refused : (space.checkParents id existing added parents).1 = .error problem) :
    ∃ parent ∈ parents, space.size ≤ parent ∨ id ∈ space.freshOrder parent := by
  induction parents generalizing space added with
  | nil => cases refused
  | cons parent rest ih =>
      unfold checkParents at refused
      split at refused
      · obtain ⟨culprit, member, reason⟩ := ih hierarchical refused
        exact ⟨culprit, List.mem_cons_of_mem parent member, reason⟩
      · split at refused
        · next absent =>
            have outside : space.size ≤ parent :=
              Array.getElem?_eq_none_iff.mp (Option.isNone_iff_eq_none.mp absent)
            exact ⟨parent, List.mem_cons_self, .inl outside⟩
        · split at refused
          · next self =>
              have reached : id ∈ space.freshOrder parent :=
                (mem_freshOrder_iff hierarchical.top).mpr (.inr (self ▸ .refl))
              exact ⟨parent, List.mem_cons_self, .inr reached⟩
          · by_cases below : id ∈ space.freshOrder parent
            · exact ⟨parent, List.mem_cons_self, .inr below⟩
            · simp only [isSubclass, hierarchical.linearization_fst, below] at refused
              have refreshes := space.refreshes_linearization parent
              obtain ⟨culprit, member, reason⟩ := ih (hierarchical.linearization parent) refused
              rw [refreshes.size, refreshes.freshOrder_eq] at reason
              exact ⟨culprit, List.mem_cons_of_mem parent member, reason⟩

/-- A refused extension has asked for linearizations and done nothing else. -/
theorem alike_of_extend {parents : List ClassId} {problem : ClassProblem}
    (refused : (space.extend id parents).1 = .error problem) :
    space.Alike (space.extend id parents).2 := by
  unfold extend at refused ⊢
  cases present : space.get? id with
  | none => exact .refl space
  | some found =>
      have checked := Alike.checkParents_snd space id found.extensions [] parents
      rw [present] at refused
      dsimp only at refused ⊢
      generalize space.checkParents id found.extensions [] parents = outcome at refused checked
      obtain ⟨result, later⟩ := outcome
      rcases result with problem | accepted
      · exact checked
      · rcases accepted with _ | ⟨parent, more⟩ <;> cases refused

/-- An extension is refused if there is no such class, or because of a parent. -/
theorem refused_of_extend (hierarchical : space.Hierarchical) {parents : List ClassId}
    {problem : ClassProblem} (refused : (space.extend id parents).1 = .error problem) :
    space.size ≤ id ∨ ∃ parent ∈ parents, space.size ≤ parent ∨ id ∈ space.freshOrder parent := by
  unfold extend at refused
  cases present : space.get? id with
  | none => exact .inl (Array.getElem?_eq_none_iff.mp present)
  | some found =>
      rw [present] at refused
      dsimp only at refused
      split at refused
      · next problem later checked =>
          exact .inr (refused_of_checkParents hierarchical (congrArg Prod.fst checked))
      · cases refused
      · cases refused

/-- A definition is refused only if it names a class that is not there yet. -/
theorem outside_of_declared (hierarchical : space.Hierarchical) {name : String}
    {parents : List ClassId} {slots : List (String × δ)} {problem : ClassProblem}
    (refused : ((space.declared name slots).extend space.size parents).1 = .error problem) :
    ∃ parent ∈ parents, space.size ≤ parent := by
  have declared := hierarchical.declared name slots
  have size : (space.declared name slots).size = space.size + 1 := Array.size_push _
  rcases refused_of_extend declared refused with outside | ⟨parent, member, outside | below⟩
  · rw [size] at outside
    exact absurd outside (Nat.not_succ_le_self _)
  · rw [size] at outside
    exact ⟨parent, member, Nat.le_of_succ_le outside⟩
  · -- No class extends the new one, so only the new one itself is below it.
    refine ⟨parent, member, ?_⟩
    rw [mem_freshOrder_iff declared.top] at below
    rcases below with root | path
    · exact absurd root.symm (Nat.ne_of_lt hierarchical.root)
    · rcases Relation.ReflTransGen.cases_tail path with self | ⟨middle, _, extension⟩
      · exact Nat.le_of_eq self
      · have early := hierarchical.known middle _ (extends_of_declared extension)
        exact absurd early (Nat.lt_irrefl _)

/-- A refused definition has declared its class, which is not extended then. -/
theorem refused_of_define {name : String} {parents : List ClassId} {slots : List (String × δ)}
    {problem : ClassProblem} {after : ClassSpace δ μ}
    (refused : space.define name parents slots = (.error problem, after)) :
    (space.declared name slots).extend space.size parents = (.error problem, after) := by
  rw [define_eq] at refused
  split at refused
  · next problem later same =>
      cases refused
      exact same
  · cases refused

/-- Classes that are there answer as before when another one is declared. -/
theorem sameAnswers_declared (hierarchical : space.Hierarchical) (name : String)
    (slots : List (String × δ)) (early : id < space.size) :
    space.SameAnswers (space.declared name slots) id := by
  have same : space.SameButOne (space.declared name slots) space.size :=
    fun other different => (get?_push rfl other).trans (if_neg different)
  apply same.sameAnswers_of_alone hierarchical (hierarchical.declared name slots)
  · intro child extension
    exact Nat.lt_irrefl _ (hierarchical.known child _ extension)
  · exact (Nat.ne_of_lt hierarchical.root).symm
  · exact Nat.ne_of_lt early

/-- The space is what operations have made of the new one. -/
def Attained (space : ClassSpace δ μ) : Prop :=
  ∃ history, (Operation.perform {} history).2 = space

theorem Attained.hierarchical (attained : space.Attained) : space.Hierarchical := by
  obtain ⟨history, rfl⟩ := attained
  exact Operation.hierarchical_perform hierarchical_new history

/-- A refused extension leaves a space that differs from the one before in remembered
linearizations only, and that no later operations tell from it.

A refused definition has named a class that does not exist.  It logs no event, it changes no other
name and no class that was there, and these classes answer as before.  But it leaves the class it
was to define: later operations answer as if that class had been declared without parents. -/
theorem Attained.refused_changes_unnoticed (attained : space.Attained) {problem : ClassProblem}
    {after : ClassSpace δ μ} :
    (∀ id parents, space.extend id parents = (.error problem, after) →
      space.Alike after ∧
      ∀ later, (Operation.perform after later).1 = (Operation.perform space later).1) ∧
    (∀ name parents slots, space.define name parents slots = (.error problem, after) →
      (∃ parent ∈ parents, space.size ≤ parent) ∧
      after.log = space.log ∧
      (∀ other, other ≠ name → after.find? other = space.find? other) ∧
      (∀ id, id < space.size → space.SameAnswers after id ∧
        ∃ order?, after.get? id = (space.get? id).map ({ · with order? := order? })) ∧
      (space.declared name slots).Alike after ∧
      ∀ later, (Operation.perform after later).1 =
        (Operation.perform (space.declared name slots) later).1) := by
  have hierarchical := attained.hierarchical
  constructor
  · intro id parents refused
    have alike := alike_of_extend (congrArg Prod.fst refused)
    have extended := hierarchical.extend id parents
    rw [refused] at alike extended
    exact ⟨alike, Operation.alike_perform alike hierarchical extended⟩
  · intro name parents slots refused
    have unextended := refused_of_define refused
    have declared := hierarchical.declared name slots
    have alike := alike_of_extend (congrArg Prod.fst unextended)
    have extended := declared.extend space.size parents
    rw [unextended] at alike extended
    refine ⟨outside_of_declared hierarchical (congrArg Prod.fst unextended), alike.log, ?_, ?_,
      alike, Operation.alike_perform alike declared extended⟩
    · intro other different
      rw [alike.find?]
      exact (space.byName.find?_insert name other space.size).trans (if_neg (Ne.symm different))
    · intro id early
      constructor
      · exact (sameAnswers_declared hierarchical name slots early).trans
          (alike.sameAnswers declared extended id)
      · have kept : (space.declared name slots).get? id = space.get? id :=
          (get?_push rfl id).trans (if_neg (Nat.ne_of_lt early))
        rw [← kept]
        exact alike.classes id

/-- `shape` and `disc`, which extends it. -/
private def shapes : ClassSpace Unit Unit :=
  (Operation.perform {} [.define "shape" [] [], .define "disc" [1] []]).2

private theorem shapes_attained : shapes.Attained := ⟨_, rfl⟩

private theorem shapes_refuse_circle :
    shapes.extend 1 [2] = (.error (.circular "shape" "disc"), (shapes.extend 1 [2]).2) :=
  Prod.ext rfl rfl

private theorem shapes_refuse_unknown :
    shapes.define "shape" [1, 7] [] = (.error (.unknown 7), (shapes.define "shape" [1, 7] []).2) :=
  Prod.ext rfl rfl

/-- A refused circle is not noticed.  A refused definition with a parent that exists and one that
does not is noticed as a class without parents. -/
theorem Attained.refused_changes_unnoticed_of_shapes :
    shapes.Attained ∧
    (∀ later, (Operation.perform (shapes.extend 1 [2]).2 later).1 =
      (Operation.perform shapes later).1) ∧
    (∀ later, (Operation.perform (shapes.define "shape" [1, 7] []).2 later).1 =
      (Operation.perform (shapes.declared "shape" []) later).1) :=
  ⟨shapes_attained,
    (shapes_attained.refused_changes_unnoticed.1 1 [2] shapes_refuse_circle).2,
    (shapes_attained.refused_changes_unnoticed.2 "shape" [1, 7] []
      shapes_refuse_unknown).2.2.2.2.2⟩

/-- A refused definition takes the name from the class that had it. -/
theorem Attained.name_taken_by_refused_definition :
    ∃ space : ClassSpace Unit Unit, space.Attained ∧
      (space.define "shape" [1, 7] []).1 = .error (.unknown 7) ∧
      space.find? "shape" = some 1 ∧ space.size = 3 ∧
      (space.define "shape" [1, 7] []).2.find? "shape" = some 3 ∧
      (space.define "shape" [1, 7] []).2.size = 4 :=
  ⟨shapes, shapes_attained, rfl, by decide +kernel, by decide +kernel, by decide +kernel,
    by decide +kernel⟩

end ClassSpace

end ObjectLisp
