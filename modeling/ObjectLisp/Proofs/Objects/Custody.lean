import ObjectLisp.Proofs.Evaluation.Gains

/-!
# Classes in custody

A class that was made for a single instance is a class like any other, with a
number of its own.  A program that could name it could extend it or make instances
of it.

No program can.  The classes that values name were defined, in every state that
evaluation comes to: those in variables, slots, vectors, code and methods, and
those that functions give.  So only such classes are extended and instantiated,
and every instance that has a class of its own has one that no other instance has.
-/

namespace ObjectLisp

/-! ## Values that name defined classes -/

/-- All classes in the value were defined. -/
def Value.Ordinary (classes : ClassSpace SlotDefault Value) : Value → Prop
  | .cons _ car cdr => car.Ordinary classes ∧ cdr.Ordinary classes
  | .class_ id => classes.Ordinary id
  | _ => True

theorem Value.ordinary_of_isAtom {classes : ClassSpace SlotDefault Value} {value : Value}
    (atom : value.isAtom = true) : value.Ordinary classes := by
  cases value with
  | cons => cases atom
  | class_ => cases atom
  | symbol => cases atom
  | _ => exact trivial

theorem Value.Ordinary.mono {before after : ClassSpace SlotDefault Value} {value : Value}
    (ordinary : value.Ordinary before) (kept : ∀ id, before.Ordinary id → after.Ordinary id) :
    value.Ordinary after := by
  induction value with
  | cons id car cdr carKept cdrKept => exact ⟨carKept ordinary.1, cdrKept ordinary.2⟩
  | class_ id => exact kept id ordinary
  | _ => exact trivial

/-! ## Classes of instances -/

namespace Heap

/-- The classes of an instance. -/
def membership? (heap : Heap) (index : Nat) : Option Membership :=
  (heap.objects[index]?).map (·.membership)

/-- The class that was made for an instance alone. -/
def ownClass? (heap : Heap) (index : Nat) : Option ClassId :=
  (heap.membership? index).bind (·.own?)

/-- Instances were made from classes that were defined, and no two have the same class made for
them. -/
structure Classified (heap : Heap) (classes : ClassSpace SlotDefault Value) : Prop where
  nominal : ∀ index membership, heap.membership? index = some membership →
    classes.Ordinary membership.nominal
  own : ∀ index own, heap.ownClass? index = some own → classes.Synthetic own
  distinct : ∀ index other own, heap.ownClass? index = some own → heap.ownClass? other = some own →
    index = other

theorem Classified.of_same {heap later : Heap} {before after : ClassSpace SlotDefault Value}
    (classified : heap.Classified before) (members : later.membership? = heap.membership?)
    (kinds : ∀ id kind, before.synthetic? id = some kind → after.synthetic? id = some kind) :
    later.Classified after := by
  have own : later.ownClass? = heap.ownClass? := by
    unfold ownClass?
    rw [members]
  constructor
  · intro index membership found
    rw [members] at found
    exact kinds _ _ (classified.nominal index membership found)
  · intro index own' found
    rw [own] at found
    exact kinds _ _ (classified.own index own' found)
  · rw [own]
    exact classified.distinct

/-- A new instance may be made from a class that was defined. -/
theorem Classified.newObject {heap : Heap} {classes : ClassSpace SlotDefault Value}
    (classified : heap.Classified classes) (object : Instance)
    (nominal : classes.Ordinary object.membership.nominal) (plain : object.membership.own? = none) :
    (heap.newObject object).2.Classified classes := by
  have members : ∀ index, (heap.newObject object).2.membership? index =
      if index = heap.objects.size then some object.membership else heap.membership? index := by
    intro index
    unfold membership? Heap.newObject
    dsimp only
    rw [Array.getElem?_push]
    split <;> rfl
  have own : (heap.newObject object).2.ownClass? = heap.ownClass? := by
    funext index
    unfold ownClass?
    rw [members]
    split
    · next last =>
        have absent : heap.membership? index = none := by
          unfold membership?
          rw [last, Array.getElem?_eq_none (Nat.le_refl _)]
          rfl
        rw [absent]
        exact plain
    · rfl
  constructor
  · intro index membership found
    rw [members] at found
    split at found
    · cases found
      exact nominal
    · exact classified.nominal index membership found
  · rw [own]
    exact classified.own
  · rw [own]
    exact classified.distinct

end Heap

/-! ## Custody -/

/-- Only classes that were defined are extended, instantiated or named by values. -/
structure Interp.Custody (interp : Interp) : Prop where
  guarded : interp.classes.Guarded
  classified : interp.heap.Classified interp.classes
  held : ∀ value, interp.Holds value → value.Ordinary interp.classes

/-- Values that are handed around name classes that were defined. -/
def Regime.custody : Regime where
  Good := Interp.Custody
  Effect before after := ∀ id, before.classes.Ordinary id → after.classes.Ordinary id
  Fit interp value := value.Ordinary interp.classes
  Ready expr _ interp := ∀ value, expr.Bears value → value.Ordinary interp.classes
  Body expr _ _ interp := ∀ value, expr.Bears value → value.Ordinary interp.classes
  Writable _ := True
  Stops _ stop stop' := stop' = stop

theorem Regime.custody_exact : Regime.custody.Exact := fun _ _ _ => Iff.rfl

theorem Regime.custody_open : Regime.custody.Open := fun _ _ _ => trivial

/-! ### Classes -/

namespace ClassSpace

variable {space : ClassSpace SlotDefault Value} {id : ClassId}

theorem refreshes_addBehavior (space : ClassSpace SlotDefault Value) (id : ClassId)
    (name : String) (qualifier : Qualifier) (method : Value) :
    space.Refreshes (space.addBehavior id name qualifier method) := by
  unfold addBehavior
  split
  · exact .refl space
  · exact ((space.refreshes_equipped id name _).trans (refreshes_invalidate _ id)).trans
      (refreshes_record _ _)

theorem Guarded.extendOrdinary (guarded : space.Guarded) (id : ClassId) {parents : List ClassId}
    (ordinary : ∀ parent ∈ parents, space.Ordinary parent) :
    (space.extend id parents).2.Guarded := by
  have retains : Retains (fun _ => False) space (space.extend id parents).2 :=
    .extend space id parents
  exact guarded.extend ordinary retains.kinds

theorem Guarded.define (guarded : space.Guarded) (name : String) {parents : List ClassId}
    (slots : List (String × SlotDefault)) (ordinary : ∀ parent ∈ parents, space.Ordinary parent) :
    (space.define name parents slots).2.Guarded := by
  have extended := (guarded.declared name slots).extendOrdinary space.size
    fun parent member => synthetic?_push_of_some rfl (ordinary parent member)
  rcases space.define_snd name parents slots with same | ⟨event, same⟩
  · rw [same]
    exact extended
  · rw [same]
    exact extended.refreshed (refreshes_record _ event) fun _ => rfl

theorem synthetic?_define (space : ClassSpace SlotDefault Value) (name : String)
    (parents : List ClassId) (slots : List (String × SlotDefault)) (id : ClassId) :
    (space.define name parents slots).2.synthetic? id =
      if id = space.size then some false else space.synthetic? id := by
  have retains : Retains (fun _ => False) (space.declared name slots) _ :=
    .define space name parents slots
  have declared : (space.declared name slots).synthetic? id = _ := synthetic?_push rfl id
  rw [retains.kinds, declared]

/-- The class of an instance is the one that it had, or a new one. -/
theorem own_customize (space : ClassSpace SlotDefault Value) (membership : Membership) :
    membership.own? = some (space.customize membership).1 ∨
      membership.own? = none ∧ (space.customize membership).1 = space.size := by
  unfold customize
  split
  · next known => exact .inl known
  · next unknown => exact .inr ⟨unknown, rfl⟩

/-- An instance gets a class and stays what it is. -/
theorem membership_customize (space : ClassSpace SlotDefault Value) (membership : Membership) :
    (space.customize membership).2.1 =
      { membership with own? := some (space.customize membership).1 } := by
  obtain ⟨nominal, own?⟩ := membership
  cases own? <;> rfl

/-- The class that an instance gets was made for it, and so was the one that it had. -/
theorem synthetic_customize {membership : Membership}
    (own : ∀ own, membership.own? = some own → space.Synthetic own) :
    (space.customize membership).2.2.Synthetic (space.customize membership).1 := by
  unfold customize
  split
  · next known => exact own _ known
  · exact (synthetic?_push rfl _).trans (if_pos rfl)

theorem synthetic?_customize {membership : Membership} {kind : Bool}
    (known : space.synthetic? id = some kind) :
    (space.customize membership).2.2.synthetic? id = some kind := by
  unfold customize
  split
  · exact known
  · exact synthetic?_push_of_some rfl known

end ClassSpace

/-! ### Moves -/

namespace Interp

variable {before after interp : Interp}

/-- A state with the same classes and memberships is in custody if what it holds is. -/
theorem Custody.of_same (custody : before.Custody) (classes : after.classes = before.classes)
    (members : after.heap.membership? = before.heap.membership?)
    (held : ∀ value, after.Holds value →
      before.Holds value ∨ value.Ordinary before.classes) : after.Custody := by
  constructor
  · rw [classes]
    exact custody.guarded
  · rw [classes]
    exact custody.classified.of_same members fun _ _ => id
  · intro value holds
    rw [classes]
    exact (held value holds).elim (custody.held value) id

/-- What a move adds to a state names classes that were defined. -/
theorem holds_of_move {value : Value} (move : Regime.custody.Move before after)
    (holds : after.Holds value) : before.Holds value ∨ value.Ordinary before.classes := by
  have bearing : ∀ {expr env} {interp : Interp} {value}, Regime.custody.Ready expr env interp →
      expr.Bears value → Regime.custody.Fit interp value := fun ready bears => ready _ bears
  exact move.holds bearing holds

/-- A move that leaves classes and memberships alone is a step. -/
theorem Custody.step_of_same (custody : before.Custody) (move : Regime.custody.Move before after)
    (classes : after.classes = before.classes)
    (members : after.heap.membership? = before.heap.membership?) :
    Regime.custody.Step before after := by
  refine ⟨custody.of_same classes members fun value => holds_of_move move, ?_⟩
  intro id ordinary
  rwa [classes]

/-- A move after which the classes and the memberships are in order is a step. -/
theorem Custody.step (custody : before.Custody) (move : Regime.custody.Move before after)
    (guarded : after.classes.Guarded)
    (kinds : ∀ id kind, before.classes.synthetic? id = some kind →
      after.classes.synthetic? id = some kind)
    (classified : after.heap.Classified after.classes) : Regime.custody.Step before after := by
  have kept : ∀ id, before.classes.Ordinary id → after.classes.Ordinary id :=
    fun id => kinds id false
  refine ⟨⟨guarded, classified, ?_⟩, kept⟩
  intro value holds
  rcases holds_of_move move holds with old | new
  · exact (custody.held value old).mono kept
  · exact new.mono kept

/-- A move that changes classes, but not their kinds, is a step. -/
theorem Custody.step_of_retains {classes : ClassSpace SlotDefault Value}
    (custody : before.Custody) (move : Regime.custody.Move before { before with classes })
    (retains : before.classes.Retains (Regime.custody.Fit before) classes)
    (guarded : classes.Guarded) :
    Regime.custody.Step before { before with classes } := by
  have kinds : ∀ id kind, before.classes.synthetic? id = some kind →
      classes.synthetic? id = some kind := fun id kind known => (retains.kinds id).trans known
  exact custody.step move guarded kinds (custody.classified.of_same rfl kinds)

/-- A move that changes no extension either. -/
theorem Custody.step_of_refreshes {classes : ClassSpace SlotDefault Value}
    (custody : before.Custody) (move : Regime.custody.Move before { before with classes })
    (retains : before.classes.Retains (Regime.custody.Fit before) classes)
    (refreshes : before.classes.Refreshes classes) :
    Regime.custody.Step before { before with classes } :=
  custody.step_of_retains move retains (custody.guarded.refreshed refreshes retains.kinds)

theorem membership?_modify (heap : Heap) (index : Nat) (change : Instance → Instance)
    (other : Nat) :
    Heap.membership? { heap with objects := heap.objects.modify index change } other =
      if index = other then (heap.objects[other]?).map fun object => (change object).membership
      else heap.membership? other := by
  unfold Heap.membership?
  dsimp only
  rw [Array.getElem?_modify]
  split
  · rw [Option.map_map]
    rfl
  · rfl

theorem customized_eq {index : Nat} {membership : Membership}
    (found : interp.heap.membership? index = some membership) :
    interp.customized index = interp.classes.customize membership := by
  obtain ⟨object, present, rfl⟩ := Option.map_eq_some_iff.mp found
  unfold customized
  rw [Array.getD_eq_getD_getElem?, present]
  rfl

/-- Only the instance that gets a class of its own belongs to other classes than before. -/
theorem membership?_customizing (interp : Interp) (index other : Nat) :
    (interp.customizing index).heap.membership? other =
      if index = other then
        (interp.heap.membership? other).map ({ · with own? := some (interp.customized index).1 })
      else interp.heap.membership? other := by
  refine (membership?_modify _ index _ other).trans ?_
  split
  · next here =>
      subst here
      cases found : interp.heap.membership? index with
      | none =>
          rw [Option.map_eq_none_iff.mp found]
          rfl
      | some membership =>
          obtain ⟨object, present, _⟩ := Option.map_eq_some_iff.mp found
          rw [present, customized_eq found, ClassSpace.membership_customize]
          rfl
  · rfl

theorem Custody.ordinary_nominal (custody : interp.Custody) (index : Nat) :
    interp.classes.Ordinary (interp.heap.objects.getD index default).membership.nominal := by
  rw [Array.getD_eq_getD_getElem?]
  cases found : interp.heap.objects[index]? with
  | none => exact custody.guarded.ordinary_root
  | some object =>
      apply custody.classified.nominal index
      unfold Heap.membership?
      rw [found]
      rfl

theorem ownClass?_customizing (interp : Interp) (index other : Nat) :
    (interp.customizing index).heap.ownClass? other =
      if index = other then
        (interp.heap.membership? other).map fun _ => (interp.customized index).1
      else interp.heap.ownClass? other := by
  unfold Heap.ownClass?
  rw [membership?_customizing]
  split
  · cases interp.heap.membership? other <;> rfl
  · rfl

/-- The class that an instance gets is no other instance's. -/
theorem Custody.ownClass_ne (custody : interp.Custody) {index other : Nat} {membership : Membership}
    (found : interp.heap.membership? index = some membership) (different : index ≠ other) :
    interp.heap.ownClass? other ≠ some (interp.classes.customize membership).1 := by
  intro same
  rcases interp.classes.own_customize membership with old | ⟨_, new⟩
  · have own : interp.heap.ownClass? index = some (interp.classes.customize membership).1 := by
      unfold Heap.ownClass?
      rw [found]
      exact old
    exact different (custody.classified.distinct index other _ own same)
  · have inside := ClassSpace.lt_size_of_synthetic? (custody.classified.own other _ same)
    exact absurd new (Nat.ne_of_lt inside)

/-- After an instance got a class of its own, the instances are in order. -/
theorem Custody.classified_customizing (custody : interp.Custody) (index : Nat) :
    (interp.customizing index).heap.Classified (interp.customizing index).classes := by
  have classified := custody.classified
  have kinds : ∀ {id kind}, interp.classes.synthetic? id = some kind →
      (interp.customizing index).classes.synthetic? id = some kind :=
    ClassSpace.synthetic?_customize
  constructor
  · intro other membership found
    rw [membership?_customizing] at found
    split at found
    · obtain ⟨old, isOld, rfl⟩ := Option.map_eq_some_iff.mp found
      exact kinds (classified.nominal other old isOld)
    · exact kinds (classified.nominal other membership found)
  · intro other own found
    rw [ownClass?_customizing] at found
    split at found
    · next here =>
        subst here
        obtain ⟨membership, isMember, rfl⟩ := Option.map_eq_some_iff.mp found
        have ownOld : ∀ own, membership.own? = some own → interp.classes.Synthetic own := by
          intro own known
          apply classified.own index own
          unfold Heap.ownClass?
          rw [isMember]
          exact known
        have synthetic := ClassSpace.synthetic_customize ownOld
        rwa [← customized_eq isMember] at synthetic
    · exact kinds (classified.own other own found)
  · intro first second own foundFirst foundSecond
    rw [ownClass?_customizing] at foundFirst foundSecond
    split at foundFirst
    · next isFirst =>
        subst isFirst
        split at foundSecond
        · assumption
        · next different =>
            obtain ⟨membership, isMember, rfl⟩ := Option.map_eq_some_iff.mp foundFirst
            rw [customized_eq isMember] at foundSecond
            exact absurd foundSecond (custody.ownClass_ne isMember different)
    · next different =>
        split at foundSecond
        · next isSecond =>
            subst isSecond
            obtain ⟨membership, isMember, rfl⟩ := Option.map_eq_some_iff.mp foundSecond
            rw [customized_eq isMember] at foundFirst
            exact absurd foundFirst (custody.ownClass_ne isMember different)
        · exact classified.distinct first second own foundFirst foundSecond

theorem Custody.move (custody : before.Custody) (move : Regime.custody.Move before after) :
    Regime.custody.Step before after := by
  have guarded := custody.guarded
  cases move with
  | store quiet classes objects held =>
      refine custody.step_of_same (.store quiet classes objects held) classes ?_
      unfold Heap.membership?
      rw [objects]
  | @slot index name value mayStore fit =>
      refine custody.step_of_same (.slot mayStore fit) rfl ?_
      funext other
      refine (membership?_modify _ index _ other).trans ?_
      split <;> rfl
  | @object class_ slots fit stored =>
      refine custody.step (.object fit stored) guarded (fun _ _ => id) ?_
      exact custody.classified.newObject { membership := { nominal := class_ }, slots } fit rfl
  | own index =>
      exact custody.step (.own index) (guarded.customize (custody.ordinary_nominal index))
        (fun _ _ => ClassSpace.synthetic?_customize) (custody.classified_customizing index)
  | linearize id =>
      exact custody.step_of_refreshes (.linearize id) (.linearization _ id)
        (ClassSpace.refreshes_linearization _ id)
  | chain id name =>
      exact custody.step_of_refreshes (.chain id name) (.chain _ id name)
        (guarded.toHierarchical.keepsMethods_chain id name).refreshes
  | addSlot id name fit =>
      exact custody.step_of_refreshes (.addSlot id name fit) (.addSlot _ id name (.constant _) fit)
        (ClassSpace.keepsMethods_addSlot _ id name _).refreshes
  | removeSlot id name =>
      exact custody.step_of_refreshes (.removeSlot id name) (.removeSlot _ id name)
        (ClassSpace.keepsMethods_removeSlot _ id name).refreshes
  | addBehavior id name qualifier fit =>
      exact custody.step_of_refreshes (.addBehavior id name qualifier fit)
        (.addBehavior _ id name qualifier fit)
        (ClassSpace.refreshes_addBehavior _ id name qualifier _)
  | extend fit parentsFit =>
      exact custody.step_of_retains (.extend fit parentsFit) (.extend _ _ _)
        (guarded.extendOrdinary _ parentsFit)
  | @define parents slots name parentsFit defaults =>
      have kinds : ∀ id kind, before.classes.synthetic? id = some kind →
          (before.classes.define name parents slots).2.synthetic? id = some kind := by
        intro id kind known
        have inside := Nat.ne_of_lt (ClassSpace.lt_size_of_synthetic? known)
        rw [ClassSpace.synthetic?_define, if_neg inside]
        exact known
      exact custody.step (.define name parentsFit defaults) (guarded.define name slots parentsFit)
        kinds (custody.classified.of_same rfl kinds)
  | write mayWrite fit => exact custody.step_of_same (.write mayWrite fit) rfl rfl
  | close ready member => exact custody.step_of_same (.close ready member) rfl rfl
  | assign ready fit => exact custody.step_of_same (.assign ready fit) rfl rfl
  | assignDynamic assigned fit => exact custody.step_of_same (.assignDynamic assigned fit) rfl rfl

/-- The classes in the code of a closure were defined. -/
theorem Custody.ordinary_code (custody : interp.Custody) (index : Nat) {value : Value}
    (bears : (interp.closure index).template.Bears value) : value.Ordinary interp.classes := by
  unfold closure at bears
  rw [Array.getD_eq_getD_getElem?] at bears
  cases found : interp.heap.closures[index]? with
  | some closure =>
      rw [found] at bears
      exact custody.held value (.heap (.code (Array.mem_of_getElem? found) bears))
  | none =>
      rw [found] at bears
      -- There is no such closure, and the one that takes its place gives null.
      rcases bears with ⟨param, isParam, _⟩ | inBody
      · cases isParam
      · cases inBody with
        | here member =>
            obtain rfl : value = .null := List.mem_singleton.mp member
            exact trivial
        | part member => cases member
        | default member => cases member
        | body member => cases member

end Interp

/-! ## The regime of custody -/

instance Regime.custody_lawful : Regime.custody.Lawful where
  refl _ _ := id
  trans first second id ordinary := second id (first id ordinary)
  fit_effect effect fit := Value.Ordinary.mono fit effect
  fit_same same fit := by
    apply Value.Ordinary.mono fit
    intro id ordinary
    rwa [same.classes]
  fit_atom := Value.ordinary_of_isAtom
  fit_cons := Iff.rfl
  fit_symbol _ _ _ := trivial
  fit_held custody holds := custody.held _ holds
  fit_order := by
    intro interp id other custody fit member
    rcases custody.guarded.ordinary_of_mem_linearization member with rfl | ordinary
    · exact fit
    · exact ordinary
  fit_nominal index custody := custody.ordinary_nominal index
  fit_defined := by
    intro interp name parents slots id custody defined
    obtain rfl := ClassSpace.fst_of_define defined
    exact (ClassSpace.synthetic?_define _ name parents slots _).trans (if_pos rfl)
  ready_effect effect ready value bears := (ready value bears).mono effect
  body_effect effect body value bears := (body value bears).mono effect
  ready_bind _ ready := ready
  ready_part ready member value bears := ready value (.part member bears)
  ready_let ready value bears := ready value (.inner bears)
  ready_top := by
    intro interp expr admissible value bears
    obtain ⟨inner, inside, member⟩ := bears.exists_inside
    exact admissible.fits inner inside value (Expr.mem_results_of_mem_values member)
  ready_value := by
    intro interp expr env value ready member
    rcases Expr.mem_results member with stands | ⟨name, rfl⟩
    · exact ready value (.here stands)
    · exact trivial
  ready_target _ _ := trivial
  ready_default := by
    intro interp index custody param isParam init isInit value bears
    exact custody.ordinary_code index (.inl ⟨param, isParam, init, isInit, bears⟩)
  closure_body := by
    intro interp index custody value bears
    exact custody.ordinary_code index (.inr bears)
  writable _ _ := trivial
  storable_default _ _ _ := trivial
  move := Interp.Custody.move
  bind := by
    intro interp bindings custody fits
    have inside : (interp.binding bindings).Custody := by
      refine Interp.Custody.of_same custody ?_ ?_ ?_
      · rfl
      · rfl
      · intro value holds
        rcases Interp.holds_binding holds with old | ⟨binding, member, rfl⟩
        · exact .inl old
        · exact .inr (fits binding member)
    refine ⟨inside, ?_⟩
    · rintro after ⟨custodyAfter, effect⟩
      exact ⟨custodyAfter.of_same rfl rfl fun value holds => .inl (Interp.holds_unwinding holds),
        effect⟩
  call := by
    intro interp custody _
    constructor
    · exact custody.of_same rfl rfl fun value holds => .inl (holds.of_eq rfl rfl rfl rfl rfl rfl)
    · rintro after ⟨custodyAfter, effect⟩
      exact ⟨custodyAfter.of_same rfl rfl fun value holds =>
        .inl (holds.of_eq rfl rfl rfl rfl rfl rfl), effect⟩
  enter := by
    intro interp slots parent body custody fits bodyFits
    have inside : (interp.entering slots parent).Custody := by
      refine Interp.Custody.of_same custody ?_ ?_ ?_
      · rfl
      · rfl
      · intro value holds
        exact (Interp.holds_entering holds).imp_right (fits value)
    refine ⟨⟨inside, ?_⟩, bodyFits⟩
    · rintro after ⟨custodyAfter, effect⟩
      exact ⟨custodyAfter.of_same rfl rfl fun value holds => .inl (Interp.holds_leaving holds),
        effect⟩
  load := by
    intro interp custody
    refine ⟨custody, ?_⟩
    rintro after ⟨custodyAfter, effect⟩
    exact ⟨custodyAfter.of_same rfl rfl fun value holds =>
      .inl (holds.of_eq rfl rfl rfl rfl rfl rfl), effect⟩
  stops_failure _ _ := rfl
  stops_spent _ := rfl
  stops_same _ same := same

end ObjectLisp
