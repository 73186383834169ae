import ObjectLisp.Proofs.Classes.Synthetic
import ObjectLisp.Proofs.Frame.Pointwise

/-!
# What moves add to the holdings

A move of evaluation changes one part of a state.  Every value that the part holds
afterwards was held before, or was handed to the move and so fits.  The same is
true of dynamic bindings and of frames, which are made and given back around an
evaluation.
-/

namespace ObjectLisp

/-! ## Classes -/

/-- The value is a default, a method, or a method of a chain that the class remembers. -/
inductive ClassDef.Holds (class_ : ClassDef SlotDefault Value) (value : Value) : Prop where
  | default {slot : Slot SlotDefault} (member : slot ∈ class_.slots)
      (isDefault : slot.default.value = value)
  | method {name : String} {methods : MethodSet Value}
      (found : class_.behaviors.find? name = some methods) (holds : methods.Holds value)
  | chain {name : String} {chain : MethodChain Value}
      (found : class_.chains.find? name = some (some chain)) (holds : chain.Holds value)

namespace ClassSpace

variable {space before after : ClassSpace SlotDefault Value} {value : Value} {id : ClassId}
  {gained : Value → Prop}

theorem holds_iff : space.Holds value ↔
    ∃ id found, space.get? id = some found ∧ found.Holds value := by
  constructor
  · rintro (@⟨id, slot, member, isDefault⟩ | @⟨id, name, methods, found, holds⟩ |
      @⟨id, name, chain, found, holds⟩)
    · unfold slotsOf at member
      cases present : space.get? id with
      | none => simp [present] at member
      | some class_ =>
          rw [present] at member
          exact ⟨id, class_, present, .default member isDefault⟩
    · obtain ⟨class_, present, found⟩ := Option.bind_eq_some_iff.mp found
      exact ⟨id, class_, present, .method found holds⟩
    · obtain ⟨class_, present, found⟩ := Option.bind_eq_some_iff.mp found
      exact ⟨id, class_, present, .chain found holds⟩
  · rintro ⟨id, class_, present, holds⟩
    cases holds with
    | @default slot member isDefault =>
        have declared : slot ∈ space.slotsOf id := by
          unfold slotsOf
          rw [present]
          exact member
        exact .default declared isDefault
    | method found holds =>
        exact .method (Option.bind_eq_some_iff.mpr ⟨class_, present, found⟩) holds
    | chain found holds =>
        exact .chain (Option.bind_eq_some_iff.mpr ⟨class_, present, found⟩) holds

/-- A class that is added holds values of its own, and nothing else changes. -/
theorem holds_push {made : ClassDef SlotDefault Value}
    (classes : after.classes = before.classes.push made) (holds : after.Holds value) :
    before.Holds value ∨ made.Holds value := by
  obtain ⟨id, class_, present, holds⟩ := holds_iff.mp holds
  rw [get?_push classes] at present
  split at present
  · cases present
    exact .inr holds
  · exact .inl (holds_iff.mpr ⟨id, class_, present, holds⟩)

/-- No class changes its kind, and what classes hold was held before or has been gained. -/
structure Retains (gained : Value → Prop) (before after : ClassSpace SlotDefault Value) :
    Prop where
  kinds : ∀ id, after.synthetic? id = before.synthetic? id
  held : ∀ value, after.Holds value → before.Holds value ∨ gained value

namespace Retains

theorem refl (space : ClassSpace SlotDefault Value) : Retains gained space space :=
  ⟨fun _ => rfl, fun _ holds => .inl holds⟩

theorem trans {middle : ClassSpace SlotDefault Value} (first : Retains gained before middle)
    (second : Retains gained middle after) : Retains gained before after where
  kinds id := (second.kinds id).trans (first.kinds id)
  held value holds := by
    rcases second.held value holds with old | new
    · exact first.held value old
    · exact .inr new

/-- If the classes are the same, it does not matter what else changes. -/
theorem of_classes (classes : after.classes = before.classes) : Retains gained before after := by
  have same : after.get? = before.get? := by
    funext id
    unfold get?
    rw [classes]
  constructor
  · intro id
    unfold synthetic?
    rw [same]
  · intro value holds
    rw [holds_iff, same, ← holds_iff] at holds
    exact .inl holds

theorem modify (space : ClassSpace SlotDefault Value) (id : ClassId)
    {change : ClassDef SlotDefault Value → ClassDef SlotDefault Value}
    (kind : ∀ class_, (change class_).synthetic = class_.synthetic)
    (held : ∀ class_, space.get? id = some class_ → ∀ value, (change class_).Holds value →
      class_.Holds value ∨ gained value) :
    Retains gained space (space.modify id change) where
  kinds other := by
    unfold synthetic?
    rw [get?_modify]
    split
    · cases space.get? other <;> simp [kind]
    · rfl
  held value holds := by
    obtain ⟨other, class_, present, holds⟩ := holds_iff.mp holds
    rw [get?_modify] at present
    split at present
    · next here =>
        subst here
        obtain ⟨old, found, rfl⟩ := Option.map_eq_some_iff.mp present
        rcases held old found value holds with kept | new
        · exact .inl (holds_iff.mpr ⟨id, old, found, kept⟩)
        · exact .inr new
    · exact .inl (holds_iff.mpr ⟨other, class_, present, holds⟩)

theorem record (retains : Retains gained before after) (event : ClassEvent) :
    Retains gained before (after.record event) :=
  retains.trans (of_classes rfl)

/-- Slots and behaviors stay, and chains may be forgotten. -/
theorem modify_order (space : ClassSpace SlotDefault Value) (id : ClassId)
    {change : ClassDef SlotDefault Value → ClassDef SlotDefault Value}
    (kind : ∀ class_, (change class_).synthetic = class_.synthetic)
    (slots : ∀ class_, (change class_).slots = class_.slots)
    (behaviors : ∀ class_, (change class_).behaviors = class_.behaviors)
    (chains : ∀ class_, (change class_).chains = class_.chains ∨ (change class_).chains = {}) :
    Retains gained space (space.modify id change) := by
  apply modify space id kind
  intro class_ _ value holds
  left
  cases holds with
  | default member isDefault => exact .default (slots class_ ▸ member) isDefault
  | method found holds => exact .method (behaviors class_ ▸ found) holds
  | chain found holds =>
      rcases chains class_ with same | none
      · exact .chain (same ▸ found) holds
      · rw [none] at found
        cases found

/-! ### What classes remember -/

theorem linearization (space : ClassSpace SlotDefault Value) (id : ClassId) :
    Retains gained space (space.linearization id).2 := by
  unfold ClassSpace.linearization
  split
  · exact refl space
  · exact modify_order space id (fun _ => rfl) (fun _ => rfl) (fun _ => rfl) fun _ => .inl rfl

theorem forget (space : ClassSpace SlotDefault Value) (id : ClassId) :
    Retains gained space (space.forget id) := by
  have forgotten : Retains gained space
      (space.modify id ({ · with order? := none, chains := {} })) :=
    modify_order space id (fun _ => rfl) (fun _ => rfl) (fun _ => rfl) fun _ => .inr rfl
  exact forgotten.record _

theorem invalidate (space : ClassSpace SlotDefault Value) (id : ClassId) :
    Retains gained space (space.invalidate id) := by
  unfold ClassSpace.invalidate
  generalize Graph.preorder space.children space.extenderCount id = ids
  induction ids generalizing space with
  | nil => exact refl space
  | cons first rest ih => exact (forget space first).trans (ih (space.forget first))

theorem remember (space : ClassSpace SlotDefault Value) (id : ClassId) (name : String)
    (chain? : Option (MethodChain Value))
    (built : ∀ chain, chain? = some chain → ∀ value, chain.Holds value → gained value) :
    Retains gained space
      (space.modify id fun class_ =>
        { class_ with chains := class_.chains.insert name chain? }) := by
  apply modify space id
  · exact fun _ => rfl
  · intro class_ _ value holds
    cases holds with
    | default member isDefault => exact .inl (.default member isDefault)
    | method found holds => exact .inl (.method found holds)
    | chain found holds =>
        rw [Assoc.find?_insert] at found
        split at found
        · exact .inr (built _ (Option.some.inj found) value holds)
        · exact .inl (.chain found holds)

/-- A chain that is remembered is made of methods that the classes hold. -/
theorem chain (space : ClassSpace SlotDefault Value) (id : ClassId) (name : String) :
    Retains gained space (space.chain id name).2.2 := by
  have built : ∀ chain, (space.chain id name).1 = some chain → ∀ value, chain.Holds value →
      space.Holds value := fun _ found _ => holds_of_chain found
  unfold ClassSpace.chain at built ⊢
  split
  · exact refl space
  · next unknown =>
      rw [unknown] at built
      have remembered := (linearization space id).trans (remember _ id name _ built)
      refine ⟨remembered.kinds, fun value holds => ?_⟩
      exact .inl (or_self_iff.mp (remembered.held value holds))

theorem checkParents (space : ClassSpace SlotDefault Value) (id : ClassId)
    (existing added parents : List ClassId) :
    Retains gained space (space.checkParents id existing added parents).2 :=
  checkParents_snd_of_linearization refl trans linearization space id existing added parents

/-! ### Changes of classes -/

theorem extend (space : ClassSpace SlotDefault Value) (id : ClassId) (parents : List ClassId) :
    Retains gained space (space.extend id parents).2 := by
  unfold ClassSpace.extend
  cases space.get? id with
  | none => exact refl space
  | some found =>
      have checked : Retains gained space (space.checkParents id found.extensions [] parents).2 :=
        checkParents space id found.extensions [] parents
      dsimp only
      generalize space.checkParents id found.extensions [] parents = outcome at checked
      obtain ⟨result, later⟩ := outcome
      rcases result with problem | accepted
      · exact checked
      · cases accepted with
        | nil => exact checked
        | cons first more =>
            have modified : Retains gained later (later.modify id fun old =>
                { old with extensions := old.extensions ++ first :: more }) :=
              modify_order later id (fun _ => rfl) (fun _ => rfl) (fun _ => rfl) fun _ => .inl rfl
            have grown : Retains gained later (later.grown id (first :: more)) :=
              modified.trans (of_classes (classes_foldl_register _ _ _))
            exact (checked.trans (grown.trans (invalidate _ id))).record _

theorem mem_putSlot {slot other : Slot SlotDefault} {slots : List (Slot SlotDefault)}
    (member : other ∈ putSlot slot slots) : other = slot ∨ other ∈ slots := by
  induction slots with
  | nil => exact .inl (List.mem_singleton.mp member)
  | cons first rest ih =>
      unfold putSlot at member
      split at member
      · exact (List.mem_cons.mp member).imp_right (List.mem_cons_of_mem _)
      · rcases List.mem_cons.mp member with rfl | later
        · exact .inr List.mem_cons_self
        · exact (ih later).imp_right (List.mem_cons_of_mem _)

theorem addSlot (space : ClassSpace SlotDefault Value) (id : ClassId) (name : String)
    (default : SlotDefault) (isGained : gained default.value) :
    Retains gained space (space.addSlot id name default) := by
  unfold ClassSpace.addSlot
  split
  · exact refl space
  · apply record
    apply modify space id
    · exact fun _ => rfl
    · intro class_ _ value holds
      cases holds with
      | default member isDefault =>
          rcases mem_putSlot member with rfl | old
          · exact .inr (isDefault ▸ isGained)
          · exact .inl (.default old isDefault)
      | method found holds => exact .inl (.method found holds)
      | chain found holds => exact .inl (.chain found holds)

theorem removeSlot (space : ClassSpace SlotDefault Value) (id : ClassId) (name : String) :
    Retains gained space (space.removeSlot id name).2 := by
  unfold ClassSpace.removeSlot
  split
  · exact refl space
  · split
    · apply record
      apply modify space id
      · exact fun _ => rfl
      · intro class_ _ value holds
        left
        cases holds with
        | default member isDefault => exact .default (List.mem_filter.mp member).1 isDefault
        | method found holds => exact .method found holds
        | chain found holds => exact .chain found holds
    · exact refl space

theorem holds_set {methods : MethodSet Value} {qualifier : Qualifier} {method value : Value}
    (holds : (methods.set qualifier method).Holds value) :
    methods.Holds value ∨ value = method := by
  cases qualifier <;> simp only [MethodSet.set, MethodSet.Holds, Option.mem_some] at holds ⊢ <;>
    tauto

theorem addBehavior (space : ClassSpace SlotDefault Value) (id : ClassId) (name : String)
    (qualifier : Qualifier) {method : Value} (isGained : gained method) :
    Retains gained space (space.addBehavior id name qualifier method) := by
  unfold ClassSpace.addBehavior
  split
  · exact refl space
  · next found present =>
      apply record
      refine trans ?_ (invalidate _ id)
      apply modify space id
      · exact fun _ => rfl
      · intro class_ same value holds
        obtain rfl : found = class_ := Option.some.inj (present.symm.trans same)
        cases holds with
        | default member isDefault => exact .inl (.default member isDefault)
        | method isMethod holds =>
            rw [Assoc.find?_insert] at isMethod
            split at isMethod
            · next here =>
                subst here
                cases isMethod
                rcases holds_set holds with old | new
                · cases known : found.behaviors.find? name with
                  | none => simp [known, MethodSet.Holds] at old
                  | some methods =>
                      rw [known] at old
                      exact .inl (.method known old)
                · exact .inr (new ▸ isGained)
            · exact .inl (.method isMethod holds)
        | chain found holds => exact .inl (.chain found holds)

theorem define (space : ClassSpace SlotDefault Value) (name : String) (parents : List ClassId)
    (slots : List (String × SlotDefault)) :
    Retains gained (space.declared name slots) (space.define name parents slots).2 := by
  have extended : Retains gained (space.declared name slots) _ := extend _ space.size parents
  rcases space.define_snd name parents slots with same | ⟨event, same⟩
  · rw [same]
    exact extended
  · rw [same]
    exact extended.record event

end Retains

/-! ### New classes -/

/-- A class that is made for an instance holds nothing. -/
theorem holds_customize {membership : Membership}
    (holds : (space.customize membership).2.2.Holds value) : space.Holds value := by
  unfold customize at holds
  split at holds
  · exact holds
  · rcases holds_push rfl holds with old | new
    · exact old
    · cases new with
      | default member => cases member
      | method found => cases found
      | chain found => cases found

/-- A class that is defined holds the defaults of its slots. -/
theorem holds_define {name : String} {parents : List ClassId}
    {slots : List (String × SlotDefault)}
    (holds : (space.define name parents slots).2.Holds value) :
    space.Holds value ∨ ∃ slot ∈ slots, slot.2.value = value := by
  have retains : Retains (fun _ => False) (space.declared name slots) _ :=
    .define space name parents slots
  have declared := (retains.held value holds).resolve_right not_false
  rcases holds_push rfl declared with old | new
  · exact .inl old
  · cases new with
    | default member isDefault =>
        obtain ⟨slot, isSlot, rfl⟩ := List.mem_map.mp member
        exact .inr ⟨slot, isSlot, isDefault⟩
    | method found => cases found
    | chain found => cases found

end ClassSpace

/-! ## Frames -/

namespace FrameStore

variable {α : Type} {store : FrameStore α} {value : α}

/-- The value stands in a frame. -/
def Contains (store : FrameStore α) (value : α) : Prop :=
  ∃ (id : FrameId) (frame : Frame α), store.frames[id]? = some frame ∧ value ∈ frame.slots

/-- A store that has at most the values of another one in each frame has at most its values. -/
theorem Contains.of_map {later : FrameStore α} (contains : later.Contains value)
    (frames : ∀ (id : FrameId) (frame : Frame α), later.frames[id]? = some frame →
      ∃ old : Frame α, store.frames[id]? = some old ∧
        (value ∈ frame.slots → value ∈ old.slots)) :
    store.Contains value := by
  obtain ⟨id, frame, present, member⟩ := contains
  obtain ⟨old, found, fewer⟩ := frames id frame present
  exact ⟨id, old, found, fewer member⟩

theorem mem_slots_settled {frame : Frame α} (member : value ∈ frame.settled.slots) :
    value ∈ frame.slots := by
  unfold Frame.settled at member
  split at member
  · simp at member
  · exact member

theorem contains_pin {frame : FrameId} (contains : (store.pin frame).Contains value) :
    store.Contains value := by
  apply contains.of_map
  intro id found present
  rw [getElem?_pin] at present
  obtain ⟨old, isOld, rfl⟩ := Option.map_eq_some_iff.mp present
  exact ⟨old, isOld, fun member => member⟩

theorem contains_dropPin {frame : FrameId} (contains : (store.dropPin frame).Contains value) :
    store.Contains value := by
  apply contains.of_map
  intro id found present
  rw [getElem?_dropPin] at present
  split at present
  · obtain ⟨old, isOld, rfl⟩ := Option.map_eq_some_iff.mp present
    exact ⟨old, isOld, mem_slots_settled⟩
  · exact ⟨found, present, fun member => member⟩

theorem contains_dropChain {frame : FrameId} (contains : (store.dropChain frame).Contains value) :
    store.Contains value := by
  unfold dropChain at contains
  generalize store.chain frame = ids at contains
  induction ids generalizing store with
  | nil => exact contains
  | cons first rest ih => exact contains_dropPin (ih contains)

theorem contains_collect (contains : store.collect.Contains value) : store.Contains value := by
  have worked : ∀ (ids : List FrameId) (later : FrameStore α),
      (ids.foldl dropChain later).Contains value → later.Contains value := by
    intro ids
    induction ids with
    | nil => exact fun _ contains => contains
    | cons first rest ih => exact fun later contains => contains_dropChain (ih _ contains)
  have emptied : ({ store with queue := [] } : FrameStore α).Contains value :=
    worked store.queue _ contains
  exact emptied

theorem contains_release {frame : FrameId} (contains : (store.release frame).Contains value) :
    store.Contains value := by
  rw [release_eq] at contains
  apply (contains_collect contains).of_map
  intro id found present
  rw [getElem?_retire] at present
  split at present
  · obtain ⟨old, isOld, rfl⟩ := Option.map_eq_some_iff.mp present
    exact ⟨old, isOld, mem_slots_settled⟩
  · exact ⟨found, present, fun member => member⟩

theorem contains_alloc {slots : Array α} {parent : Option FrameId}
    (contains : (store.alloc slots parent).2.Contains value) :
    store.Contains value ∨ value ∈ slots := by
  obtain ⟨id, frame, present, member⟩ := contains
  have placed : store.collect.frames[id]? = some frame ∨ frame = fresh slots parent := by
    cases available : store.collect.free with
    | nil =>
        rw [store.alloc_of_free_nil slots parent available, Array.getElem?_push] at present
        split at present
        · exact .inr (Option.some.inj present).symm
        · exact .inl present
    | cons index rest =>
        rw [store.alloc_of_free_cons slots parent available, Array.getElem?_setIfInBounds]
          at present
        split at present
        · split at present
          · exact .inr (Option.some.inj present).symm
          · cases present
        · exact .inl present
  rcases placed with old | rfl
  · exact .inl (contains_collect ⟨id, frame, old, member⟩)
  · exact .inr member

theorem contains_set {env : Option FrameId} {level index : Nat} {assigned : α}
    (contains : (store.set env level index assigned).2.Contains value) :
    store.Contains value ∨ value = assigned := by
  obtain ⟨id, frame, present, member⟩ := contains
  rw [getElem?_set] at present
  obtain ⟨old, isOld, rfl⟩ := Option.map_eq_some_iff.mp present
  dsimp only at member
  split at member
  · rcases Array.mem_or_eq_of_mem_setIfInBounds member with kept | new
    · exact .inl ⟨id, old, isOld, kept⟩
    · exact .inr new
  · exact .inl ⟨id, old, isOld, member⟩

end FrameStore

/-! ## Globals and dynamic bindings -/

theorem Globals.get?_of_set {globals : Globals} {name other : SymbolId} {assigned value : Value}
    (found : (globals.set name assigned).get? other = some value) :
    globals.get? other = some value ∨ value = assigned := by
  rw [Globals.get?_set] at found
  split at found
  · exact .inr (Option.some.inj found).symm
  · exact .inl found

namespace DynamicStack

variable {α : Type} {stack : DynamicStack α} {name symbol : SymbolId} {value assigned : α}

theorem mem_of_assignIn {bindings later : List (SymbolId × α)}
    (assigns : assignIn symbol assigned bindings = some later) (member : (name, value) ∈ later) :
    (name, value) ∈ bindings ∨ value = assigned := by
  induction bindings generalizing later with
  | nil => cases assigns
  | cons first rest ih =>
      obtain ⟨bound, old⟩ := first
      unfold assignIn at assigns
      split at assigns
      · cases assigns
        rcases List.mem_cons.mp member with same | inRest
        · exact .inr (congrArg Prod.snd same)
        · exact .inl (List.mem_cons_of_mem _ inRest)
      · obtain ⟨tail, inTail, rfl⟩ := Option.map_eq_some_iff.mp assigns
        rcases List.mem_cons.mp member with same | later
        · exact .inl (same ▸ List.mem_cons_self)
        · exact (ih inTail later).imp_left (List.mem_cons_of_mem _)

theorem mem_of_pushAll {bindings : List (SymbolId × α)}
    (member : (name, value) ∈ (stack.pushAll bindings).bindings) :
    (name, value) ∈ stack.bindings ∨ (name, value) ∈ bindings := by
  unfold pushAll at member
  induction bindings generalizing stack with
  | nil => exact .inl member
  | cons first rest ih =>
      rcases ih member with inner | later
      · rcases List.mem_cons.mp inner with same | old
        · exact .inr (same ▸ List.mem_cons_self)
        · exact .inl old
      · exact .inr (List.mem_cons_of_mem _ later)

end DynamicStack

/-! ## States -/

namespace Heap

variable {heap : Heap} {value : Value}

theorem holds_newClosure {closure : Closure} (holds : (heap.newClosure closure).2.Holds value) :
    heap.Holds value ∨ closure.template.Bears value := by
  cases holds with
  | item member => exact .inl (.item member)
  | code member bears =>
      rcases Array.mem_push.mp member with old | rfl
      · exact .inl (.code old bears)
      · exact .inr bears
  | slot member stored => exact .inl (.slot member stored)
  | continuation member holds => exact .inl (.continuation member holds)

theorem holds_objects {objects : Array Instance} (holds : Holds { heap with objects } value) :
    heap.Holds value ∨ ∃ object ∈ objects, value ∈ object.slots.values := by
  cases holds with
  | item member => exact .inl (.item member)
  | code member bears => exact .inl (.code member bears)
  | slot member stored => exact .inr ⟨_, member, stored⟩
  | continuation member holds => exact .inl (.continuation member holds)

/-- Where one instance changes, the others store what they did. -/
theorem holds_modify {index : Nat} {change : Instance → Instance}
    (holds : Holds { heap with objects := heap.objects.modify index change } value) :
    heap.Holds value ∨ ∃ object ∈ heap.objects, value ∈ (change object).slots.values := by
  rcases holds_objects holds with old | ⟨object, member, stored⟩
  · exact .inl old
  · obtain ⟨position, present⟩ := Array.mem_iff_getElem?.mp member
    rw [Array.getElem?_modify] at present
    split at present
    · obtain ⟨before, found, rfl⟩ := Option.map_eq_some_iff.mp present
      exact .inr ⟨before, Array.mem_of_getElem? found, stored⟩
    · exact .inl (.slot (Array.mem_of_getElem? present) stored)

end Heap

namespace Interp

variable {interp : Interp} {value : Value}

theorem holds_frames {frames : FrameStore Value} (holds : Holds { interp with frames } value) :
    interp.Holds value ∨ frames.Contains value := by
  cases holds with
  | frame member inFrame =>
      obtain ⟨id, present⟩ := Array.mem_iff_getElem?.mp member
      exact .inr ⟨id, _, present, inFrame⟩
  | global found => exact .inl (.global found)
  | heap holds => exact .inl (.heap holds)
  | dynamic member => exact .inl (.dynamic member)
  | class_ holds => exact .inl (.class_ holds)
  | operator holds => exact .inl (.operator holds)

theorem holds_of_contains (contains : interp.frames.Contains value) : interp.Holds value := by
  obtain ⟨id, frame, present, member⟩ := contains
  exact .frame (Array.mem_of_getElem? present) member

/-- Setting a global adds its new value. -/
theorem holds_setGlobal {symbols : SymbolStore} {name : SymbolId} {item : Value}
    (holds : Holds { interp with symbols, globals := interp.globals.set name item } value) :
    interp.Holds value ∨ value = item := by
  have same : Holds { interp with globals := interp.globals.set name item } value :=
    holds.of_eq rfl rfl rfl rfl rfl rfl
  rcases holds_globals same with old | ⟨symbol, found⟩
  · exact .inl old
  · exact (Globals.get?_of_set found).imp_left .global

/-! The brackets of evaluation. -/

theorem holds_binding {bindings : List (SymbolId × Value)}
    (holds : (interp.binding bindings).Holds value) :
    interp.Holds value ∨ ∃ binding ∈ bindings, binding.2 = value := by
  rcases holds_dynamic holds with old | ⟨name, member⟩
  · exact .inl old
  · rcases DynamicStack.mem_of_pushAll member with old | new
    · exact .inl (.dynamic old)
    · exact .inr ⟨_, new, rfl⟩

theorem holds_unwinding {height : Nat} (holds : (interp.unwinding height).Holds value) :
    interp.Holds value := by
  rcases holds_dynamic holds with old | ⟨name, member⟩
  · exact old
  · exact .dynamic (List.mem_of_mem_drop member)

theorem holds_entering {slots : List Value} {parent : Option FrameId}
    (holds : (interp.entering slots parent).Holds value) : interp.Holds value ∨ value ∈ slots := by
  rcases holds_frames holds with old | contains
  · exact .inl old
  · rcases FrameStore.contains_alloc contains with old | new
    · exact .inl (holds_of_contains old)
    · exact .inr (by simpa using new)

theorem holds_leaving {frame : FrameId} (holds : (interp.leaving frame).Holds value) :
    interp.Holds value := by
  rcases holds_frames holds with old | contains
  · exact old
  · exact holds_of_contains (FrameStore.contains_release contains)

theorem holds_closing {template : Template Expr} {env : Option FrameId}
    (holds : (interp.closing template env).Holds value) :
    interp.Holds value ∨ template.Bears value := by
  let made : Interp := { interp with heap := (interp.heap.newClosure { template, env }).2 }
  have framed : made.Holds value := by
    cases env with
    | none => exact holds
    | some frame =>
        have pinned : Holds { made with frames := interp.frames.pin frame } value := holds
        rcases holds_frames pinned with old | contains
        · exact old
        · have old := FrameStore.contains_pin contains
          exact holds_of_contains old
  rcases holds_heap framed with old | new
  · exact .inl old
  · exact (Heap.holds_newClosure new).imp_left .heap

end Interp

/-! ## New interpreters -/

namespace Interp

/-- The operators at the start have no methods but built-in ones. -/
theorem not_holds_builtin (value : Value) :
    ¬ (OperatorTable.builtin : OperatorTable (OperatorMethod Value)).Holds value := by
  rintro ⟨operator, member, pair, found⟩
  obtain ⟨spec, _, rfl⟩ := List.mem_map.mp (List.mem_toArray.mp member)
  have native : ∀ (methods : List (TypeTag × NativeMethod))
      (operator : GenericOperator (OperatorMethod Value)),
      operator.method? pair ≠ some (.function value) →
        (methods.foldl (fun operator entry =>
          operator.addMethod entry.1 entry.1 (.native entry.2)) operator).method? pair ≠
            some (.function value) := by
    intro methods
    induction methods with
    | nil => exact fun _ none => none
    | cons first rest ih =>
        intro operator none
        apply ih
        rw [operator.method?_addMethod]
        split
        · simp
        · exact none
  have empty : ({ name := spec.name, shape := spec.shape } :
      GenericOperator (OperatorMethod Value)).method? pair = none := rfl
  apply native spec.methods _ _ found
  rw [empty]
  simp

/-- A new interpreter holds no values. -/
theorem not_holds_new {config : Config} {symbols : SymbolStore} {words : Vocabulary}
    {value : Value} : ¬ ({ config, symbols, words } : Interp).Holds value := by
  intro holds
  cases holds with
  | global found => simp [Globals.get?] at found
  | heap holds =>
      cases holds with
      | item member => simp [Heap.items] at member
      | code member => simp at member
      | slot member => simp at member
      | continuation member => simp at member
  | frame member => simp at member
  | dynamic member => simp at member
  | class_ holds =>
      obtain ⟨id, found, present, holds⟩ := ClassSpace.holds_iff.mp holds
      have bare : found = { name := "object" } := by
        obtain ⟨inside, rfl⟩ := Array.getElem?_eq_some_iff.mp present
        obtain rfl : id = 0 := by simpa using inside
        rfl
      subst bare
      cases holds with
      | default member => simp at member
      | method known => cases known
      | chain known => cases known
  | operator holds => exact not_holds_builtin value holds

end Interp

/-! ## Moves -/

/-- What a state holds after a move was held before or fits, if all values in an expression that is
ready fit. -/
theorem Regime.Move.holds {regime : Regime} {before after : Interp} {value : Value}
    (bearing : ∀ {expr env} {interp : Interp} {value}, regime.Ready expr env interp →
      expr.Bears value → regime.Fit interp value)
    (move : regime.Move before after) (holds : after.Holds value) :
    before.Holds value ∨ regime.Fit before value := by
  have retained : ∀ {classes : ClassSpace SlotDefault Value},
      before.classes.Retains (regime.Fit before) classes →
        Interp.Holds { before with classes } value →
          before.Holds value ∨ regime.Fit before value := by
    intro classes retains holds
    rcases Interp.holds_classes holds with old | new
    · exact .inl old
    · exact (retains.held value new).imp_left .class_
  cases move with
  | store quiet classes objects held => exact held value holds
  | slot mayStore fit =>
      rcases Interp.holds_heap holds with old | new
      · exact .inl old
      · rcases Heap.holds_modify new with old | ⟨object, member, stored⟩
        · exact .inl (.heap old)
        · rcases Assoc.mem_values_insert stored with rfl | old
          · exact .inr fit
          · exact .inl (.heap (.slot member old))
  | object fit stored =>
      rcases Interp.holds_heap holds with old | new
      · exact .inl old
      · rcases Heap.holds_objects new with old | ⟨object, member, inSlot⟩
        · exact .inl (.heap old)
        · rcases Array.mem_push.mp member with old | rfl
          · exact .inl (.heap (.slot old inSlot))
          · exact .inr (stored value inSlot)
  | own index =>
      left
      let reclassed : Interp := { before with classes := (before.customized index).2.2 }
      have changed :
          Interp.Holds { reclassed with heap := (before.customizing index).heap } value := holds
      rcases Interp.holds_heap changed with old | new
      · rcases Interp.holds_classes old with old | new
        · exact old
        · exact .class_ (ClassSpace.holds_customize new)
      · rcases Heap.holds_modify new with old | ⟨object, member, stored⟩
        · exact .heap old
        · exact .heap (.slot member stored)
  | linearize id => exact retained (.linearization _ id) holds
  | chain id name => exact retained (.chain _ id name) holds
  | addSlot id name fit => exact retained (.addSlot _ id name (.constant _) fit) holds
  | removeSlot id name => exact retained (.removeSlot _ id name) holds
  | addBehavior id name qualifier fit =>
      exact retained (.addBehavior _ id name qualifier fit) holds
  | extend fit parentsFit => exact retained (.extend _ _ _) holds
  | define name parentsFit defaults =>
      rcases Interp.holds_classes holds with old | new
      · exact .inl old
      · rcases ClassSpace.holds_define new with old | ⟨slot, member, rfl⟩
        · exact .inl (.class_ old)
        · exact .inr (defaults slot member)
  | write mayWrite fit =>
      rcases Interp.holds_setGlobal holds with old | rfl
      · exact .inl old
      · exact .inr fit
  | close ready member =>
      rcases Interp.holds_closing holds with old | bears
      · exact .inl old
      · exact .inr (bearing ready (.of_template member bears))
  | assign ready fit =>
      rcases Interp.holds_frames holds with old | contains
      · exact .inl old
      · rcases FrameStore.contains_set contains with old | rfl
        · exact .inl (Interp.holds_of_contains old)
        · exact .inr fit
  | assignDynamic assigned fit =>
      rcases Interp.holds_dynamic holds with old | ⟨name, member⟩
      · exact .inl old
      · obtain ⟨bindings, assigns, rfl⟩ := Option.map_eq_some_iff.mp assigned
        rcases DynamicStack.mem_of_assignIn assigns member with old | rfl
        · exact .inl (.dynamic old)
        · exact .inr fit

end ObjectLisp
