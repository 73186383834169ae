import ObjectLisp.Proofs.Classes.Chains
import ObjectLisp.Proofs.Evaluation.Data

/-!
# Actions on classes, instances and operators

Looking up behaviors and slots, and the built-in functions that make and change
classes and instances without calling back into evaluation.  Methods and defaults
that they find are held by the classes.
-/

namespace ObjectLisp

open Regime

namespace ClassSpace

variable {space : ClassSpace SlotDefault Value} {value : Value}

/-- A chain is made of methods that the classes hold. -/
theorem holds_of_chain {id : ClassId} {name : String} {chain : MethodChain Value}
    (found : (space.chain id name).1 = some chain) (holds : chain.Holds value) :
    space.Holds value := by
  unfold ClassSpace.chain at found
  split at found
  · next known remembered =>
      obtain rfl : known = some chain := found
      exact .chain remembered holds
  · obtain ⟨methods, member, inMethods⟩ := MethodChain.holds_build? found holds
    obtain ⟨owner, _, defined⟩ := List.mem_filterMap.mp member
    rw [(space.keepsMethods_linearization id).methods] at defined
    exact .method defined inMethods

theorem holds_of_effectiveSlot? {id : ClassId} {name : String} {slot : Slot SlotDefault}
    (found : (space.effectiveSlot? id name).1 = some slot) : space.Holds slot.default.value := by
  obtain ⟨owner, _, inOwner⟩ := List.exists_of_findSome?_eq_some found
  have defined : slot ∈ (space.linearization id).2.slotsOf owner :=
    List.mem_of_find?_eq_some inOwner
  rw [slotsOf_linearization] at defined
  exact .default defined rfl

theorem name_of_effectiveSlot? {id : ClassId} {name : String} {slot : Slot SlotDefault}
    (found : (space.effectiveSlot? id name).1 = some slot) : slot.name = name := by
  obtain ⟨owner, _, inOwner⟩ := List.exists_of_findSome?_eq_some found
  have named := List.find?_some inOwner
  exact beq_iff_eq.mp named

end ClassSpace

namespace Arithmetic

variable {value : Value}

theorem isAtom_integers {op : ArithOp} {a b : Integer} (ran : integers op a b = .ok value) :
    value.isAtom = true := by
  unfold integers divide at ran
  repeat' split at ran
  all_goals cases ran
  all_goals rfl

theorem isAtom_floats {op : ArithOp} {x y : Float} (ran : floats op x y = .ok value) :
    value.isAtom = true := by
  unfold floats at ran
  repeat' split at ran
  all_goals cases ran
  all_goals rfl

/-- Arithmetic gives numbers, strings and truth values, and takes identities at most. -/
theorem run_spec {heap after : Heap} {method : NativeMethod} {a b : Value}
    (ran : run heap method a b = .ok (value, after)) :
    value.isAtom = true ∧ ∃ nextId, after = { heap with nextId } := by
  unfold run at ran
  simp only [bind, Except.bind, pure, Except.pure] at ran
  repeat' split at ran
  all_goals cases ran
  all_goals first
    | exact ⟨rfl, _, rfl⟩
    | exact ⟨isAtom_integers (by assumption), _, rfl⟩
    | exact ⟨isAtom_floats (by assumption), _, rfl⟩

end Arithmetic

variable {regime : Regime} [lawful : regime.Lawful] {interp : Interp}
  (good : regime.Good interp)

include good

/-! ## Behaviors -/

namespace Behavior

theorem find_keeps (class_ : ClassId) (name : String) :
    regime.Keeps (find class_ name)
      (fun after found => found = (interp.classes.chain class_ name).1 ∧
        ∀ chain ∈ found, ∀ value, chain.Holds value → regime.Fit after value) interp := by
  have step := (lawful.move good (.chain class_ name)).counted
    (if (interp.classes.chain class_ name).2.1 then
      { interp.counters with chainBuilds := interp.counters.chainBuilds + 1 }
    else interp.counters)
  refine .ok step ⟨rfl, ?_⟩
  intro chain found value holds
  exact step.fit (lawful.fit_held good (.class_ (ClassSpace.holds_of_chain found holds)))

theorem chainFor_keeps (receiver : Value) (name : String) :
    regime.Keeps (chainFor receiver name)
      (fun after found => ∀ chain ∈ found, ∀ value, chain.Holds value → regime.Fit after value)
      interp := by
  unfold Keeps Carries chainFor
  split
  · exact (find_keeps good _ name).mono fun _ _ found => found.2
  · exact .ok (.refl good) (by simp)

theorem has_keeps (receiver : Value) (name : String) :
    regime.Keeps (has receiver name) (fun _ _ => True) interp :=
  .bind (chainFor_keeps good receiver name) fun _ _ step _ => .done step.1 _

theorem missing_keeps (name : String) (receiver : Value) (arguments : List Value) :
    regime.Keeps (missing name receiver arguments) regime.Fit interp :=
  .failure _ (.refl good)

end Behavior

/-! ## Instances and slots -/

namespace Object

theorem slotName_keeps (value : Value) :
    regime.Keeps (slotName value)
      (fun after name => after = interp ∧ slotName value interp = .ok name interp) interp := by
  cases value with
  | str id text => exact .pure good ⟨rfl, rfl⟩
  | symbol symbol => exact .ok (.refl good) ⟨rfl, rfl⟩
  | _ => exact .typeError good _ _

theorem index_keeps (value : Value) :
    regime.Keeps (index value) (fun _ index => value = .object index) interp := by
  cases value with
  | object index => exact .pure good rfl
  | _ => exact .typeError good _ _

theorem store_keeps {index : Nat} {name : String} {value : Value}
    (mayStore : regime.Storable index name value) (fit : regime.Fit interp value) :
    regime.Keeps (store index name value) (fun _ _ => True) interp :=
  .move good (.slot mayStore fit)

theorem slotsOf_keeps {slots : Assoc String Value} {arguments : List Value}
    (stored : ∀ value ∈ slots.values, regime.Fit interp value)
    (fits : ∀ argument ∈ arguments, regime.Fit interp argument) :
    regime.Keeps (slotsOf slots arguments)
      (fun after slots => ∀ value ∈ slots.values, regime.Fit after value) interp := by
  fun_induction slotsOf slots arguments generalizing interp with
  | case1 slots name value rest ih =>
      obtain ⟨_, others⟩ := List.forall_mem_cons.mp fits
      obtain ⟨valueFits, restFits⟩ := List.forall_mem_cons.mp others
      refine .bind (slotName_keeps good name) fun text _ step _ => ?_
      refine ih text step.1 (fun other member => ?_) (step.fitAll restFits)
      rcases Assoc.mem_values_insert member with rfl | old
      · exact step.fit valueFits
      · exact step.fit (stored other old)
  | case2 => exact .pure good stored

theorem newObject_keeps {class_ : ClassId} {slots : Assoc String Value}
    (fit : regime.Fit interp (.class_ class_))
    (stored : ∀ value ∈ slots.values, regime.Fit interp value) :
    regime.Keeps (Eval.heap (·.newObject { membership := { nominal := class_ }, slots }))
      regime.Fit interp :=
  .ok (lawful.move good (.object fit stored)) (lawful.fit_atom rfl)

theorem definition_keeps (class_ : ClassId) (name : String) :
    regime.Keeps (definition class_ name)
      (fun after slot => slot.name = name ∧ regime.Fit after slot.default.value) interp := by
  have remembered := lawful.move good (.linearize class_)
  unfold Keeps Carries definition
  dsimp only
  split
  · next slot found =>
      have held := lawful.fit_held good (.class_ (ClassSpace.holds_of_effectiveSlot? found))
      exact .ok remembered ⟨ClassSpace.name_of_effectiveSlot? found, remembered.fit held⟩
  · exact .failure _ remembered

theorem setSlotValue_keeps {object : Value} {name : String} {value : Value}
    (mayStore : ∀ index, object = .object index → regime.Storable index name value)
    (fit : regime.Fit interp value) :
    regime.Keeps (setSlotValue object name value) regime.Fit interp :=
  .bind (index_keeps good object) fun index _ first isObject =>
    .bind (store_keeps first.1 (mayStore index isObject) (first.fit fit)) fun _ _ second _ =>
      .pure second.1 (second.fit (first.fit fit))

theorem effectiveClass_keeps (object : Value) :
    regime.Keeps (effectiveClass object)
      (fun after class_ => after = interp ∧ ∃ index, object = .object index ∧
        class_ = (interp.heap.objects.getD index default).membership.effective) interp := by
  cases object with
  | object index => exact .ok (.refl good) ⟨rfl, index, rfl, rfl⟩
  | _ => exact .typeError good _ _

theorem target_keeps (value : Value) : regime.Keeps (target value) (fun _ _ => True) interp := by
  cases value with
  | class_ id => exact .done good _
  | object index => exact .ok (lawful.move good (.own index)) trivial
  | _ => exact .typeError good _ _

theorem isInstance_keeps (value : Value) (class_ : ClassId) :
    regime.Keeps (isInstance value class_) (fun _ _ => True) interp := by
  cases value with
  | object index => exact .ok (lawful.move good (.linearize _)) trivial
  | _ => exact .done good _

end Object

/-! ## Built-in functions -/

namespace Library

theorem nominalClass_keeps (value : Value) :
    regime.Keeps (nominalClass value) regime.Fit interp := by
  unfold nominalClass
  split
  · exact .bind (Eval.instance_keeps good _) fun _ _ step fits => .pure step.1 fits.2.1
  · exact .atom good rfl

theorem nameOfClass_keeps {value : Value} (fit : regime.Fit interp value) :
    regime.Keeps (nameOfClass value) regime.Fit interp :=
  .bind (Argument.class_keeps good fit) fun _ _ step _ => .get_bind (Eval.str_keeps step.1 _)

/-- The ancestors of a fitting class fit. -/
theorem precedence_keeps {value : Value} (fit : regime.Fit interp value) :
    regime.Keeps (precedence value) regime.Fit interp := by
  refine .bind (Argument.class_keeps good fit) fun id middle step idFits => ?_
  have order : regime.Keeps (fun interp =>
      EStateM.Result.ok (interp.classes.linearization id).1
        { interp with classes := (interp.classes.linearization id).2 })
      (fun after order => ∀ other ∈ order, regime.Fit after (.class_ other)) middle := by
    have remembered := lawful.move step.1 (.linearize id)
    exact .ok remembered fun other member =>
      remembered.fit (lawful.fit_order step.1 idFits member)
  refine .bind order fun order _ step orderFits => Eval.list_keeps step.1 ?_
  rintro item member
  obtain ⟨other, isOther, rfl⟩ := List.mem_map.mp member
  exact orderFits other isOther

theorem definedSlots_keeps (id : ClassId) :
    regime.Keeps (definedSlots id) (fun _ _ => True) interp :=
  .ok (lawful.move good (.linearize id)) trivial

theorem visibleSlots_keeps (value : Value) :
    regime.Keeps (visibleSlots value) (fun _ _ => True) interp := by
  unfold visibleSlots
  split
  · exact definedSlots_keeps good _
  · exact .bind (Eval.instance_keeps good _) fun _ _ step _ =>
      .bind (definedSlots_keeps step.1 _) fun _ _ step _ => .done step.1 _
  · exact .typeError good _ _

theorem slotNameList_keeps (value : Value) :
    regime.Keeps (slotNameList value) regime.Fit interp :=
  .bind (visibleSlots_keeps good value) fun _ _ step _ =>
    .bind (strings_keeps step.1 _) fun _ _ step fits => Eval.list_keeps step.1 fits

theorem defineSlot_keeps (target name : Value) {init : Value} (fit : regime.Fit interp init) :
    regime.Keeps (defineSlot target name init) regime.Fit interp :=
  .bind (Object.target_keeps good target) fun id _ first _ =>
    .bind (Object.slotName_keeps first.1 name) fun text _ second _ =>
      .bind (.move second.1 (.addSlot id text (second.fit (first.fit fit)))) fun _ _ step _ =>
        .atom step.1 rfl

theorem forgetSlot_keeps (target name : Value) :
    regime.Keeps (forgetSlot target name) regime.Fit interp :=
  .bind (Object.target_keeps good target) fun id _ step _ =>
    .bind (Object.slotName_keeps step.1 name) fun text _ step _ =>
      .ok (lawful.move step.1 (.removeSlot id text)) (lawful.fit_atom rfl)

theorem classList_keeps {values : List Value}
    (fits : ∀ value ∈ values, regime.Fit interp value) :
    regime.Keeps (classList values) (fun after ids => ∀ id ∈ ids, regime.Fit after (.class_ id))
      interp := by
  induction values generalizing interp with
  | nil => exact .pure good (by simp)
  | cons value values ih =>
      obtain ⟨valueFits, valuesFit⟩ := List.forall_mem_cons.mp fits
      refine .bind (Argument.class_keeps good valueFits) fun id _ step idFits => ?_
      exact .bind (ih step.1 (step.fitAll valuesFit)) fun ids _ step idsFit =>
        .pure step.1 (List.forall_mem_cons.mpr ⟨step.fit idFits, idsFit⟩)

theorem addParents_keeps {target : Value} {parents : List Value}
    (targetFits : regime.Fit interp target)
    (fits : ∀ parent ∈ parents, regime.Fit interp parent) :
    regime.Keeps (addParents target parents) regime.Fit interp := by
  refine .bind (Argument.class_keeps good targetFits) fun id _ first idFits => ?_
  refine .bind (classList_keeps first.1 (first.fitAll fits)) fun ids _ second idsFit => ?_
  have tried := lawful.move second.1 (.extend (second.fit idFits) idsFit)
  unfold Carries
  dsimp only
  split
  · exact .ok tried (tried.fit (second.fit (first.fit targetFits)))
  · exact .failure _ tried

theorem respondsTo_keeps (receiver name : Value) :
    regime.Keeps (respondsTo receiver name) regime.Fit interp :=
  .bind (Argument.name_keeps good name) fun _ _ step _ =>
    .bind (Behavior.has_keeps step.1 receiver _) fun _ _ step _ => .atom step.1 rfl

theorem operandType_keeps (value : Value) :
    regime.Keeps (operandType value) (fun _ _ => True) interp := by
  refine .bind (Argument.name_keeps good value) fun name _ step _ => ?_
  split
  · exact .done step.1 _
  · exact .fail step.1 _

theorem extendOperator_keeps (operator first second : Value) {function : Value}
    (fit : regime.Fit interp function) :
    regime.Keeps (extendOperator operator first second function) regime.Fit interp := by
  unfold extendOperator
  split
  · refine .bind (operandType_keeps good first) fun a _ one _ => ?_
    refine .bind (operandType_keeps one.1 second) fun b _ two _ => ?_
    refine .ite (.bind (.move two.1 (.operators fun value holds => ?_)) fun _ _ step _ =>
      .atom step.1 rfl) (.typeError two.1 _ _)
    rcases OperatorTable.holds_addMethod holds with old | rfl
    · exact .inl old
    · exact .inr (two.fit (one.fit fit))
  · exact .typeError good _ _

end Library

/-! ## Members of host objects -/

namespace Member

theorem resolve_keeps (object : Value) (name : String) :
    regime.Keeps (resolve object name) (fun _ _ => True) interp := by
  unfold Keeps Carries resolve
  split
  · exact .ok (.refl good) trivial
  · exact .failure _ (.refl good)

theorem point_keeps (object : Value) : regime.Keeps (point object) (fun _ _ => True) interp := by
  unfold Keeps Carries point
  split <;> exact .ok (.refl good) trivial

theorem modifyPoint_keeps (object : Value) (change : HostPoint → HostPoint) :
    regime.Keeps (modifyPoint object change) (fun _ _ => True) interp := by
  unfold modifyPoint
  split
  · exact .move good (.heap_of_eq rfl rfl rfl rfl)
  · exact .done good _

theorem word_keeps (value : Value) : regime.Keeps (word value) (fun _ _ => True) interp := by
  unfold word
  split
  · exact .done good _
  · exact .typeError good _ _

theorem get_keeps (object : Value) (member : HostMember) :
    regime.Keeps (get object member) regime.Fit interp := by
  cases member with
  | x => exact .bind (point_keeps good object) fun _ _ step _ => .atom step.1 rfl
  | y => exact .bind (point_keeps good object) fun _ _ step _ => .atom step.1 rfl
  | scale => exact .fail good _
  | length => cases object <;> exact .atom good rfl

theorem set_keeps (object value : Value) (member : HostMember) :
    regime.Keeps (set object value member) (fun _ _ => True) interp := by
  cases member with
  | x => exact .bind (word_keeps good value) fun _ _ step _ => modifyPoint_keeps step.1 _ _
  | y => exact .bind (word_keeps good value) fun _ _ step _ => modifyPoint_keeps step.1 _ _
  | scale => exact .fail good _
  | length => exact .fail good _

theorem invoke_keeps (object : Value) (arguments : List Value) (member : HostMember) :
    regime.Keeps (invoke object arguments member) regime.Fit interp := by
  cases member with
  | scale =>
      rcases arguments with _ | ⟨factor, _ | ⟨_, _⟩⟩
      · exact .fail good _
      · refine .bind (word_keeps good factor) fun _ _ step _ => ?_
        exact .bind (point_keeps step.1 object) fun _ _ step _ =>
          Eval.heap_keeps step.1 (.heap_of_eq rfl rfl rfl rfl) (lawful.fit_atom rfl)
      · exact .fail good _
  | _ => exact .fail good _

theorem hostAccess_keeps (object : Value) (name : String) (arguments : List Value) :
    regime.Keeps (hostAccess object name arguments) regime.Fit interp :=
  .bind (resolve_keeps good object name) fun _ _ step _ =>
    .ite (get_keeps step.1 _ _) (invoke_keeps step.1 _ _ _)

end Member

/-! ## Operators -/

namespace Dispatch

theorem select_keeps (id : OperatorId) (a b : TypeTag) :
    regime.Keeps (select id a b)
      (fun after method => ∀ function, method = some (.function function) →
        regime.Fit after function) interp := by
  have selects : regime.Move interp
      { interp with operators := (interp.operators.select id a b).2 } :=
    .operators fun _ holds => .inl (OperatorTable.holds_select holds)
  have step := (lawful.move good selects).counted
    (count (!(interp.operators.get? id).any fun operator => operator.cache.contains (a, b))
      interp.counters)
  refine .ok step ?_
  intro function found
  exact step.fit (lawful.fit_held good (.operator (OperatorTable.holds_of_select found)))

theorem native_keeps (method : NativeMethod) (a b : Value) :
    regime.Keeps (native method a b) regime.Fit interp := by
  unfold Keeps Carries native
  split
  · next value heap ran =>
      obtain ⟨isAtom, nextId, rfl⟩ := Arithmetic.run_spec ran
      exact .ok (lawful.move good (.heap_of_eq rfl rfl rfl rfl)) (lawful.fit_atom isAtom)
  · exact .failure _ (.refl good)

theorem noMethod_keeps (operator : String) (a b : Value) :
    regime.Keeps (noMethod operator a b) regime.Fit interp :=
  .failure _ (.refl good)

end Dispatch

end ObjectLisp
