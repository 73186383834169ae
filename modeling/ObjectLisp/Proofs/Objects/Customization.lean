import ObjectLisp.Proofs.Evaluation.Commands
import ObjectLisp.Proofs.Objects.Custody

/-!
# Customized instances are isolated

A slot or a behavior that is added to an instance goes to a class that was made for
this instance alone.  No other class has this class above it, so all other classes
and instances keep their slots and behaviors.
-/

namespace ObjectLisp

/-! ## States that an interpreter comes to -/

/-- All classes that the command names were defined. -/
def Command.Ordinary (classes : ClassSpace SlotDefault Value) : Command → Prop
  | form datum _ => datum.Ordinary classes
  | text _ _ => True
  | call function arguments _ =>
      function.Ordinary classes ∧ ∀ argument ∈ arguments, argument.Ordinary classes
  | eval expr _ => ∀ value, expr.Bears value → value.Ordinary classes

theorem Command.Ordinary.brings {interp : Interp} {command : Command}
    (ordinary : command.Ordinary interp.classes) : command.Brings Regime.custody interp := by
  cases command with
  | form datum source => exact ordinary
  | text file content => exact trivial
  | call function arguments loc => exact ordinary
  | eval expr env => exact ordinary

/-- The states that an interpreter comes to from its start: those after commands, each of which may
end in any way, and those in which a command asks its engine for something.  In between a host may
change everything but classes and instances, with values whose classes were defined: read data,
define variables, share symbols, provide files. -/
inductive Interp.Attainable : Interp → Prop where
  | start (config : Config) (symbols : SymbolStore) : Attainable (.start config symbols)
  | command {interp : Interp} (attainable : Attainable interp) (command : Command)
      (ordinary : command.Ordinary interp.classes) (fuel : Nat) :
      Attainable (Eval.final (command.run (.ofFuel fuel) interp))
  | inside {interp met : Interp} (attainable : Attainable interp) (command : Command)
      (ordinary : command.Ordinary interp.classes) {fuel : Nat} {request : Request}
      (reaches : Reaches (fun engine => command.run engine) fuel interp request met) :
      Attainable met
  | host {interp later : Interp} (attainable : Attainable interp)
      (classes : later.classes = interp.classes)
      (objects : later.heap.objects = interp.heap.objects)
      (held : ∀ value, later.Holds value →
        interp.Holds value ∨ value.Ordinary interp.classes) : Attainable later

namespace Interp

variable {interp : Interp}

/-! ### New interpreters -/

theorem custody_new (config : Config) (symbols : SymbolStore) (words : Vocabulary) :
    ({ config, symbols, words } : Interp).Custody where
  guarded := ClassSpace.guarded_new
  classified := ⟨nofun, nofun, nofun⟩
  held _ holds := absurd holds not_holds_new

/-- A global may be set to a value whose classes were defined. -/
theorem Custody.setGlobal (custody : interp.Custody) (symbols : SymbolStore) (name : SymbolId)
    {value : Value} (ordinary : value.Ordinary interp.classes) :
    ({ interp with symbols, globals := interp.globals.set name value } : Interp).Custody := by
  refine custody.of_same ?_ ?_ ?_
  · rfl
  · rfl
  · intro other holds
    rcases holds_setGlobal holds with old | rfl
    · exact .inl old
    · exact .inr ordinary

theorem Custody.defineSystem (custody : interp.Custody) (name : String) {value : Value}
    (ordinary : value.Ordinary interp.classes) : (interp.defineSystem name value).Custody :=
  custody.setGlobal _ _ ordinary

theorem Custody.defineAll (custody : interp.Custody) {bindings : List (String × Value)}
    (atoms : ∀ binding ∈ bindings, binding.2.isAtom = true) :
    (interp.defineAll bindings).Custody := by
  induction bindings generalizing interp with
  | nil => exact custody
  | cons binding bindings ih =>
      obtain ⟨first, others⟩ := List.forall_mem_cons.mp atoms
      exact ih (custody.defineSystem _ (Value.ordinary_of_isAtom first)) others

theorem custody_bare (config : Config) (symbols : SymbolStore) :
    (bare config symbols).Custody := by
  have constant : ∀ {interp : Interp} (name : String) (value : Value), interp.Custody →
      value.isAtom = true → (interp.defineSystemConstant name value).Custody :=
    fun _ _ custody atom => custody.setGlobal _ _ (Value.ordinary_of_isAtom atom)
  unfold bare
  generalize Vocabulary.install symbols = vocabulary
  obtain ⟨words, known⟩ := vocabulary
  dsimp only
  have fresh := custody_new config known words
  have booleans := constant "false" (.bool false) (constant "true" (.bool true) fresh rfl) rfl
  have constants := constant "null" .null booleans rfl
  have ordinary : (Value.class_ ClassId.object).Ordinary _ := constants.guarded.ordinary_root
  have root := constants.defineSystem "object" ordinary
  exact (root.defineAll (isAtom_operatorBindings _)).defineAll isAtom_primitiveBindings

/-- A command that names only classes that were defined keeps custody, and so does its value. -/
theorem Custody.ends_command (custody : interp.Custody) {command : Command}
    (ordinary : command.Ordinary interp.classes) (fuel : Nat) :
    Regime.custody.Ends Regime.custody.Fit interp (command.run (.ofFuel fuel) interp) := by
  have carries : ∀ engine twin, Regime.custody.Engines engine twin →
      Regime.custody.Carries (command.run engine) (command.run twin) Regime.custody.Fit interp :=
    fun _ _ engines => command.run_carries engines Regime.custody_exact custody ordinary.brings
  exact Regime.custody_exact.ends_run Regime.custody_open carries fuel

theorem custody_start (config : Config) (symbols : SymbolStore) :
    (start config symbols).Custody := by
  have prelude : ∀ interp : Interp, interp.Custody → interp.withPrelude.Custody := by
    intro interp custody
    have read : ∀ file content fuel,
        (Eval.final (Source.evalText (.ofFuel fuel) file content interp)).Custody := by
      intro file content fuel
      have ordinary : (Command.text file content).Ordinary interp.classes := trivial
      exact (custody.ends_command ordinary fuel).step.1
    exact read Prelude.fileName Prelude.text Engine.ample
  have entered : ∀ interp : Interp, interp.Custody → interp.enterConfigured.Custody :=
    fun interp custody => custody.of_same rfl rfl fun value holds =>
      .inl (holds.of_eq rfl rfl rfl rfl rfl rfl)
  unfold start
  apply entered
  split
  · exact prelude _ (custody_bare config symbols)
  · exact custody_bare config symbols

/-- In every state that an interpreter comes to, classes are in custody. -/
theorem Attainable.custody (attainable : interp.Attainable) : interp.Custody := by
  induction attainable with
  | start config symbols => exact custody_start config symbols
  | command _ command ordinary fuel custody => exact (custody.ends_command ordinary fuel).step.1
  | inside _ command ordinary reaches custody =>
      have carries := fun engine twin (engines : Regime.custody.Engines engine twin) =>
        command.run_carries engines Regime.custody_exact custody ordinary.brings
      exact (Regime.custody_exact.admits_of_reaches Regime.custody_open carries id reaches).good
  | host _ classes objects held custody =>
      refine custody.of_same classes ?_ held
      unfold Heap.membership?
      rw [objects]

end Interp

/-! ## Changes of an instance -/

/-- A change of a class: a slot is added or removed, or a behavior is added. -/
inductive ClassSpace.Altered (space : ClassSpace SlotDefault Value) (id : ClassId) :
    ClassSpace SlotDefault Value → Prop where
  | same : Altered space id space
  | addSlot (name : String) (default : SlotDefault) :
      Altered space id (space.addSlot id name default)
  | removeSlot (name : String) : Altered space id (space.removeSlot id name).2
  | addBehavior (name : String) (qualifier : Qualifier) (method : Value) :
      Altered space id (space.addBehavior id name qualifier method)

namespace ClassSpace.Altered

variable {space after : ClassSpace SlotDefault Value} {id : ClassId}

theorem refreshes (altered : space.Altered id after) : space.Refreshes after := by
  cases altered with
  | same => exact .refl space
  | addSlot name default => exact (keepsMethods_addSlot space id name default).refreshes
  | removeSlot name => exact (keepsMethods_removeSlot space id name).refreshes
  | addBehavior name qualifier method => exact refreshes_addBehavior space id name qualifier method

theorem retains (altered : space.Altered id after) : space.Retains (fun _ => True) after := by
  cases altered with
  | same => exact .refl space
  | addSlot name default => exact .addSlot space id name default trivial
  | removeSlot name => exact .removeSlot space id name
  | addBehavior name qualifier method => exact .addBehavior space id name qualifier trivial

theorem sameButOne (altered : space.Altered id after) (hierarchical : space.Hierarchical)
    (alone : ∀ other, ¬ space.Extends other id) : space.SameButOne after id := by
  cases altered with
  | same => exact fun _ _ => rfl
  | addSlot name default => exact .addSlot space id name default
  | removeSlot name => exact .removeSlot space id name
  | addBehavior name qualifier method =>
      exact .addBehavior hierarchical alone name qualifier method

end ClassSpace.Altered

/-- What is added to an instance or a class, or removed from it. -/
inductive Customization where
  | addSlot (name init : Value)
  | removeSlot (name : Value)
  | addBehavior (env : Option FrameId) (name : String) (qualifier : Qualifier)
      (method : Template Expr)

/-- Customize an instance or a class. -/
def Customization.run (target : Value) : Customization → Eval Value
  | addSlot name init => Library.defineSlot target name init
  | removeSlot name => Library.forgetSlot target name
  | addBehavior env name qualifier method =>
      Evaluate.defineBehavior env target name qualifier method

/-- The name of a slot is found or not; the state stays as it is. -/
theorem Object.slotName_cases (value : Value) (interp : Interp) :
    (∃ name, slotName value interp = .ok name interp) ∨
      ∃ stop, slotName value interp = .error stop interp := by
  cases value with
  | str id text => exact .inl ⟨_, rfl⟩
  | symbol symbol => exact .inl ⟨_, rfl⟩
  | _ => exact .inr ⟨_, rfl⟩

/-- A customization of an instance gives it a class of its own and changes that class. -/
theorem Customization.altered (change : Customization) (index : Nat) (interp : Interp) :
    let after := Eval.final (change.run (.object index) interp)
    after.heap.objects = (interp.customizing index).heap.objects ∧
      (interp.customizing index).classes.Altered (interp.customized index).1 after.classes := by
  have targeted : Object.target (.object index) interp =
      .ok (interp.customized index).1 (interp.customizing index) := rfl
  cases change with
  | addSlot name init =>
      rcases Object.slotName_cases name (interp.customizing index)
        with ⟨text, named⟩ | ⟨stop, named⟩
      · simp only [run, Library.defineSlot, bind, EStateM.bind, targeted, named]
        exact ⟨rfl, .addSlot text _⟩
      · simp only [run, Library.defineSlot, bind, EStateM.bind, targeted, named]
        exact ⟨rfl, .same⟩
  | removeSlot name =>
      rcases Object.slotName_cases name (interp.customizing index)
        with ⟨text, named⟩ | ⟨stop, named⟩
      · simp only [run, Library.forgetSlot, bind, EStateM.bind, targeted, named]
        exact ⟨rfl, .removeSlot text⟩
      · simp only [run, Library.forgetSlot, bind, EStateM.bind, targeted, named]
        exact ⟨rfl, .same⟩
  | addBehavior env name qualifier method =>
      simp only [run, Evaluate.defineBehavior, bind, EStateM.bind, targeted, Eval.close_eq]
      exact ⟨rfl, .addBehavior name qualifier _⟩

/-! ## Isolation -/

variable {interp : Interp}

/-- The class that decides about another instance is not the class that an instance gets. -/
theorem Interp.Custody.effective_ne (custody : interp.Custody) {index other : Nat}
    {membership : Membership} {object : Instance}
    (found : interp.heap.membership? index = some membership)
    (present : interp.heap.objects[other]? = some object) (different : index ≠ other)
    (special : ¬ interp.classes.Ordinary (interp.classes.customize membership).1) :
    object.membership.effective ≠ (interp.classes.customize membership).1 := by
  have isMember : interp.heap.membership? other = some object.membership := by
    unfold Heap.membership?
    rw [present]
    rfl
  cases known : object.membership.own? with
  | none =>
      intro same
      have nominal : object.membership.effective = object.membership.nominal := by
        unfold Membership.effective
        rw [known]
        rfl
      rw [← same, nominal] at special
      exact special (custody.classified.nominal other _ isMember)
  | some own =>
      intro same
      have isOwn : object.membership.effective = own := by
        unfold Membership.effective
        rw [known]
        rfl
      rw [isOwn] at same
      subst same
      apply custody.ownClass_ne found different
      unfold Heap.ownClass?
      rw [isMember]
      exact known

/-- Everything that a customization of an instance may change. -/
structure Interp.Isolates (before after : Interp) (index : Nat) (own : ClassId) : Prop where
  ownClass : after.heap.ownClass? index = some own
  synthetic : after.classes.Synthetic own
  classes : ∀ other, other ≠ own → before.classes.SameAnswers after.classes other
  instances : ∀ other object, other ≠ index → before.heap.objects[other]? = some object →
    after.heap.objects[other]? = some object ∧
      before.classes.SameAnswers after.classes object.membership.effective

theorem Interp.Custody.isolates (custody : interp.Custody) (change : Customization) {index : Nat}
    (inside : index < interp.heap.objects.size) :
    interp.Isolates (Eval.final (change.run (.object index) interp)) index
      (interp.customized index).1 := by
  obtain ⟨objects, altered⟩ := change.altered index interp
  generalize Eval.final (change.run (.object index) interp) = after at objects altered
  have made : (interp.customizing index).Custody := (custody.move (.own index)).1
  obtain ⟨membership, found⟩ : ∃ membership, interp.heap.membership? index = some membership := by
    unfold Heap.membership?
    rw [Array.getElem?_eq_getElem inside]
    exact ⟨_, rfl⟩
  have isOwn : (interp.customizing index).heap.ownClass? index =
      some (interp.customized index).1 := by
    rw [ownClass?_customizing, if_pos rfl, found]
    rfl
  have synthetic := made.classified.own index _ isOwn
  have special : ¬ interp.classes.Ordinary (interp.customized index).1 := by
    intro ordinary
    have still : (interp.customizing index).classes.Ordinary (interp.customized index).1 :=
      ClassSpace.synthetic?_customize ordinary
    exact still.not_synthetic synthetic
  have alone : ∀ other, ¬ (interp.customizing index).classes.Extends other
      (interp.customized index).1 := fun other extension =>
    (made.guarded.ordinary_parent other _ extension).not_synthetic synthetic
  have same : interp.classes.SameButOne after.classes (interp.customized index).1 :=
    (ClassSpace.SameButOne.customize _ _).trans
      (altered.sameButOne made.guarded.toHierarchical alone)
  have answers : ∀ other, other ≠ (interp.customized index).1 →
      interp.classes.SameAnswers after.classes other := fun other different =>
    same.sameAnswers custody.guarded (made.guarded.toHierarchical.refreshed altered.refreshes)
      special different
  constructor
  · unfold Heap.ownClass? Heap.membership? at isOwn ⊢
    rw [objects]
    exact isOwn
  · exact (altered.retains.kinds _).trans synthetic
  · exact answers
  · intro other object different present
    rw [customized_eq found] at special answers
    refine ⟨?_, answers _ (custody.effective_ne found present different.symm special)⟩
    rw [objects, ← present]
    exact (Array.getElem?_modify ..).trans (if_neg different.symm)

/-- In every state that an interpreter comes to:

* distinct instances have distinct classes of their own;
* no class extends a class that was made for an instance, and no other class has it in its
  linearization;
* commands give values whose classes were defined, so that no command can name other classes;
* a customization of an instance changes neither what other classes answer nor other instances. -/
theorem Interp.Attainable.customization_isolated (attainable : interp.Attainable) :
    (∀ index other own, interp.heap.ownClass? index = some own →
      interp.heap.ownClass? other = some own → index = other) ∧
    (∀ index own, interp.heap.ownClass? index = some own → interp.classes.Synthetic own) ∧
    (∀ id own, interp.classes.Synthetic own → own ∉ interp.classes.extensionsOf id ∧
      (own ∈ (interp.classes.linearization id).1 → own = id)) ∧
    (∀ (command : Command) fuel value after, command.Ordinary interp.classes →
      command.run (.ofFuel fuel) interp = .ok value after → value.Ordinary after.classes) ∧
    ∀ (change : Customization) index, index < interp.heap.objects.size →
      ∃ own, interp.Isolates (Eval.final (change.run (.object index) interp)) index own := by
  have custody := attainable.custody
  refine ⟨custody.classified.distinct, custody.classified.own, ?_, ?_, ?_⟩
  · intro id own synthetic
    constructor
    · intro extension
      exact (custody.guarded.ordinary_parent id own extension).not_synthetic synthetic
    · intro member
      rcases custody.guarded.ordinary_of_mem_linearization member with same | ordinary
      · exact same
      · exact absurd synthetic ordinary.not_synthetic
  · intro command fuel value after ordinary ran
    have ends := custody.ends_command ordinary fuel
    rw [ran] at ends
    exact ends.2
  · exact fun change index inside => ⟨_, custody.isolates change inside⟩

/-- Two instances of a class, one of which has a behavior of its own. -/
private def pair : Interp :=
  Eval.final (Source.evalText (.ofFuel 20) "session"
    "(defclass A ()) (def a (new A)) (def b (new A)) (defbehavior a f (self) 1)"
    (.start { loadPrelude := false } .initial))

private theorem pair_attainable : pair.Attainable := by
  have read : ∀ file content, (Eval.final (Source.evalText (.ofFuel 20) file content
      (.start { loadPrelude := false } .initial))).Attainable :=
    fun file content => .command (.start _ _) (.text file content) trivial 20
  exact read _ _

private theorem pair_facts :
    pair.heap.objects.size = 2 ∧ pair.heap.ownClass? 0 = some 2 ∧
      (pair.classes.chain 2 "f").1.isSome = true ∧ (pair.classes.chain 1 "f").1.isSome = false := by
  decide +kernel

/-- A slot that the other instance gets is seen neither by the class nor by the first instance. -/
theorem Interp.Attainable.customization_isolated_of_pair :
    pair.Attainable ∧ pair.heap.ownClass? 0 = some 2 ∧
      (pair.classes.chain 2 "f").1.isSome = true ∧ (pair.classes.chain 1 "f").1.isSome = false ∧
      ∃ own, pair.Isolates
        (Eval.final ((Customization.addSlot (.str 0 "x") .null).run (.object 1) pair)) 1 own := by
  obtain ⟨size, isOwn, ownChain, classChain⟩ := pair_facts
  have inside : 1 < pair.heap.objects.size := by
    rw [size]
    decide
  have isolated := pair_attainable.customization_isolated.2.2.2.2 (.addSlot (.str 0 "x") .null) 1
  exact ⟨pair_attainable, isOwn, ownChain, classChain, isolated inside⟩

end ObjectLisp
