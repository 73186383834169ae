import ObjectLisp.Proofs.Classes.Refusal
import ObjectLisp.Proofs.Evaluation.Outcome
import ObjectLisp.Proofs.Objects.Customization

/-!
# Failing calls that were to change packages, classes or operators

Functions that change the packages, the classes or the operators look at their
arguments first.  If they fail then, they have changed nothing.

There are two exceptions.  Symbols are exported one after the other, so a list that
has something else among its symbols is exported up to there.  And an instance whose
slots are to be changed gets a class of its own before the name of the slot is
looked at.
-/

namespace ObjectLisp

/-- The states differ at most in the linearizations that classes remember, and these are right if
they were before. -/
structure Interp.Unchanged (before after : Interp) : Prop where
  others : after = { before with classes := after.classes }
  classes : before.classes.Alike after.classes
  hierarchical : before.classes.Hierarchical → after.classes.Hierarchical

theorem Interp.Unchanged.refl (interp : Interp) : interp.Unchanged interp := ⟨rfl, .refl _, id⟩

/-! ## Evaluations that leave no trace if they fail -/

namespace Eval

variable {α β : Type} {first : Eval α} {next : α → Eval β} {interp after : Interp}

/-- The evaluation only looks at the state. -/
def Reads (action : Eval α) : Prop := ∀ interp, final (action interp) = interp

/-- The evaluation changes nothing if it fails. -/
def Atomic (action : Eval α) : Prop :=
  ∀ interp stop after, action interp = .error stop after → interp.Unchanged after

theorem Reads.of_ok (reads : first.Reads) {value : α} (ran : first interp = .ok value after) :
    after = interp := by
  have same := reads interp
  rw [ran] at same
  exact same

theorem Reads.of_error (reads : first.Reads) {stop : Stop}
    (failed : first interp = .error stop after) : after = interp := by
  have same := reads interp
  rw [failed] at same
  exact same

theorem Reads.atomic (reads : first.Reads) : first.Atomic := by
  intro interp stop after failed
  obtain rfl := reads.of_error failed
  exact .refl after

theorem Reads.bind (reads : first.Reads) (later : ∀ value, (next value).Reads) :
    (first >>= next).Reads := by
  intro interp
  cases outcome : first interp with
  | ok value after =>
      obtain rfl := reads.of_ok outcome
      rw [bind_of_ok outcome]
      exact later value after
  | error stop after =>
      rw [bind_of_error outcome]
      exact reads.of_error outcome

/-- Nothing has changed if what is looked at first is refused. -/
theorem Reads.bind_atomic (reads : first.Reads) (later : ∀ value, (next value).Atomic) :
    (first >>= next).Atomic := by
  intro interp stop after failed
  cases outcome : first interp with
  | ok value middle =>
      obtain rfl := reads.of_ok outcome
      rw [bind_of_ok outcome] at failed
      exact later value middle stop after failed
  | error stop middle =>
      rw [bind_of_error outcome] at failed
      cases failed
      exact reads.atomic interp stop after outcome

theorem reads_pure (value : α) : (pure value : Eval α).Reads := fun _ => rfl

theorem reads_fail (cause : Cause) : (fail cause : Eval α).Reads := fun _ => rfl

end Eval

/-! ### Arguments -/

open Eval

theorem Argument.reads_name (value : Value) : (Argument.name value).Reads := by
  cases value with
  | str id text => exact reads_pure text
  | symbol symbol => exact fun _ => rfl
  | _ => exact reads_fail _

theorem Argument.reads_class (value : Value) : (Argument.class_ value).Reads := by
  cases value with
  | class_ id => exact reads_pure id
  | _ => exact reads_fail _

namespace Library

theorem reads_classList (values : List Value) : (classList values).Reads := by
  induction values with
  | nil => exact reads_pure []
  | cons value values ih =>
      apply (Argument.reads_class value).bind
      intro id
      apply ih.bind
      intro ids
      exact reads_pure _

theorem reads_packageNamed (value : Value) : (packageNamed value).Reads := by
  apply (Argument.reads_name value).bind
  intro name interp
  have looked : (get : Eval Interp) interp = .ok interp interp := rfl
  rw [Eval.bind_of_ok looked]
  cases interp.symbols.findPackage? name <;> rfl

theorem reads_operandType (value : Value) : (operandType value).Reads := by
  apply (Argument.reads_name value).bind
  intro name
  split
  · exact reads_pure _
  · exact reads_fail _

/-! ## Functions that look at their arguments first -/

theorem newPackage_atomic (name : Value) : (newPackage name).Atomic := by
  apply (Argument.reads_name name).bind_atomic
  intro name interp stop after failed
  cases failed

theorem enterPackage_atomic (name : Value) : (enterPackage name).Atomic := by
  apply (reads_packageNamed name).bind_atomic
  intro package interp stop after failed
  cases failed

theorem inheritPackage_atomic (name : Value) : (inheritPackage name).Atomic := by
  apply (reads_packageNamed name).bind_atomic
  intro package interp stop after failed
  cases failed

theorem extendOperator_atomic (operator first second function : Value) :
    (extendOperator operator first second function).Atomic := by
  unfold extendOperator
  cases operator with
  | operator id =>
      apply (reads_operandType first).bind_atomic
      intro first
      apply (reads_operandType second).bind_atomic
      intro second
      split
      · intro interp stop after failed
        cases failed
      · exact (reads_fail _).atomic
  | _ => exact (reads_fail _).atomic

theorem addParents_atomic (target : Value) (parents : List Value) :
    (addParents target parents).Atomic := by
  apply (Argument.reads_class target).bind_atomic
  intro id
  apply (reads_classList parents).bind_atomic
  intro ids interp stop after failed
  cases refused : (interp.classes.extend id ids).1 with
  | ok _ =>
      simp only [refused] at failed
      cases failed
  | error problem =>
      simp only [refused] at failed
      cases failed
      exact ⟨rfl, ClassSpace.alike_of_extend refused, fun fits => fits.extend id ids⟩

end Library

variable {interp after : Interp} {stop : Stop}

/-! ## Exports -/

/-- The state after symbols were exported. -/
def Interp.exporting (interp : Interp) (symbols : List SymbolId) : Interp :=
  { interp with symbols := symbols.foldl SymbolStore.exportSymbol interp.symbols }

/-- A list is exported up to the first item that is no symbol. -/
theorem Library.exporting_of_exportAll {values : List Value}
    (failed : exportAll values interp = .error stop after) :
    ∃ symbols value rest, values = List.map Value.symbol symbols ++ value :: rest ∧
      (∀ symbol, value ≠ .symbol symbol) ∧ after = interp.exporting symbols := by
  induction values generalizing interp with
  | nil => cases failed
  | cons value values ih =>
      cases value with
      | symbol symbol =>
          obtain ⟨symbols, value, rest, rfl, other, rfl⟩ := ih failed
          exact ⟨symbol :: symbols, value, rest, rfl, other, rfl⟩
      | _ =>
          cases failed
          exact ⟨[], _, values, rfl, nofun, rfl⟩

/-- The argument is a list of symbols with something else among them, and the symbols in front of
it are exported. -/
def Interp.Exported (before : Interp) (arguments : List Value) (after : Interp) : Prop :=
  ∃ list symbols value rest, arguments = [list] ∧
    list.toList? = some (List.map Value.symbol symbols ++ value :: rest) ∧ symbols ≠ [] ∧
    (∀ symbol, value ≠ .symbol symbol) ∧ after = before.exporting symbols

theorem Library.exported_of_exported {list : Value}
    (failed : exported list interp = .error stop after) :
    interp.Unchanged after ∨ interp.Exported [list] after := by
  have listed : (Argument.list list >>= exportAll) interp = .error stop after := by
    cases list with
    | symbol symbol => cases failed
    | _ => exact failed
  unfold Argument.list at listed
  cases items : list.toList? with
  | none =>
      rw [items] at listed
      cases listed
      exact .inl (.refl _)
  | some values =>
      rw [items] at listed
      obtain ⟨symbols, value, rest, rfl, other, rfl⟩ := exporting_of_exportAll listed
      cases symbols with
      | nil => exact .inl (.refl _)
      | cons symbol symbols =>
          exact .inr ⟨list, symbol :: symbols, value, rest, rfl, items, List.cons_ne_nil _ _,
            other, rfl⟩

/-! ## Slots of instances -/

/-- The value names a slot. -/
def Value.isSlotName : Value → Bool
  | .str _ _ => true
  | .symbol _ => true
  | _ => false

theorem Object.slotName_of_isSlotName {name : Value} (named : name.isSlotName = true)
    (interp : Interp) : ∃ text, Object.slotName name interp = .ok text interp := by
  cases name with
  | str id text => exact ⟨text, rfl⟩
  | symbol symbol => exact ⟨_, rfl⟩
  | _ => cases named

theorem Object.reads_slotName (value : Value) : (Object.slotName value).Reads := by
  cases value with
  | str id text => exact reads_pure text
  | symbol symbol => exact fun _ => rfl
  | _ => exact reads_fail _

/-- An instance that has a class of its own keeps it. -/
theorem Interp.customizing_of_own {index : Nat} {own : ClassId}
    (known : interp.heap.ownClass? index = some own) : interp.customizing index = interp := by
  obtain ⟨membership, found, isOwn⟩ := Option.bind_eq_some_iff.mp known
  obtain ⟨object, present, isMember⟩ := Option.map_eq_some_iff.mp found
  have kept : interp.customized index = (own, membership, interp.classes) := by
    rw [customized_eq found]
    unfold ClassSpace.customize
    rw [isOwn]
  have objects : (interp.heap.objects.modify index fun object => { object with membership }) =
      interp.heap.objects := by
    apply Array.ext_getElem?
    intro other
    rw [Array.getElem?_modify]
    split
    · next here =>
        rw [← here, present, ← isMember]
        rfl
    · rfl
  unfold customizing
  rw [kept]
  dsimp only
  rw [objects]

/-- The first argument is an instance that had no class of its own and has one now, though the
second argument does not name a slot. -/
def Interp.Customized (before : Interp) (arguments : List Value) (after : Interp) : Prop :=
  ∃ index name rest, arguments = .object index :: name :: rest ∧ name.isSlotName = false ∧
    before.heap.ownClass? index = none ∧ after = before.customizing index

/-- A change of a slot can only fail because of its target or its name. -/
theorem Object.customized_of_target {target name : Value} {change : ClassId → String → Eval Value}
    (failed : (do
      let id ← Object.target target
      let name ← Object.slotName name
      change id name : Eval Value) interp = .error stop after)
    (succeeds : ∀ id name interp stop after, change id name interp ≠ .error stop after)
    (rest : List Value) :
    interp.Unchanged after ∨ interp.Customized (target :: name :: rest) after := by
  have named : ∀ id, (do
      let name ← Object.slotName name
      change id name : Eval Value).Atomic := fun id =>
    (Object.reads_slotName name).bind_atomic fun text interp stop after failed =>
      absurd failed (succeeds id text interp stop after)
  cases target with
  | class_ id => exact .inl (named id interp stop after failed)
  | object index =>
      have targeted : Object.target (.object index) interp =
          .ok (interp.customized index).1 (interp.customizing index) := rfl
      rw [bind_of_ok targeted] at failed
      cases isName : name.isSlotName with
      | true =>
          obtain ⟨text, isText⟩ := slotName_of_isSlotName isName (interp.customizing index)
          rw [bind_of_ok isText] at failed
          exact absurd failed (succeeds _ _ _ _ _)
      | false =>
          have refused : after = interp.customizing index := by
            cases name with
            | str => cases isName
            | symbol => cases isName
            | _ => cases failed; rfl
          cases known : interp.heap.ownClass? index with
          | some own =>
              rw [refused, Interp.customizing_of_own known]
              exact .inl (.refl interp)
          | none => exact .inr ⟨index, name, rest, rfl, isName, known, refused⟩
  | _ =>
      cases failed
      exact .inl (.refl _)

/-! ## Calls -/

/-- Functions that look at all their arguments before they change packages, classes or
operators. -/
def Primitive.checking : List Primitive :=
  [.makePackage, .usePackage, .inPackage, .extendClass, .addOperatorMethod]

/-- The functions that change packages, classes, the classes of single instances or operators. -/
def Primitive.structural : List Primitive := checking ++ [.export_, .addSlot, .removeSlot]

namespace Library

variable {engine : Engine} {primitive : Primitive} {arguments : List Value}

theorem wrongCount_atomic (primitive : Primitive) (arguments : List Value) :
    (wrongCount primitive arguments).Atomic :=
  (reads_fail _).atomic

theorem run_atomic (engine : Engine) (arguments : List Value)
    (checks : primitive ∈ Primitive.checking) : (run engine primitive arguments).Atomic := by
  have wrong := wrongCount_atomic primitive arguments
  simp only [Primitive.checking, List.mem_cons, List.not_mem_nil, or_false] at checks
  rcases checks with rfl | rfl | rfl | rfl | rfl
  · rcases arguments with _ | ⟨name, _ | _⟩
    · exact wrong
    · exact newPackage_atomic name
    · exact wrong
  · rcases arguments with _ | ⟨name, _ | _⟩
    · exact wrong
    · exact inheritPackage_atomic name
    · exact wrong
  · rcases arguments with _ | ⟨name, _ | _⟩
    · exact wrong
    · exact enterPackage_atomic name
    · exact wrong
  · rcases arguments with _ | ⟨target, parents⟩
    · exact wrong
    · exact addParents_atomic target parents
  · rcases arguments with _ | ⟨operator, _ | ⟨first, _ | ⟨second, _ | ⟨function, _ | _⟩⟩⟩⟩
    · exact wrong
    · exact wrong
    · exact wrong
    · exact wrong
    · exact extendOperator_atomic operator first second function
    · exact wrong

theorem run_of_call (failed : call engine primitive arguments interp = .error stop after) :
    interp.Unchanged after ∨ run engine primitive arguments interp = .error stop after := by
  unfold call at failed
  split at failed
  · exact .inr failed
  · exact .inl (wrongCount_atomic primitive arguments interp stop after failed)

theorem exported_of_run (failed : run engine .export_ arguments interp = .error stop after) :
    interp.Unchanged after ∨ interp.Exported arguments after := by
  have wrong := wrongCount_atomic .export_ arguments interp stop after
  rcases arguments with _ | ⟨list, _ | _⟩
  · exact .inl (wrong failed)
  · exact exported_of_exported failed
  · exact .inl (wrong failed)

theorem customized_of_run (slots : primitive = .addSlot ∨ primitive = .removeSlot)
    (failed : run engine primitive arguments interp = .error stop after) :
    interp.Unchanged after ∨ interp.Customized arguments after := by
  have wrong := wrongCount_atomic primitive arguments interp stop after
  rcases slots with rfl | rfl
  · rcases arguments with _ | ⟨target, _ | ⟨name, _ | ⟨init, _ | _⟩⟩⟩
    · exact .inl (wrong failed)
    · exact .inl (wrong failed)
    · exact Object.customized_of_target failed (fun _ _ _ _ _ => nofun) []
    · exact Object.customized_of_target failed (fun _ _ _ _ _ => nofun) [init]
    · exact .inl (wrong failed)
  · rcases arguments with _ | ⟨target, _ | ⟨name, _ | _⟩⟩
    · exact .inl (wrong failed)
    · exact .inl (wrong failed)
    · exact Object.customized_of_target failed (fun _ _ _ _ _ => nofun) []
    · exact .inl (wrong failed)

end Library

/-- In every state that an interpreter comes to, a call that was to change packages, classes,
classes of single instances or operators and fails has changed nothing but linearizations that
classes remember, which no later operation on the classes can tell.  There are two exceptions: an
export of a list with something else than symbols has exported the symbols in front of it, and a
slot that has no name has given the instance that was to get or lose it a class of its own. -/
theorem Interp.Attainable.failed_calls_atomic (attainable : interp.Attainable) {engine : Engine}
    {primitive : Primitive} {arguments : List Value} (structural : primitive ∈ Primitive.structural)
    (failed : Library.call engine primitive arguments interp = .error stop after) :
    (interp.Unchanged after ∧ ∀ later, (ClassSpace.Operation.perform after.classes later).1 =
      (ClassSpace.Operation.perform interp.classes later).1) ∨
    primitive = .export_ ∧ interp.Exported arguments after ∨
    (primitive = .addSlot ∨ primitive = .removeSlot) ∧ interp.Customized arguments after := by
  have unnoticed : interp.Unchanged after → interp.Unchanged after ∧
      ∀ later, (ClassSpace.Operation.perform after.classes later).1 =
        (ClassSpace.Operation.perform interp.classes later).1 := by
    intro unchanged
    have hierarchical := attainable.custody.guarded.toHierarchical
    exact ⟨unchanged, ClassSpace.Operation.alike_perform unchanged.classes hierarchical
      (unchanged.hierarchical hierarchical)⟩
  rcases Library.run_of_call failed with unchanged | ran
  · exact .inl (unnoticed unchanged)
  · rcases List.mem_append.mp structural with checks | slotOrExport
    · exact .inl (unnoticed (Library.run_atomic engine arguments checks interp stop after ran))
    · simp only [List.mem_cons, List.not_mem_nil, or_false] at slotOrExport
      rcases slotOrExport with rfl | slots
      · exact (Library.exported_of_run ran).imp unnoticed fun exported => .inl ⟨rfl, exported⟩
      · exact (Library.customized_of_run slots ran).imp unnoticed
          fun customized => .inr ⟨slots, customized⟩

/-! ## Failing calls in a small state -/

namespace Interp

/-- The states have the same classes and the same heap. -/
structure SameWorld (before after : Interp) : Prop where
  classes : after.classes = before.classes
  heap : after.heap = before.heap

namespace SameWorld

theorem trans {first second third : Interp} (left : first.SameWorld second)
    (right : second.SameWorld third) : first.SameWorld third :=
  ⟨right.classes.trans left.classes, right.heap.trans left.heap⟩

theorem defineSystem (interp : Interp) (name : String) (value : Value) :
    interp.SameWorld (interp.defineSystem name value) := ⟨rfl, rfl⟩

theorem defineSystemConstant (interp : Interp) (name : String) (value : Value) :
    interp.SameWorld (interp.defineSystemConstant name value) := ⟨rfl, rfl⟩

theorem defineAll (interp : Interp) (bindings : List (String × Value)) :
    interp.SameWorld (interp.defineAll bindings) := by
  induction bindings generalizing interp with
  | nil => exact ⟨rfl, rfl⟩
  | cons binding bindings ih => exact (defineSystem interp binding.1 binding.2).trans (ih _)

theorem enterConfigured (interp : Interp) : interp.SameWorld interp.enterConfigured := ⟨rfl, rfl⟩

theorem bare (config : Config) (symbols : SymbolStore) :
    ({} : Interp).SameWorld (Interp.bare config symbols) := by
  unfold Interp.bare
  generalize Vocabulary.install symbols = vocabulary
  obtain ⟨words, known⟩ := vocabulary
  dsimp only
  have fresh : ({} : Interp).SameWorld { config, symbols := known, words } := ⟨rfl, rfl⟩
  have booleans := (fresh.trans (defineSystemConstant _ "true" (.bool true))).trans
    (defineSystemConstant _ "false" (.bool false))
  have constants := booleans.trans (defineSystemConstant _ "null" .null)
  have root := constants.trans (defineSystem _ "object" (.class_ ClassId.object))
  exact (root.trans (defineAll _ _)).trans (defineAll _ _)

/-- Without a prelude a new interpreter has no classes but the root, and no instances. -/
theorem start {config : Config} (noPrelude : config.loadPrelude = false) (symbols : SymbolStore) :
    ({} : Interp).SameWorld (Interp.start config symbols) := by
  simp only [Interp.start, noPrelude, Bool.false_eq_true, if_false]
  exact (bare config symbols).trans (enterConfigured _)

end SameWorld

/-- A host may replace all symbols before there are classes and instances. -/
theorem attainable_new (symbols : SymbolStore) : ({ symbols } : Interp).Attainable := by
  let config : Config := { loadPrelude := false }
  have world : ({} : Interp).SameWorld (start config .initial) := .start rfl .initial
  refine .host (.start config .initial) world.classes.symm ?_ ?_
  · rw [world.heap]
  · intro value holds
    rw [world.classes]
    exact .inr ((custody_new {} symbols {}).held value holds)

end Interp

/-- No value stands in an expression without values, functions and inner frames, if none stands in
its parts. -/
theorem Expr.not_bears_of_parts {expr : Expr} {value : Value} (noValues : expr.values = [])
    (noTemplates : expr.templates = []) (noLet : ∀ inits body, expr ≠ .let_ inits body)
    (parts : ∀ part ∈ expr.parts, ¬ part.Bears value) : ¬ expr.Bears value := by
  intro bears
  cases bears with
  | here member => simp [noValues] at member
  | part member inside => exact parts _ member inside
  | default member _ _ _ => simp [noTemplates] at member
  | body member _ => simp [noTemplates] at member
  | inner _ => exact noLet _ _ rfl

section Workshop

/-- Define a class and another one that extends it, both under the name of the symbol 0, and make an
instance of the first. -/
private def outfitting : Expr :=
  .block [.defClass 0 [] [], .apply (.global 0) [] none, .defClass 0 [.global 0] []]

private theorem outfitting_bears_nothing (value : Value) : ¬ outfitting.Bears value := by
  have name : ¬ (Expr.global 0).Bears value :=
    Expr.not_bears_of_parts rfl rfl (by simp) (by simp [Expr.parts])
  apply Expr.not_bears_of_parts rfl rfl (by simp [outfitting])
  intro part member
  have cases_ : part = .defClass 0 [] [] ∨ part = .apply (.global 0) [] none ∨
      part = .defClass 0 [.global 0] [] := by
    simpa [outfitting, Expr.parts] using member
  rcases cases_ with rfl | rfl | rfl
  · exact Expr.not_bears_of_parts rfl rfl (by simp) (by simp [Expr.parts])
  · exact Expr.not_bears_of_parts rfl rfl (by simp) (by simpa [Expr.parts] using name)
  · exact Expr.not_bears_of_parts rfl rfl (by simp) (by simpa [Expr.parts] using name)

/-- Two classes, an instance and the symbol 0, which is internal to the current package. -/
private def workshop : Interp :=
  Eval.final ((Command.eval outfitting none).run (.ofFuel 9)
    { symbols := (SymbolStore.initial.internIn "a" PackageId.system).2 })

private theorem workshop_attainable : workshop.Attainable :=
  .command (Interp.attainable_new _) (.eval outfitting none)
    (fun value bears => absurd bears (outfitting_bears_nothing value)) 9

/-- A call in this state. -/
private def calling (primitive : Primitive) (arguments : List Value) :
    EStateM.Result Stop Interp Value :=
  Library.call (.ofFuel 0) primitive arguments workshop

private def isError : EStateM.Result Stop Interp Value → Bool
  | .ok _ _ => false
  | .error _ _ => true

private theorem error_of_isError {result : EStateM.Result Stop Interp Value}
    (failed : isError result = true) : ∃ stop, result = .error stop (Eval.final result) := by
  cases result with
  | ok => cases failed
  | error stop after => exact ⟨stop, rfl⟩

/-- The symbol and then a number. -/
private def mixed : List Value := [.cons 0 (.symbol 0) (.cons 1 (.ofNat 5) .null)]

private theorem workshop_facts :
    isError (calling .extendClass [.class_ 1, .class_ 2]) = true ∧
    isError (calling .export_ mixed) = true ∧
    workshop.symbols.externals PackageId.system = [] ∧
    (Eval.final (calling .export_ mixed)).symbols.externals PackageId.system = [0] ∧
    isError (calling .addSlot [.object 0, .ofNat 5]) = true ∧
    workshop.heap.ownClass? 0 = none ∧
    (Eval.final (calling .addSlot [.object 0, .ofNat 5])).heap.ownClass? 0 = some 3 := by
  decide +kernel

/-- A class cannot extend a class below it, and after the attempt all is as before. -/
theorem Interp.Attainable.failed_calls_atomic_of_circle :
    workshop.Attainable ∧ ∃ stop after,
      Library.call (.ofFuel 0) .extendClass [.class_ 1, .class_ 2] workshop = .error stop after ∧
      workshop.Unchanged after := by
  obtain ⟨stop, failed⟩ := error_of_isError workshop_facts.1
  have structural : Primitive.extendClass ∈ Primitive.structural := by decide
  rcases workshop_attainable.failed_calls_atomic structural failed with
    ⟨unchanged, _⟩ | ⟨isExport, _⟩ | ⟨isSlot, _⟩
  · exact ⟨workshop_attainable, stop, _, failed, unchanged⟩
  · cases isExport
  · rcases isSlot with isSlot | isSlot <;> cases isSlot

/-- A failed export has exported a symbol, and a failed change of a slot has given an instance a
class of its own. -/
theorem Interp.Attainable.failed_calls_leave_traces :
    ∃ interp : Interp, interp.Attainable ∧
      (∃ stop after, Library.call (.ofFuel 0) .export_ mixed interp = .error stop after ∧
        interp.symbols.externals PackageId.system = [] ∧
        after.symbols.externals PackageId.system = [0]) ∧
      (∃ stop after, Library.call (.ofFuel 0) .addSlot [.object 0, .ofNat 5] interp =
          .error stop after ∧
        interp.heap.ownClass? 0 = none ∧ after.heap.ownClass? 0 = some 3) := by
  obtain ⟨_, exportFailed, unexported, exported, slotFailed, unowned, owned⟩ := workshop_facts
  obtain ⟨exportStop, exportFailed⟩ := error_of_isError exportFailed
  obtain ⟨slotStop, slotFailed⟩ := error_of_isError slotFailed
  exact ⟨workshop, workshop_attainable, ⟨exportStop, _, exportFailed, unexported, exported⟩,
    slotStop, _, slotFailed, unowned, owned⟩

end Workshop

end ObjectLisp
