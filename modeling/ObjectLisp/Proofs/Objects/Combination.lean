import ObjectLisp.Proofs.Calls.Binding
import ObjectLisp.Proofs.Classes.Chains
import ObjectLisp.Proofs.Frame.WellFormed
import ObjectLisp.Proofs.Objects.Script

/-!
# Method combination

A call of a behavior combines the methods along the linearization of the receiver's
class, as long as what the class remembers of them is current.  It fails only
because a method fails.  A method of the root class that came after the class was
first asked for the behavior is not entered, unless the class extends the root
class by name.
-/

namespace ObjectLisp

/-! ## Chains that are current -/

namespace MethodChain

variable {μ : Type}

/-- The combination of sets of methods. -/
def ofSets (name : String) (sets : List (MethodSet μ)) : MethodChain μ where
  name
  entries := sets.filterMap (·.around) ++ sets.filterMap (·.primary)
  core := (sets.filterMap (·.around)).length
  befores := sets.filterMap (·.before)
  afters := (sets.filterMap (·.after)).reverse

/-- With an around or a primary method there is something to call. -/
theorem build?_eq_some {sets : List (MethodSet μ)} (name : String)
    (called : ∃ methods ∈ sets, methods.around.isSome ∨ methods.primary.isSome) :
    build? name sets = some (ofSets name sets) := by
  refine if_neg ?_
  intro empty
  simp only [Bool.and_eq_true, List.isEmpty_iff, List.filterMap_eq_nil_iff] at empty
  obtain ⟨methods, member, around | primary⟩ := called
  · rw [empty.1 methods member] at around
    cases around
  · rw [empty.2 methods member] at primary
    cases primary

end MethodChain

namespace ClassSpace

variable {δ μ : Type} {space : ClassSpace δ μ} {id : ClassId} {name : String}

/-- The methods of a behavior along the linearization of a class. -/
def methodSets (space : ClassSpace δ μ) (id : ClassId) (name : String) : List (MethodSet μ) :=
  (space.linearization id).1.filterMap (space.methodsOf? name)

/-- Nothing is remembered about a behavior that the root class could have changed unnoticed. -/
def Current (space : ClassSpace δ μ) (id : ClassId) (name : String) : Prop :=
  space.chained? id name = none ∨ Relation.ReflTransGen space.Extends id ClassId.object ∨
    space.methodsOf? name ClassId.object = none

theorem Hierarchical.build?_methodSets (hierarchical : space.Hierarchical) (id : ClassId)
    (name : String) : MethodChain.build? name (space.methodSets id name) =
      space.freshChain id name := by
  rw [methodSets, hierarchical.linearization_fst, freshChain]

theorem Reachable.chain_of_current (reachable : space.Reachable)
    (current : space.Current id name) :
    (space.chain id name).1 = MethodChain.build? name (space.methodSets id name) := by
  rw [reachable.hierarchical.build?_methodSets]
  rcases current with unknown | known
  · have fresh := space.keepsMethods_linearization id
    unfold chained? at unknown
    unfold ClassSpace.chain
    rw [unknown]
    dsimp only
    rw [reachable.hierarchical.linearization_fst,
      List.filterMap_congr fun other _ => fresh.methods name other, freshChain]
  · obtain ⟨root, answer, older, told⟩ :=
      reachable.chainsHold.accounts_chain reachable.hierarchical id name
    have same : root = space.methodsOf? name ClassId.object := by
      rcases known with extends_ | without
      · exact told extends_
      · rw [without] at older ⊢
        refine Option.eq_none_iff_forall_not_mem.mpr ?_
        intro methods member
        obtain ⟨_, ⟨⟩, _⟩ := older methods member
    rw [answer, same, chainWith_root]

end ClassSpace

namespace Behavior

/-! ## Calls of behaviors -/

section Invocation

variable {conduct : Conduct} {interp : Interp} {class_ : ClassId} {name : String}
  {arguments : List Value}

theorem chainFor_eq_ok {receiver : Value} (member : classOf? interp.heap receiver = some class_)
    (name : String) : ∃ counters,
      chainFor receiver name interp = .ok (interp.classes.chain class_ name).1
        { interp with classes := (interp.classes.chain class_ name).2.2, counters } := by
  rw [chainFor, member]
  exact ⟨_, rfl⟩

namespace Conduct.Abides

variable {sets : List (MethodSet Value)}

theorem forwards_entries (abides : conduct.Abides sets) :
    ∀ method ∈ sets.filterMap (·.around) ++ sets.filterMap (·.primary),
      conduct.Forwards method := by
  intro method member
  simp only [List.mem_append, List.mem_filterMap] at member
  obtain ⟨methods, member, found⟩ | ⟨methods, member, found⟩ := member
  · exact abides.forwards methods member method (.inl found)
  · exact abides.forwards methods member method (.inr found)

theorem performs_befores (abides : conduct.Abides sets) :
    ∀ method ∈ sets.filterMap (·.before), conduct.Performs method := by
  intro method member
  obtain ⟨methods, member, found⟩ := List.mem_filterMap.mp member
  exact abides.performs methods member method (.inl found)

theorem performs_afters (abides : conduct.Abides sets) :
    ∀ method ∈ (sets.filterMap (·.after)).reverse, conduct.Performs method := by
  intro method member
  obtain ⟨methods, member, found⟩ := List.mem_filterMap.mp (List.mem_reverse.mp member)
  exact abides.performs methods member method (.inr found)

end Conduct.Abides

/-- Combined methods are called in the order of the script. -/
theorem path_script {sets : List (MethodSet Value)} {fuel : Nat} {loc : Option SourceLoc}
    {start after : Interp} {value : Value} (abides : conduct.Abides sets)
    (good : conduct.good start)
    (ran : run (.ofFuel fuel) (.ofSets name sets) (some 0) arguments loc start = .ok value after) :
    ∃ passed, passed 0 = arguments ∧
      Path conduct (script (.ofSets name sets) passed sets) .null start value after := by
  have entries : (MethodChain.ofSets name sets).entries =
      [] ++ sets.filterMap (·.around) ++ sets.filterMap (·.primary) := rfl
  obtain ⟨passed, same, path, _⟩ := path_run entries rfl abides.forwards_entries
    abides.performs_befores abides.performs_afters good ran
  refine ⟨passed, same, ?_⟩
  rw [script, ← List.reverse_reverse (sets.filterMap (·.after))]
  exact path

/-- The methods along the linearization are combined.  If around and primary methods call the next
method exactly once, and before and after methods do not, then a call of the behavior either fails
because a method fails, or it enters them in the order of the script, each of them once, and its
value is that of the method that was entered first.  In each method, whether there is a next method
is answered as it is.  This is so for classes whose remembered chain is current. -/
theorem invoke_combines_methods (reachable : interp.classes.Reachable)
    (member : classOf? interp.heap (arguments.headD .null) = some class_)
    (current : interp.classes.Current class_ name)
    (called : ∃ methods ∈ interp.classes.methodSets class_ name,
      methods.around.isSome ∨ methods.primary.isSome)
    (abides : conduct.Abides (interp.classes.methodSets class_ name))
    (good : conduct.good interp) (fuel : Nat) (loc : Option SourceLoc) :
    ∃ chain found, chain = .ofSets name (interp.classes.methodSets class_ name) ∧
      chainFor (arguments.headD .null) name interp = .ok (some chain) found ∧
      (∀ stop after, invoke (.ofFuel fuel) name arguments loc interp = .error stop after →
        Fails (.ofFuel fuel) (chain.entries ++ chain.befores ++ chain.afters) stop after) ∧
      ∀ value after, invoke (.ofFuel fuel) name arguments loc interp = .ok value after →
        ∃ passed, passed 0 = arguments ∧
          Path conduct (script chain passed (interp.classes.methodSets class_ name)) .null found
            value after ∧
          (∀ method next, .enter method next ∈
              script chain passed (interp.classes.methodSets class_ name) → Leads next) ∧
          (conduct.Quiet → after.heap.continuations.toList = found.heap.continuations.toList ++
            (script chain passed (interp.classes.methodSets class_ name)).filterMap
              Event.continuation?) := by
  obtain ⟨counters, found⟩ := chainFor_eq_ok member name
  rw [reachable.chain_of_current current, MethodChain.build?_eq_some name called] at found
  have invoked : invoke (.ofFuel fuel) name arguments loc interp = _ := Eval.bind_of_ok found
  refine ⟨_, _, rfl, found, ?_, ?_⟩
  · intro stop after failed
    rw [invoked] at failed
    exact fails_of_run failed
  · intro value after ran
    rw [invoked] at ran
    obtain ⟨passed, same, path⟩ := path_script abides (conduct.good_found _ counters good) ran
    exact ⟨passed, same, path, fun _ next _ => leads next, path.continuations_eq⟩

end Invocation

end Behavior

/-! ## Methods that pass calls on -/

/-- The state in which the body of a function is evaluated. -/
def Interp.calling (interp : Interp) (counters : Counters) (slots : List Value)
    (env : Option FrameId) : Interp :=
  { interp with
    depth := interp.depth + 1
    counters
    frames := (interp.frames.alloc slots.toArray env).2 }

/-- The state after the body of a function was evaluated. -/
def Interp.called (interp : Interp) (frame : FrameId) : Interp :=
  { interp with depth := interp.depth - 1, frames := interp.frames.release frame }

theorem Eval.finally_eq_ok_iff {α : Type} {action : Eval α} {behind : Interp → Interp}
    {start after : Interp} {value : α} :
    Eval.finally_ action behind start = .ok value after ↔
      ∃ last, action start = .ok value last ∧ after = behind last := by
  unfold Eval.finally_
  cases action start with
  | ok result last =>
      simp only [EStateM.Result.ok.injEq]
      constructor
      · rintro ⟨rfl, rfl⟩
        exact ⟨last, ⟨rfl, rfl⟩, rfl⟩
      · rintro ⟨_, ⟨rfl, rfl⟩, rfl⟩
        exact ⟨rfl, rfl⟩
  | error stop last => simp

/-- A call of a function without optional parameters evaluates the body in a new frame. -/
theorem Call.exists_eval_of_closure_ok {engine : Engine} {index : Nat} {arguments : List Value}
    {loc : Option SourceLoc} {start after : Interp} {value : Value} {closure : Closure}
    (found : start.heap.closures.getD index default = closure)
    (simple : closure.template.params.isSimple = true)
    (ran : Call.closure engine index arguments loc start = .ok value after) :
    ∃ counters last,
      engine.eval closure.template.body (some (start.frames.alloc arguments.toArray closure.env).1)
        (start.calling counters arguments closure.env) = .ok value last ∧
      after = last.called (start.frames.alloc arguments.toArray closure.env).1 := by
  unfold Call.closure at ran
  rw [found] at ran
  split at ran
  · cases ran
  · dsimp only at ran
    split at ran
    case h_1 same =>
      cases ran
      rw [Call.body, Eval.bind_eq_ok_iff] at same
      obtain ⟨slots, bound, given, same⟩ := same
      rw [Call.bind_of_isSimple simple] at given
      split at given
      · cases given
      · cases given
        obtain ⟨last, ran, rfl⟩ := Eval.finally_eq_ok_iff.mp same
        exact ⟨_, last, ran, rfl⟩
    case h_2 => cases ran
    case h_3 => cases ran

namespace Closure

/-- A method that calls the next one with its own arguments and gives its value. -/
def Relays (closure : Closure) : Prop :=
  closure.template.params.isSimple = true ∧
    ∃ name loc, closure.template.body = .callNext (.local_ ⟨0, 0⟩ name) none loc

/-- A method that does nothing. -/
def Idles (closure : Closure) : Prop :=
  closure.template.params.isSimple = true ∧ ∃ value, closure.template.body = .literal value

end Closure

namespace Behavior

/-- The conduct of methods that leave the heap alone and pass on what they get. -/
def relaying (closures : Array Closure) : Conduct where
  good interp := interp.frames.WellFormed ∧ interp.heap.closures = closures
  opens _ arguments passed before after := passed = arguments ∧ after.heap = before.heap
  closes _ result before value after := value = result ∧ after.heap = before.heap
  acts _ _ before after := after.heap = before.heap
  good_entered _ := id
  good_found _ _ := id

theorem quiet_relaying (closures : Array Closure) : (relaying closures).Quiet where
  opens opened := congrArg Heap.continuations opened.2
  closes closed := congrArg Heap.continuations closed.2
  acts acted := congrArg Heap.continuations acted

/-- The first slot of a new frame holds the first argument. -/
theorem localValue_calling {interp : Interp} (wellFormed : interp.frames.WellFormed)
    (counters : Counters) (first : Value) (others : List Value) (env : Option FrameId)
    (name : SymbolId) :
    Evaluate.localValue (some (interp.frames.alloc (first :: others).toArray env).1) ⟨0, 0⟩ name
      (interp.calling counters (first :: others) env) =
        .ok first (interp.calling counters (first :: others) env) := by
  have placed := (wellFormed.alloc_spec (first :: others).toArray env).2
    (interp.frames.alloc (first :: others).toArray env).1
  rw [if_pos rfl] at placed
  have found : (interp.calling counters (first :: others) env).frames.get?
      (some (interp.frames.alloc (first :: others).toArray env).1) 0 0 = some first := by
    simp only [FrameStore.get?, FrameStore.ancestor?, Interp.calling]
    rw [placed]
    rfl
  rw [Evaluate.localValue, found]

theorem performs_of_idles {closures : Array Closure} {index : Nat}
    (idles : (closures.getD index default).Idles) :
    (relaying closures).Performs (.closure index) := by
  obtain ⟨simple, value, body⟩ := idles
  intro fuel next arguments loc start result after ⟨wellFormed, same⟩ ran
  cases fuel with
  | zero => cases ran
  | succ fuel =>
      subst same
      obtain ⟨counters, last, evaluated, rfl⟩ := Call.exists_eval_of_closure_ok rfl simple ran
      rw [body] at evaluated
      cases fuel with
      | zero => cases evaluated
      | succ fuel =>
          cases evaluated
          exact ⟨rfl, (wellFormed.alloc _ _).release _, rfl⟩

theorem forwards_of_relays {closures : Array Closure} {index : Nat}
    (relays : (closures.getD index default).Relays) :
    (relaying closures).Forwards (.closure index) := by
  obtain ⟨simple, name, nextLoc, body⟩ := relays
  intro fuel next arguments loc start result after ⟨wellFormed, same⟩ ran
  cases fuel with
  | zero => cases ran
  | succ fuel =>
      subst same
      obtain ⟨counters, last, evaluated, rfl⟩ := Call.exists_eval_of_closure_ok rfl simple ran
      rw [body] at evaluated
      cases fuel with
      | zero => cases evaluated
      | succ fuel =>
          cases fuel with
          | zero => cases evaluated
          | succ fuel =>
              have slot := localValue_calling wellFormed counters (.nextMethod next) arguments
                (start.heap.closures.getD index default).env name
              have continued :
                  callNext (.ofFuel (fuel + 1)) next none nextLoc _ = .ok result last :=
                (Eval.bind_of_ok slot).symm.trans evaluated
              refine ⟨fuel + 1, none, nextLoc, start.calling counters _ _, result, last, ⟨rfl, rfl⟩,
                ⟨wellFormed.alloc _ _, rfl⟩, rfl, continued, ?_⟩
              rintro ⟨later, kept⟩
              exact ⟨⟨rfl, rfl⟩, later.release _, kept⟩

section Stage

private def pair : Params Expr :=
  { list := [⟨0, .required, none, none⟩, ⟨1, .required, none, none⟩] }

private def passing : Closure :=
  { template := { name := none, params := pair, body := .callNext (.local_ ⟨0, 0⟩ 0) none none }
    env := none }

private def resting : Closure :=
  { template := { name := none, params := pair, body := .literal .null }, env := none }

/-- Three methods that call the next one, and three that do nothing. -/
private def players : Array Closure :=
  #[passing, passing, passing, resting, resting, resting]

private theorem abides_players {sets : List (MethodSet Value)}
    (entries : ∀ methods ∈ sets, ∀ method, methods.around = some method ∨
      methods.primary = some method → ∃ index < 3, method = .closure index)
    (others : ∀ methods ∈ sets, ∀ method, methods.before = some method ∨
      methods.after = some method → ∃ index, 3 ≤ index ∧ index < 6 ∧ method = .closure index) :
    (relaying players).Abides sets where
  forwards := by
    intro methods member method found
    obtain ⟨index, few, rfl⟩ := entries methods member method found
    have played : players.getD index default = passing := by
      obtain rfl | rfl | rfl : index = 0 ∨ index = 1 ∨ index = 2 := by omega
      all_goals rfl
    refine forwards_of_relays ?_
    rw [played]
    exact ⟨rfl, 0, none, rfl⟩
  performs := by
    intro methods member method found
    obtain ⟨index, many, few, rfl⟩ := others methods member method found
    have played : players.getD index default = resting := by
      obtain rfl | rfl | rfl : index = 3 ∨ index = 4 ∨ index = 5 := by omega
      all_goals rfl
    refine performs_of_idles ?_
    rw [played]
    exact ⟨rfl, .null, rfl⟩

/-- An instance of a class in a class space. -/
private def stage (classes : ClassSpace SlotDefault Value) : Interp :=
  { classes, heap := { closures := players, objects := #[{ membership := { nominal := 1 } }] } }

/-- A class below the root class, both of which have methods. -/
private def troupe : ClassSpace SlotDefault Value :=
  ((((((({} : ClassSpace SlotDefault Value).define "A" [] []).2
    |>.addBehavior 1 "f" .around (.closure 0))
    |>.addBehavior 1 "f" .primary (.closure 1))
    |>.addBehavior 0 "f" .primary (.closure 2))
    |>.addBehavior 1 "f" .before (.closure 3))
    |>.addBehavior 0 "f" .before (.closure 4))
    |>.addBehavior 1 "f" .after (.closure 5)

private theorem troupe_sets : troupe.methodSets 1 "f" =
    [{ primary := some (.closure 1), before := some (.closure 3), after := some (.closure 5),
       around := some (.closure 0) },
     { primary := some (.closure 2), before := some (.closure 4) }] := by
  rfl

private theorem troupe_abides : (relaying players).Abides (troupe.methodSets 1 "f") :=
  abides_players (by simp [troupe_sets, or_imp, forall_and])
    (by simp [troupe_sets, or_imp, forall_and])

private theorem troupe_reachable : troupe.Reachable :=
  .addBehavior (.addBehavior (.addBehavior (.addBehavior (.addBehavior (.addBehavior
    (.define .new "A" [] []) 1 "f" .around _) 1 "f" .primary _) 0 "f" .primary _)
    1 "f" .before _) 0 "f" .before _) 1 "f" .after _

private def continuationsOf? : EStateM.Result Stop Interp Value → Option Nat
  | .ok _ after => some after.heap.continuations.size
  | .error .. => none

/-- Six methods of two classes are entered one after the other. -/
theorem invoke_combines_methods_of_two_classes :
    ∃ chain found value after passed,
      chainFor (.object 0) "f" (stage troupe) = .ok (some chain) found ∧
      invoke (.ofFuel 40) "f" [.object 0] none (stage troupe) = .ok value after ∧
      passed 0 = [.object 0] ∧
      Path (relaying players) (script chain passed (troupe.methodSets 1 "f")) .null found value
        after ∧
      after.heap.continuations.size = 6 := by
  have reachable : (stage troupe).classes.Reachable := troupe_reachable
  have member : classOf? (stage troupe).heap ([Value.object 0].headD .null) = some 1 := rfl
  have called : ∃ methods ∈ troupe.methodSets 1 "f",
      methods.around.isSome ∨ methods.primary.isSome := by
    rw [troupe_sets]
    exact ⟨_, List.mem_cons_self, .inl rfl⟩
  obtain ⟨chain, found, _, sought, _, succeeds⟩ :=
    invoke_combines_methods reachable member (.inl rfl) called troupe_abides
      ⟨FrameStore.wellFormed_empty, rfl⟩ 40 none
  have entered : continuationsOf? (invoke (.ofFuel 40) "f" [.object 0] none (stage troupe)) =
      some 6 := by
    decide +kernel
  cases ran : invoke (.ofFuel 40) "f" [.object 0] none (stage troupe) with
  | error stop after =>
      rw [ran] at entered
      cases entered
  | ok value after =>
      rw [ran] at entered
      obtain ⟨passed, same, path, _, _⟩ := succeeds value after ran
      exact ⟨chain, found, value, after, passed, sought, rfl, same, path,
        Option.some.inj entered⟩

/-- A class with a method that was called before the root class got one. -/
private def outdated : ClassSpace SlotDefault Value :=
  (((({} : ClassSpace SlotDefault Value).define "A" [] []).2
    |>.addBehavior 1 "f" .primary (.closure 1))
    |>.chain 1 "f").2.2.addBehavior 0 "f" .before (.closure 4)

private theorem outdated_sets : outdated.methodSets 1 "f" =
    [{ primary := some (.closure 1) }, { before := some (.closure 4) }] := by
  rfl

private theorem outdated_abides : (relaying players).Abides (outdated.methodSets 1 "f") :=
  abides_players (by simp [outdated_sets]) (by simp [outdated_sets])

private theorem outdated_reachable : outdated.Reachable :=
  .addBehavior (.chain (.addBehavior (.define .new "A" [] []) 1 "f" .primary _) 1 "f") 0 "f"
    .before _

/-- A before method that the root class got after the class was asked for its chain is not entered:
only one of the two methods along the linearization is. -/
theorem root_method_not_combined :
    (stage outdated).classes.Reachable ∧
      classOf? (stage outdated).heap (.object 0) = some 1 ∧
      (∃ methods ∈ outdated.methodSets 1 "f", methods.around.isSome ∨ methods.primary.isSome) ∧
      (relaying players).Abides (outdated.methodSets 1 "f") ∧
      (relaying players).good (stage outdated) ∧
      ∃ value after, invoke (.ofFuel 40) "f" [.object 0] none (stage outdated) = .ok value after ∧
        ¬ ∃ chain found passed, chainFor (.object 0) "f" (stage outdated) = .ok chain found ∧
          Path (relaying players)
            (script (.ofSets "f" (outdated.methodSets 1 "f")) passed (outdated.methodSets 1 "f"))
            .null found value after := by
  refine ⟨outdated_reachable, rfl, ?_, outdated_abides, ⟨FrameStore.wellFormed_empty, rfl⟩, ?_⟩
  · rw [outdated_sets]
    exact ⟨_, List.mem_cons_self, .inr rfl⟩
  · have entered : continuationsOf? (invoke (.ofFuel 40) "f" [.object 0] none (stage outdated)) =
        some 1 := by
      decide +kernel
    cases ran : invoke (.ofFuel 40) "f" [.object 0] none (stage outdated) with
    | error stop after =>
        rw [ran] at entered
        cases entered
    | ok value after =>
        rw [ran] at entered
        refine ⟨value, after, rfl, ?_⟩
        rintro ⟨chain, found, passed, sought, path⟩
        have log := congrArg List.length (path.continuations_eq (quiet_relaying players))
        have one : after.heap.continuations.size = 1 := Option.some.inj entered
        have two : ((script (.ofSets "f" (outdated.methodSets 1 "f")) passed
            (outdated.methodSets 1 "f")).filterMap Event.continuation?).length = 2 := by
          rw [outdated_sets]
          rfl
        rw [List.length_append, Array.length_toList, one, two] at log
        omega

end Stage

end Behavior

end ObjectLisp
