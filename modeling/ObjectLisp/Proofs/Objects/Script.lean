import ObjectLisp.Interp.Run
import ObjectLisp.Proofs.Evaluation.Outcome

/-!
# The order in which methods are entered

A call of a behavior enters methods one after the other: the around methods, then
the before methods, then the primary methods.  The way back leads through the
primary methods, the after methods and the around methods in the opposite order.
This rests on methods that call the next one exactly once.

Which way a call takes is told by a position in the list of around and primary
methods, so the order is proved by induction on what is left of this list.
-/

namespace ObjectLisp

/-! ## Continuations -/

namespace Continuation

variable {μ : Type}

/-- The around or primary method that the next call enters. -/
def target? (next : Continuation μ) : Option μ :=
  next.cursor.bind (next.chain.entries[·]?)

theorem hasNext_eq_isSome_target? (next : Continuation μ) :
    next.hasNext = next.target?.isSome := by
  unfold hasNext target?
  cases next.cursor with
  | none => rfl
  | some position =>
      rw [Option.bind_some, Bool.eq_iff_iff, decide_eq_true_iff, Option.isSome_iff_ne_none, ne_eq,
        List.getElem?_eq_none_iff, Nat.not_le]

end Continuation

/-- The state in which a method is entered with a continuation. -/
def Interp.entered (interp : Interp) (next : Continuation Value) : Interp :=
  { interp with heap := (interp.heap.newContinuation next).2 }

theorem Interp.getElem?_entered (interp : Interp) (next : Continuation Value) :
    (interp.entered next).heap.continuations[interp.heap.continuations.size]? = some next :=
  Array.getElem?_push_size

namespace Behavior

/-! ## What happens in a call -/

/-- Something that happens in a call of a behavior. -/
inductive Event where
  /-- A method is entered with a continuation. -/
  | enter (method : Value) (next : Continuation Value)
  /-- A method goes on until it calls the next one with arguments. -/
  | opens (method : Value) (arguments passed : List Value)
  /-- A method goes on from the value of the next one to its end. -/
  | closes (method : Value)
  /-- A method runs that does not call the next one. -/
  | acts (method : Value) (arguments : List Value)

/-- The continuation with which a method is entered. -/
def Event.continuation? : Event → Option (Continuation Value)
  | .enter _ next => some next
  | _ => none

/-- What the methods of a behavior do apart from calling each other, in states that they can cope
with. -/
structure Conduct where
  good : Interp → Prop
  /-- From being entered with arguments to calling the next method with others. -/
  opens : Value → (arguments passed : List Value) → (before after : Interp) → Prop
  /-- From the value of the next method to the value of this one. -/
  closes : Value → (result : Value) → (before : Interp) → (value : Value) → (after : Interp) → Prop
  /-- From being entered to the end. -/
  acts : Value → (arguments : List Value) → (before after : Interp) → Prop
  good_entered : ∀ {interp : Interp} (next : Continuation Value),
    good interp → good (interp.entered next)
  good_found : ∀ {interp : Interp} (classes : ClassSpace SlotDefault Value) (counters : Counters),
    good interp → good { interp with classes, counters }

namespace Conduct

/-- A method calls the next method exactly once. -/
def Forwards (conduct : Conduct) (method : Value) : Prop :=
  ∀ (fuel index : Nat) (arguments : List Value) (loc : Option SourceLoc) (start : Interp)
    (value : Value) (after : Interp), conduct.good start →
    (Engine.ofFuel fuel).apply method (.nextMethod index :: arguments) loc start =
      .ok value after →
    ∃ inner given nextLoc middle result last,
      conduct.opens method arguments (given.getD arguments) start middle ∧ conduct.good middle ∧
      middle.heap.continuations[index]? = start.heap.continuations[index]? ∧
      callNext (.ofFuel inner) index given nextLoc middle = .ok result last ∧
      (conduct.good last → conduct.closes method result last value after ∧ conduct.good after)

/-- A method runs to its end without calling the next one. -/
def Performs (conduct : Conduct) (method : Value) : Prop :=
  ∀ (fuel index : Nat) (arguments : List Value) (loc : Option SourceLoc) (start : Interp)
    (value : Value) (after : Interp), conduct.good start →
    (Engine.ofFuel fuel).apply method (.nextMethod index :: arguments) loc start =
      .ok value after →
    conduct.acts method arguments start after ∧ conduct.good after

/-- Around and primary methods call the next method once, before and after methods do not. -/
structure Abides (conduct : Conduct) (sets : List (MethodSet Value)) : Prop where
  forwards : ∀ methods ∈ sets, ∀ method, methods.around = some method ∨
    methods.primary = some method → conduct.Forwards method
  performs : ∀ methods ∈ sets, ∀ method, methods.before = some method ∨
    methods.after = some method → conduct.Performs method

/-- Methods make no other continuations than those that they are entered with. -/
structure Quiet (conduct : Conduct) : Prop where
  opens : ∀ {method arguments passed before after},
    conduct.opens method arguments passed before after →
      after.heap.continuations = before.heap.continuations
  closes : ∀ {method result before value after},
    conduct.closes method result before value after →
      after.heap.continuations = before.heap.continuations
  acts : ∀ {method arguments before after},
    conduct.acts method arguments before after →
      after.heap.continuations = before.heap.continuations

end Conduct

/-- One event, with the value of the method that ended last. -/
inductive Step (conduct : Conduct) : Event → Value → Interp → Value → Interp → Prop where
  | enter {value : Value} {interp : Interp} (method : Value) (next : Continuation Value) :
      Step conduct (.enter method next) value interp value (interp.entered next)
  | opens {method value : Value} {arguments passed : List Value} {before after : Interp}
      (opened : conduct.opens method arguments passed before after) :
      Step conduct (.opens method arguments passed) value before value after
  | closes {method result value : Value} {before after : Interp}
      (closed : conduct.closes method result before value after) :
      Step conduct (.closes method) result before value after
  | acts {method value : Value} {arguments : List Value} {before after : Interp}
      (acted : conduct.acts method arguments before after) :
      Step conduct (.acts method arguments) value before value after

/-- Events one after the other. -/
inductive Path (conduct : Conduct) : List Event → Value → Interp → Value → Interp → Prop where
  | nil {value : Value} {interp : Interp} : Path conduct [] value interp value interp
  | cons {event : Event} {events : List Event} {first second third : Value}
      {before middle after : Interp} (step : Step conduct event first before second middle)
      (rest : Path conduct events second middle third after) :
      Path conduct (event :: events) first before third after

namespace Path

variable {conduct : Conduct} {events more : List Event} {first second third : Value}
  {before middle after : Interp}

theorem append (front : Path conduct events first before second middle)
    (back : Path conduct more second middle third after) :
    Path conduct (events ++ more) first before third after := by
  induction front with
  | nil => exact back
  | cons step _ ih => exact .cons step (ih back)

/-- The continuations that are made are those with which methods are entered. -/
theorem continuations_eq (quiet : conduct.Quiet)
    (path : Path conduct events first before third after) :
    after.heap.continuations.toList =
      before.heap.continuations.toList ++ events.filterMap Event.continuation? := by
  induction path with
  | nil => simp
  | cons step _ ih =>
      cases step with
      | enter method next =>
          rw [ih]
          simp [Interp.entered, Heap.newContinuation, Event.continuation?]
      | opens opened =>
          rw [ih, quiet.opens opened]
          rfl
      | closes closed =>
          rw [ih, quiet.closes closed]
          rfl
      | acts acted =>
          rw [ih, quiet.acts acted]
          rfl

end Path

/-- Methods are entered one inside the other, from a position on.  `passed` are the arguments with
which each is called. -/
def descent (chain : MethodChain Value) (passed : Nat → List Value) (position : Nat) :
    List Value → List Event
  | [] => []
  | method :: methods =>
      .enter method { chain, cursor := some (position + 1), arguments := passed 0 } ::
        .opens method (passed 0) (passed 1) ::
          descent chain (fun count => passed (count + 1)) (position + 1) methods

/-- Methods that were entered one inside the other end. -/
def ascent (methods : List Value) : List Event := methods.reverse.map .closes

/-- Methods run one after the other. -/
def visits (chain : MethodChain Value) (arguments : List Value) (methods : List Value) :
    List Event :=
  methods.flatMap fun method =>
    [.enter method { chain, cursor := none, arguments }, .acts method arguments]

/-- The core of a call: the before methods, then the primary methods one inside the other, then the
after methods, the last one first. -/
def coreScript (chain : MethodChain Value) (passed : Nat → List Value)
    (befores primaries afters : List Value) : List Event :=
  visits chain (passed 0) befores ++
    (descent chain passed chain.core primaries ++ ascent primaries) ++
      visits chain (passed 0) afters.reverse

/-- All that happens in a call: the around methods one inside the other, and inside of them the
core. -/
def script (chain : MethodChain Value) (passed : Nat → List Value)
    (sets : List (MethodSet Value)) : List Event :=
  let arounds := sets.filterMap (·.around)
  descent chain passed 0 arounds ++
    coreScript chain (fun count => passed (count + arounds.length)) (sets.filterMap (·.before))
      (sets.filterMap (·.primary)) (sets.filterMap (·.after)) ++
    ascent arounds

/-! ## Calls that give a value -/

section Calls

variable {conduct : Conduct} {chain : MethodChain Value} {fuel : Nat} {method value : Value}
  {arguments : List Value} {loc : Option SourceLoc} {start after : Interp}

theorem callWith_eq (engine : Engine) (method : Value) (next : Continuation Value)
    (arguments : List Value) (loc : Option SourceLoc) (start : Interp) :
    callWith engine method next arguments loc start =
      engine.apply method (.nextMethod start.heap.continuations.size :: arguments) loc
        (start.entered next) :=
  rfl

theorem callNext_of_found {engine : Engine} {index : Nat} {next : Continuation Value}
    (found : start.heap.continuations[index]? = some next) (given : Option (List Value)) :
    callNext engine index given loc start =
      run engine next.chain next.cursor (given.getD next.arguments) loc start := by
  rw [callNext, found]

theorem callAt_of_some {engine : Engine} {position : Nat}
    (found : chain.entries[position]? = some method) :
    callAt engine chain position arguments loc =
      callWith engine method { chain, cursor := some (position + 1), arguments } arguments loc := by
  rw [callAt, found]

theorem callAt_of_none {engine : Engine} {position : Nat}
    (found : chain.entries[position]? = none) :
    callAt engine chain position arguments loc = pure .null := by
  rw [callAt, found]

/-- A method that calls the next one is entered, calls it, and ends.  What happens in between is known
from the arguments that the next methods are given. -/
theorem Conduct.Forwards.path (forwards : conduct.Forwards method) (good : conduct.good start)
    {cursor : Option Nat}
    (called : callWith (.ofFuel fuel) method { chain, cursor, arguments } arguments loc start =
      .ok value after)
    {between : (Nat → List Value) → List Event}
    (continues : ∀ {inner passed nextLoc middle result last}, conduct.good middle →
      run (.ofFuel inner) chain cursor passed nextLoc middle = .ok result last →
        ∃ later, later 0 = passed ∧ Path conduct (between later) .null middle result last ∧
          conduct.good last) :
    ∃ later, Path conduct ([.enter method { chain, cursor, arguments },
        .opens method arguments (later 0)] ++ between later ++ [.closes method]) .null start value
        after ∧
      conduct.good after := by
  rw [callWith_eq] at called
  obtain ⟨inner, given, nextLoc, middle, result, last, opened, goodMiddle, kept, continued,
      closed⟩ :=
    forwards fuel _ arguments loc _ value after (conduct.good_entered _ good) called
  rw [start.getElem?_entered] at kept
  rw [callNext_of_found kept] at continued
  obtain ⟨later, passed, path, goodLast⟩ := continues goodMiddle continued
  obtain ⟨closed, goodAfter⟩ := closed goodLast
  have ending := path.append (.cons (.closes closed) .nil)
  rw [← passed] at opened
  exact ⟨later, .cons (.enter method _) (.cons (.opens opened) ending), goodAfter⟩

/-- Methods that run for their effects run one after the other. -/
theorem path_callAll {methods : List Value} (performs : ∀ method ∈ methods, conduct.Performs method)
    (good : conduct.good start)
    (called : callAll (.ofFuel fuel) chain arguments loc methods start = .ok () after) :
    (∀ earlier, Path conduct (visits chain arguments methods) earlier start earlier after) ∧
      conduct.good after := by
  induction methods generalizing start with
  | nil =>
      cases called
      exact ⟨fun _ => .nil, good⟩
  | cons method methods ih =>
      obtain ⟨first, others⟩ := List.forall_mem_cons.mp performs
      rw [callAll, Eval.bind_eq_ok_iff] at called
      obtain ⟨value, middle, ran, called⟩ := called
      rw [callWith_eq] at ran
      obtain ⟨acted, goodMiddle⟩ :=
        first fuel _ arguments loc _ value middle (conduct.good_entered _ good) ran
      obtain ⟨path, goodAfter⟩ := ih others goodMiddle called
      exact ⟨fun earlier => .cons (.enter method _) (.cons (.acts acted) (path earlier)), goodAfter⟩

/-- Arguments in front of others. -/
def follow (first : List Value) (others : Nat → List Value) : Nat → List Value
  | 0 => first
  | count + 1 => others count

theorem ascent_cons (method : Value) (methods : List Value) :
    ascent (method :: methods) = ascent methods ++ [.closes method] := by
  simp [ascent]

/-- The primary methods from a position on run one inside the other.  Past the last one the value is
null. -/
theorem path_callAt {primaries front : List Value} (entries : chain.entries = front ++ primaries)
    (beyond : chain.core ≤ front.length) (forwards : ∀ method ∈ primaries, conduct.Forwards method)
    (good : conduct.good start)
    (called : callAt (.ofFuel fuel) chain front.length arguments loc start = .ok value after) :
    ∃ passed, passed 0 = arguments ∧
      Path conduct (descent chain passed front.length primaries ++ ascent primaries) .null start
        value after ∧
      conduct.good after := by
  induction primaries generalizing front fuel arguments loc start value after with
  | nil =>
      rw [callAt_of_none (by simp [entries])] at called
      cases called
      exact ⟨fun _ => arguments, rfl, .nil, good⟩
  | cons method primaries ih =>
      obtain ⟨first, others⟩ := List.forall_mem_cons.mp forwards
      have here : chain.entries[front.length]? = some method := by simp [entries]
      have rest : chain.entries = (front ++ [method]) ++ primaries := by simp [entries]
      have next : (front ++ [method]).length = front.length + 1 := by simp
      rw [callAt_of_some here] at called
      obtain ⟨later, path, goodAfter⟩ := first.path good called fun goodMiddle continued => by
        rw [run, if_neg (by omega), ← next] at continued
        exact ih rest (by omega) others goodMiddle continued
      refine ⟨follow arguments later, rfl, ?_, goodAfter⟩
      rw [next, List.append_assoc, List.append_assoc, ← ascent_cons] at path
      exact path

/-- The core of a call. -/
theorem path_runCore {arounds primaries : List Value}
    (entries : chain.entries = arounds ++ primaries)
    (core : chain.core = arounds.length) (forwards : ∀ method ∈ primaries, conduct.Forwards method)
    (befores : ∀ method ∈ chain.befores, conduct.Performs method)
    (afters : ∀ method ∈ chain.afters, conduct.Performs method) (good : conduct.good start)
    (called : runCore (.ofFuel fuel) chain arguments loc start = .ok value after) :
    ∃ passed, passed 0 = arguments ∧
      Path conduct (coreScript chain passed chain.befores primaries chain.afters.reverse) .null
        start value after ∧
      conduct.good after := by
  rw [runCore, Eval.bind_eq_ok_iff] at called
  obtain ⟨_, first, before, called⟩ := called
  rw [Eval.bind_eq_ok_iff] at called
  obtain ⟨result, second, main, called⟩ := called
  rw [Eval.bind_eq_ok_iff] at called
  obtain ⟨_, _, behind, ⟨⟩⟩ := called
  obtain ⟨front, good⟩ := path_callAll befores good before
  rw [core] at main
  obtain ⟨passed, rfl, middle, good⟩ := path_callAt entries (by omega) forwards good main
  obtain ⟨back, good⟩ := path_callAll afters good behind
  refine ⟨passed, rfl, ?_, good⟩
  rw [coreScript, List.reverse_reverse, core]
  exact ((front .null).append middle).append (back value)

/-- A whole call, from an around method on. -/
theorem path_run {front arounds primaries : List Value}
    (entries : chain.entries = front ++ arounds ++ primaries)
    (core : chain.core = (front ++ arounds).length)
    (forwards : ∀ method ∈ arounds ++ primaries, conduct.Forwards method)
    (befores : ∀ method ∈ chain.befores, conduct.Performs method)
    (afters : ∀ method ∈ chain.afters, conduct.Performs method) (good : conduct.good start)
    (called : run (.ofFuel fuel) chain (some front.length) arguments loc start = .ok value after) :
    ∃ passed, passed 0 = arguments ∧
      Path conduct (descent chain passed front.length arounds ++
        coreScript chain (fun count => passed (count + arounds.length)) chain.befores primaries
          chain.afters.reverse ++ ascent arounds) .null start value after ∧
      conduct.good after := by
  induction arounds generalizing front fuel arguments loc start value after with
  | nil =>
      rw [List.append_nil] at entries core
      rw [run, if_pos core.symm] at called
      obtain ⟨passed, same, path, goodAfter⟩ :=
        path_runCore entries core forwards befores afters good called
      refine ⟨passed, same, ?_, goodAfter⟩
      rw [descent, List.nil_append, ascent, List.reverse_nil, List.map_nil, List.append_nil]
      exact path
  | cons method arounds ih =>
      obtain ⟨first, others⟩ := List.forall_mem_cons.mp forwards
      have here : chain.entries[front.length]? = some method := by simp [entries]
      have rest : chain.entries = (front ++ [method]) ++ arounds ++ primaries := by simp [entries]
      have next : (front ++ [method]).length = front.length + 1 := by simp
      rw [run, if_neg (by simp [core]), callAt_of_some here] at called
      obtain ⟨later, path, goodAfter⟩ := first.path good called fun goodMiddle continued => by
        rw [← next] at continued
        exact ih rest (by simp [core]) others goodMiddle continued
      refine ⟨follow arguments later, rfl, ?_, goodAfter⟩
      rw [next, List.append_assoc, List.append_assoc, ← ascent_cons] at path
      exact path

end Calls

/-! ## Calls that fail -/

/-- One of some methods fails when it is called. -/
def Fails (engine : Engine) (methods : List Value) (stop : Stop) (after : Interp) : Prop :=
  ∃ method ∈ methods, ∃ arguments loc start,
    engine.apply method arguments loc start = .error stop after

section Failures

variable {engine : Engine} {chain : MethodChain Value} {arguments : List Value}
  {loc : Option SourceLoc} {start after : Interp} {stop : Stop}

theorem Fails.mono {methods more : List Value} (fails : Fails engine methods stop after)
    (subset : methods ⊆ more) : Fails engine more stop after := by
  obtain ⟨method, member, failed⟩ := fails
  exact ⟨method, subset member, failed⟩

theorem fails_of_callAll {methods : List Value}
    (failed : callAll engine chain arguments loc methods start = .error stop after) :
    Fails engine methods stop after := by
  induction methods generalizing start with
  | nil => cases failed
  | cons method methods ih =>
      rw [callAll] at failed
      cases ran : callWith engine method { chain, cursor := none, arguments } arguments loc
          start with
      | error stop middle =>
          rw [Eval.bind_of_error ran] at failed
          cases failed
          exact ⟨method, by simp, _, _, _, ran⟩
      | ok value middle =>
          rw [Eval.bind_of_ok ran] at failed
          exact (ih failed).mono (by simp)

theorem fails_of_callAt {position : Nat}
    (failed : callAt engine chain position arguments loc start = .error stop after) :
    Fails engine chain.entries stop after := by
  cases found : chain.entries[position]? with
  | none =>
      rw [callAt_of_none found] at failed
      cases failed
  | some method =>
      rw [callAt_of_some found] at failed
      exact ⟨method, List.mem_of_getElem? found, _, _, _, failed⟩

theorem fails_of_runCore (failed : runCore engine chain arguments loc start = .error stop after) :
    Fails engine (chain.entries ++ chain.befores ++ chain.afters) stop after := by
  rw [runCore] at failed
  cases before : callAll engine chain arguments loc chain.befores start with
  | error stop middle =>
      rw [Eval.bind_of_error before] at failed
      cases failed
      exact (fails_of_callAll before).mono (by simp)
  | ok _ middle =>
      rw [Eval.bind_of_ok before] at failed
      cases main : callAt engine chain chain.core arguments loc middle with
      | error stop later =>
          rw [Eval.bind_of_error main] at failed
          cases failed
          exact (fails_of_callAt main).mono (by simp)
      | ok value later =>
          rw [Eval.bind_of_ok main] at failed
          cases behind : callAll engine chain arguments loc chain.afters later with
          | error stop last =>
              rw [Eval.bind_of_error behind] at failed
              cases failed
              exact (fails_of_callAll behind).mono (by simp)
          | ok _ last =>
              rw [Eval.bind_of_ok behind] at failed
              cases failed

/-- A call fails only because a method fails. -/
theorem fails_of_run {position : Nat}
    (failed : run engine chain (some position) arguments loc start = .error stop after) :
    Fails engine (chain.entries ++ chain.befores ++ chain.afters) stop after := by
  rw [run] at failed
  split at failed
  · exact fails_of_runCore failed
  · exact (fails_of_callAt failed).mono (by simp)

end Failures

/-! ## Asking for the next method -/

/-- The forms `next-method-p` and `call-next-method` agree about a continuation: the one answers
whether the other enters an around or primary method.  If it does, the value is that method's, and
otherwise it is null. -/
structure Leads (next : Continuation Value) : Prop where
  asked : ∀ (engine : Engine) (expr : Expr) (env : Option FrameId) (index : Nat)
    (start after : Interp), engine.eval expr env start = .ok (.nextMethod index) after →
    after.heap.continuations[index]? = some next →
    Evaluate.eval engine (.hasNext expr) env start = .ok (.bool next.target?.isSome) after
  entered : ∀ (engine : Engine) (index : Nat) (given : Option (List Value))
    (loc : Option SourceLoc) (start after : Interp) (value method : Value),
    start.heap.continuations[index]? = some next → next.target? = some method →
    callNext engine index given loc start = .ok value after →
    ∃ further before last,
      callWith engine method further (given.getD next.arguments) loc before = .ok value last
  ended : ∀ (engine : Engine) (index : Nat) (given : Option (List Value))
    (loc : Option SourceLoc) (start after : Interp) (value : Value),
    start.heap.continuations[index]? = some next → next.target? = none →
    callNext engine index given loc start = .ok value after → value = .null

/-- The value of a call from a position on is that of the method at the position, whatever runs
around it. -/
theorem exists_callAt_of_run {engine : Engine} {chain : MethodChain Value} {position : Nat}
    {arguments : List Value} {loc : Option SourceLoc} {start after : Interp} {value : Value}
    (ran : run engine chain (some position) arguments loc start = .ok value after) :
    ∃ before last, callAt engine chain position arguments loc before = .ok value last := by
  rw [run] at ran
  split at ran
  · next core =>
      subst core
      rw [runCore, Eval.bind_eq_ok_iff] at ran
      obtain ⟨_, before, _, ran⟩ := ran
      rw [Eval.bind_eq_ok_iff] at ran
      obtain ⟨result, last, main, ran⟩ := ran
      rw [Eval.bind_eq_ok_iff] at ran
      obtain ⟨_, _, _, ⟨⟩⟩ := ran
      exact ⟨before, last, main⟩
  · exact ⟨start, after, ran⟩

theorem leads (next : Continuation Value) : Leads next where
  asked := by
    intro engine expr env index start after evaluated found
    have answered : Evaluate.eval engine (.hasNext expr) env start =
        .ok (.bool ((after.heap.continuations[index]?).any Continuation.hasNext)) after :=
      Eval.bind_of_ok evaluated
    rw [answered, found, Option.any_some, Continuation.hasNext_eq_isSome_target?]
  entered := by
    intro engine index given loc start after value method found target ran
    rw [callNext_of_found found] at ran
    obtain ⟨position, atPosition, entry⟩ := Option.bind_eq_some_iff.mp target
    rw [atPosition] at ran
    obtain ⟨before, last, called⟩ := exists_callAt_of_run ran
    rw [callAt_of_some entry] at called
    exact ⟨_, before, last, called⟩
  ended := by
    intro engine index given loc start after value found target ran
    rw [callNext_of_found found] at ran
    cases cursor : next.cursor with
    | none =>
        rw [cursor] at ran
        cases ran
        rfl
    | some position =>
        rw [cursor] at ran
        obtain ⟨before, last, called⟩ := exists_callAt_of_run ran
        rw [Continuation.target?, cursor, Option.bind_some] at target
        rw [callAt_of_none target] at called
        cases called
        rfl

end Behavior

end ObjectLisp
