import ObjectLisp.Proofs.Evaluation.Fuel

/-!
# Backtraces are call stacks

A failure collects its backtrace on the way out: every closure call that it leaves
adds a note, and the evaluation of a text adds one of the form if there are none.
The call stack grows on the way in.  An engine that keeps track of the closure
calls under way, and notes all of them at once where a failure is raised, gives
the same backtraces: nothing that failures pass on their way out, from built-in
functions to the expansion of macros, adds, drops or moves a note.

Only the loading of a text is different, since the forms of that text are noted
too.  The engine that watches calls does not follow it.
-/

namespace ObjectLisp

/-! ## Watching calls -/

/-- A closure call that has begun and not ended. -/
structure ActiveCall where
  closure : Closure
  arguments : List Value
  loc : Option SourceLoc

namespace ActiveCall

/-- Does the call hand over the continuation of a method, to the parameter that hides it? -/
def continues (words : Vocabulary) : ActiveCall → Bool
  | { closure, arguments := .nextMethod _ :: _, .. } =>
      closure.template.params.list.head?.any (·.name = words.nextMethod)
  | _ => false

/-- The note of an active call: its name, its visible arguments and its place. -/
def frame (interp : Interp) (call : ActiveCall) : CallFrame where
  loc := call.loc
  callable := (call.closure.template.name.map interp.symbols.nameOf).getD "lambda"
  arguments := if call.continues interp.words then call.arguments.tail else call.arguments

/-- It is the note that a failure gets when it leaves the call. -/
theorem frame_eq (interp : Interp) (call : ActiveCall) :
    call.frame interp = Call.callFrame interp call.closure call.arguments call.loc := by
  have named : (call.closure.template.name.map interp.symbols.nameOf).getD "lambda" =
      Call.name interp.symbols call.closure := by
    unfold Call.name
    cases call.closure.template.name <;> rfl
  have visible : (if call.continues interp.words then call.arguments.tail else call.arguments) =
      Call.visibleArguments interp.words call.closure call.arguments := by
    obtain ⟨closure, arguments, loc⟩ := call
    have hidden : Call.isMethod interp.words closure =
        closure.template.params.list.head?.any (·.name = interp.words.nextMethod) := by
      unfold Call.isMethod
      cases closure.template.params.list <;> rfl
    unfold Call.visibleArguments continues
    rw [hidden]
    cases arguments with
    | nil => rfl
    | cons first rest => cases first <;> rfl
  unfold frame Call.callFrame
  rw [named, visible]

/-- How the call ends if its body ends so: a failure gets a note. -/
def leave (call : ActiveCall) : EStateM.Result Stop Interp Value → EStateM.Result Stop Interp Value
  | .ok value interp => .ok value { interp with depth := interp.depth - 1 }
  | .error (.failure failure) interp =>
      .error (.failure
          (failure.addCall (Call.callFrame interp call.closure call.arguments call.loc)))
        { interp with depth := interp.depth - 1 }
  | .error .spent interp => .error .spent { interp with depth := interp.depth - 1 }

end ActiveCall

/-- The failure that is raised while calls are active, the innermost of which comes first. -/
def Failure.under (interp : Interp) (active : List ActiveCall) (cause : Cause) : Failure where
  cause
  calls := (active.map (·.frame interp)).reverse

/-- Note the active calls where a failure is raised.  One that has notes was raised further
inside. -/
def Eval.watch {α : Type} (active : List ActiveCall) (action : Eval α) : Eval α := fun interp =>
  match action interp with
  | .error (.failure { cause, calls := [] }) after =>
      .error (.failure (.under after active cause)) after
  | result => result

/-- Call a closure.  The call is active from the time when the depth allows it until it returns, and
its body runs with the engine for the active calls. -/
def Call.watched (inside : ActiveCall → Engine) (active : List ActiveCall) (index : Nat)
    (arguments : List Value) (loc : Option SourceLoc) : Eval Value := fun interp =>
  if interp.config.maxDepth ≤ interp.depth then
    .error (.failure (.under interp active (.depthExceeded interp.config.maxDepth))) interp
  else
    let call : ActiveCall := { closure := interp.closure index, arguments, loc }
    let body := Call.body (inside call) call.closure arguments
    Eval.finally_ (body.watch (call :: active)) Interp.shallower interp.deeper

/-- The engine that keeps track of the active calls. -/
def Engine.watched : Nat → List ActiveCall → Engine
  | 0, _ => empty
  | fuel + 1, active =>
      { fuel
        analyze := fun form context =>
          (Analysis.analyze (watched fuel active) form context).watch active
        eval := fun expr env => (Evaluate.eval (watched fuel active) expr env).watch active
        apply := fun function arguments loc =>
          match function with
          | .closure index =>
              Call.watched (fun call => watched fuel (call :: active)) active index arguments loc
          | .primitive .load => throw .spent
          | _ => (Call.value (watched fuel active) function arguments loc).watch active }

/-! ## Programs that load nothing -/

/-- The detour that gives up instead of loading a text. -/
def Detour.unloading : Detour where
  analyze _ _ _ := none
  eval _ _ _ := none
  apply function _ _ interp :=
    match function with
    | .primitive .load => some (.error .spent interp)
    | _ => none

namespace Source

/-- Reading and evaluating the forms of a text one by one, from a line on, comes to a datum, with
the line behind it and the state in which it is evaluated. -/
inductive ComesTo (engine : Engine) (file : String) (datum : Datum) (line : Nat)
    (reached : Interp) : (start : Nat) → List Char → Interp → Prop where
  | here {start : Nat} {chars rest : List Char} {interp : Interp} {symbols : SymbolStore}
      (read : Reader.next interp.table interp.package interp.symbols start chars =
        .datum datum rest line symbols)
      (same : reached = { interp with symbols }) : ComesTo engine file datum line reached start
        chars interp
  | later {start next : Nat} {chars rest : List Char} {interp middle : Interp}
      {symbols : SymbolStore} {first : Datum} {value : Value}
      (read : Reader.next interp.table interp.package interp.symbols start chars =
        .datum first rest next symbols)
      (ran : evalDatum engine file first next { interp with symbols } = .ok value middle)
      (comes : ComesTo engine file datum line reached next rest middle) :
      ComesTo engine file datum line reached start chars interp

/-- The evaluation of a text never comes to load another one: it does not give up there. -/
def LoadsNothing (fuel : Nat) (file text : String) (interp : Interp) : Prop :=
  ∀ after, evalText (.detoured .unloading fuel) file text interp ≠ .error .spent after

end Source

/-! ## Engines that differ in how they stop -/

/-! ### Giving up -/

namespace Regime.quitting

theorem engines (fuel : Nat) :
    Regime.quitting.Engines (.ofFuel fuel) (.detoured .unloading fuel) := by
  induction fuel with
  | zero => exact engines_empty
  | succ fuel ih =>
      have stepped := ih.step quitting_exact free_open (.refl fuel)
      refine { stepped with apply := ?_ }
      intro interp function arguments loc good functionFits fits
      have called := stepped.apply loc good functionFits fits
      cases function with
      | primitive primitive =>
          cases primitive with
          | load => exact .quit trivial called.ends
          | _ => exact called
      | _ => exact called

end Regime.quitting

namespace Source

variable {fuel : Nat} {file : String}

/-- Without loading, the evaluation of a form gives up or stays the same. -/
theorem evalDatum_unloading (datum : Datum) (line : Nat) (interp : Interp) :
    evalDatum (.detoured .unloading fuel) file datum line interp =
        evalDatum (.ofFuel fuel) file datum line interp ∨
      ∃ after, evalDatum (.detoured .unloading fuel) file datum line interp =
        .error .spent after := by
  have good : Regime.quitting.Good interp := trivial
  have names : ∀ id ∈ datum.symbols, Regime.quitting.Fit interp (.symbol id) :=
    fun _ _ => trivial
  have carries := evalDatum_carries (Regime.quitting.engines fuel) good Regime.quitting_exact file
    line names
  rcases Regime.quitting_exact.eq_or_quits carries with same | ⟨_, gaveUp⟩
  · exact .inl same
  · exact .inr gaveUp

/-- A text that fails, but can be read and loads nothing, fails at one of its forms, which loads
nothing either. -/
theorem comesTo_of_evalForms {bound start : Nat} {chars : List Char} {last : Value}
    {interp after : Interp} {failure : Failure}
    (fails : evalForms (.ofFuel fuel) file bound start chars last interp =
      .error (.failure failure) after)
    (readable : ∀ problem, failure.cause ≠ .unreadable problem)
    (loadsNothing : ∀ after, evalForms (.detoured .unloading fuel) file bound start chars last
      interp ≠ .error .spent after) :
    ∃ datum line reached, ComesTo (.ofFuel fuel) file datum line reached start chars interp ∧
      evalDatum (.detoured .unloading fuel) file datum line reached =
        .error (.failure failure) after := by
  induction bound generalizing start chars last interp with
  | zero => cases fails
  | succ bound ih =>
      unfold evalForms at fails loadsNothing
      cases read : Reader.next interp.table interp.package interp.symbols start chars with
      | finished line symbols =>
          rw [read] at fails
          cases fails
      | failed problem line symbols =>
          rw [read] at fails
          cases fails
          exact absurd rfl (readable _)
      | datum datum rest line symbols =>
          rw [read] at fails loadsNothing
          dsimp only at fails loadsNothing
          rcases evalDatum_unloading datum line { interp with symbols } with same | ⟨_, gaveUp⟩
          · rw [same] at loadsNothing
            cases ran : evalDatum (.ofFuel fuel) file datum line { interp with symbols } with
            | ok value middle =>
                rw [ran] at fails loadsNothing
                obtain ⟨datum', line', reached, comes, fails⟩ := ih fails loadsNothing
                exact ⟨datum', line', reached, .later read ran comes, fails⟩
            | error stop middle =>
                rw [ran] at fails
                exact ⟨datum, line, _, .here read rfl, same.trans (ran.trans fails)⟩
          · rw [gaveUp] at loadsNothing
            exact absurd rfl (loadsNothing _)

end Source

/-! ### Watching calls -/

namespace Failure

theorem frames_under (interp : Interp) (active : List ActiveCall) (cause : Cause) :
    (Failure.under interp active cause).frames = active.map (·.frame interp) :=
  List.reverse_reverse _

theorem under_same {before after : Interp} (same : before.SameData after)
    (active : List ActiveCall) (cause : Cause) :
    Failure.under after active cause = Failure.under before active cause := by
  have frame : ActiveCall.frame after = ActiveCall.frame before := by
    funext call
    simp only [ActiveCall.frame, same.symbols, same.words]
  simp only [Failure.under, frame]

/-- A note of the call that is left is one more active call, the outermost so far. -/
theorem addCall_under (interp : Interp) (inner : List ActiveCall) (cause : Cause)
    (call : ActiveCall) :
    (Failure.under interp inner cause).addCall (call.frame interp) =
      Failure.under interp (inner ++ [call]) cause := by
  simp [Failure.under, Failure.addCall]

end Failure

/-- A failure on its way out, and the same failure with all active calls: those inside, and those
around.  It may not have been noted yet. -/
inductive Watched (active : List ActiveCall) (interp : Interp) : Stop → Stop → Prop where
  | spent : Watched active interp .spent .spent
  | raised (cause : Cause) : Watched active interp (.failure { cause }) (.failure { cause })
  | noted (cause : Cause) (inner : List ActiveCall) :
      Watched active interp (.failure (.under interp inner cause))
        (.failure (.under interp (inner ++ active) cause))

theorem Watched.same {active : List ActiveCall} {before after : Interp} {stop stop' : Stop}
    (same : before.SameData after) (watched : Watched active before stop stop') :
    Watched active after stop stop' := by
  cases watched with
  | spent => exact .spent
  | raised cause => exact .raised cause
  | noted cause inner =>
      rw [← Failure.under_same same, ← Failure.under_same same]
      exact .noted cause inner

/-- The failures of the second engine have the calls around too. -/
def Regime.watching (active : List ActiveCall) : Regime := .free (Watched active) False

instance Regime.watching_lawful (active : List ActiveCall) : (Regime.watching active).Lawful :=
  free_lawful (fun _ cause => .raised cause) (fun _ => .spent) Watched.same

namespace Regime.watching

variable {active : List ActiveCall} {α : Type} {fits : Interp → α → Prop} {interp : Interp}

/-- Results that match once the failure has been noted. -/
inductive Noted (active : List ActiveCall) (fits : Interp → α → Prop) :
    EStateM.Result Stop Interp α → EStateM.Result Stop Interp α → Prop where
  | ok {value : α} {after : Interp} (fit : fits after value) :
      Noted active fits (.ok value after) (.ok value after)
  | spent (after : Interp) : Noted active fits (.error .spent after) (.error .spent after)
  | failure (cause : Cause) (inner : List ActiveCall) (after : Interp) :
      Noted active fits (.error (.failure (.under after inner cause)) after)
        (.error (.failure (.under after (inner ++ active) cause)) after)

theorem Noted.matches_ {result twin : EStateM.Result Stop Interp α}
    (noted : Noted active fits result twin) :
    (Regime.watching active).Matches fits interp result twin := by
  cases noted with
  | ok fit => exact .ok ⟨trivial, trivial⟩ fit
  | spent after => exact .error ⟨trivial, trivial⟩ .spent
  | failure cause inner after => exact .error ⟨trivial, trivial⟩ (.noted cause inner)

/-- Where a failure is raised, no call inside is active; where it was raised further inside, the
notes are complete. -/
theorem noted_watch {action other : Eval α}
    (carries : (Regime.watching active).Carries action other fits interp) :
    Noted active fits (action interp) (other.watch active interp) := by
  unfold Carries at carries
  unfold Eval.watch
  generalize action interp = result at carries ⊢
  generalize other interp = twin at carries ⊢
  cases carries with
  | ok step fit => exact .ok fit
  | @error stop stop' after step stops =>
      cases stops with
      | spent => exact .spent after
      | raised cause => exact .failure cause [] after
      | noted cause inner =>
          rcases List.eq_nil_or_concat (inner ++ active) with none | ⟨calls, outermost, some⟩
          · obtain ⟨rfl, rfl⟩ := List.append_eq_nil_iff.mp none
            exact .failure cause [] after
          · have noted := @Noted.failure α active fits cause inner after
            rw [some] at noted ⊢
            simpa [Failure.under] using noted
  | quit quits => exact quits.elim

/-- A failure that leaves a call gets a note of it; under watch the call was active all the time. -/
theorem noted_closure {engine : Engine} {inside : ActiveCall → Engine} (index : Nat)
    (arguments : List Value) (loc : Option SourceLoc)
    (engines : ∀ call, (Regime.watching (call :: active)).Engines engine (inside call)) :
    Noted active (Regime.watching active).Fit (Call.closure engine index arguments loc interp)
      (Call.watched inside active index arguments loc interp) := by
  unfold Call.closure Call.watched
  split
  · exact .failure _ [] interp
  · next shallow =>
      let call : ActiveCall := { closure := interp.closure index, arguments, loc }
      have carries := Call.body_deeper_carries (engines call) trivial index
        (fun _ _ => trivial : ∀ argument ∈ arguments, _) (Nat.lt_of_not_le shallow)
      have noted := noted_watch carries
      change Noted (call :: active) _ (Call.body engine call.closure arguments interp.deeper) _
        at noted
      change Noted active _
        (call.leave (Call.body engine call.closure arguments interp.deeper)) (Eval.finally_ _ _ _)
      unfold Eval.finally_
      generalize Call.body engine call.closure arguments interp.deeper = result at noted ⊢
      generalize Eval.watch (call :: active) _ interp.deeper = twin at noted ⊢
      cases noted with
      | ok fit => exact .ok trivial
      | spent after => exact .spent after.shallower
      | failure cause inner after =>
          have both := @Noted.failure Value active (Regime.watching active).Fit cause
            (inner ++ [call]) after.shallower
          rw [Failure.under_same after.sameData_shallower, Failure.under_same
            after.sameData_shallower, ← Failure.addCall_under, List.append_assoc,
            call.frame_eq] at both
          exact both

/-- With any amount of fuel, the engine that watches calls gives the same results as the one that
gives up loading. -/
theorem engines (fuel : Nat) (active : List ActiveCall) :
    (Regime.watching active).Engines (.detoured .unloading fuel) (.watched fuel active) := by
  induction fuel generalizing active with
  | zero => exact engines_empty
  | succ fuel ih =>
      refine { fuel := .refl fuel, analyze := ?_, eval := ?_, apply := ?_ }
      · intro interp form context good fit
        exact (noted_watch (Analysis.analyze_carries good (ih active) context fit)).matches_
      · intro interp expr env good ready
        exact (noted_watch (Evaluate.eval_carries good (ih active) ready
          fun _ _ _ _ _ => free_open)).matches_
      · intro interp function arguments loc good functionFits fits
        have others := fun closures loads => noted_watch
          (Call.value_carries (ih active) good loc functionFits fits
            (fun _ index name value _ _ => free_open index name value) closures loads)
        cases function with
        | closure index => exact (noted_closure index arguments loc fun call => ih _).matches_
        | primitive primitive =>
            cases primitive with
            | load => exact .error ⟨trivial, trivial⟩ .spent
            | _ => exact (others nofun nofun).matches_
        | _ => exact (others nofun nofun).matches_

end Regime.watching

/-! ## Forms and texts -/

namespace Source

variable {fuel : Nat} {file text : String} {interp after : Interp} {failure : Failure}

/-- The form is noted only where no call was active. -/
theorem noteForm_under (interp : Interp) (form : Value) (loc : SourceLoc)
    (active : List ActiveCall) (cause : Cause) :
    (noteForm interp form loc (.under interp active cause)).cause = cause ∧
      (noteForm interp form loc (.under interp active cause)).frames =
        if active.isEmpty then [formCall interp form loc] else active.map (·.frame interp) := by
  rcases List.eq_nil_or_concat' active with rfl | ⟨calls, outermost, rfl⟩
  · exact ⟨rfl, rfl⟩
  · have noted : noteForm interp form loc (.under interp (calls ++ [outermost]) cause) =
        .under interp (calls ++ [outermost]) cause := by
      simp [noteForm, Failure.under]
    rw [noted, Failure.frames_under]
    simp [Failure.under]

/-- A form that fails and loads nothing fails under watch too, and its backtrace consists of the
calls that are active then. -/
theorem evalDatum_watched {datum : Datum} {line : Nat} {form : Value} {source : SourceMap}
    {heap : Heap} (embedded : interp.heap.embed file datum = (form, source, heap))
    (fails : evalDatum (.detoured .unloading fuel) file datum line interp =
      .error (.failure failure) after) :
    ∃ active, evalForm (.watched fuel []) form source { interp with heap } =
        .error (.failure (.under after active failure.cause)) after ∧
      failure.frames =
        if active.isEmpty then [formCall after form ((source.find? form).getD ⟨file, line⟩)]
        else active.map (·.frame after) := by
  have good : (Regime.watching []).Good interp := trivial
  have names : ∀ id ∈ datum.symbols, (Regime.watching []).Fit interp (.symbol id) :=
    fun _ _ => trivial
  have matching := evalForm_embed_carries (Regime.watching.engines fuel []) good file names
  unfold evalDatum at fails
  rw [embedded] at matching fails
  dsimp only at matching fails
  generalize evalForm (.detoured _ fuel) form source _ = result at fails matching
  generalize evalForm (.watched fuel []) form source _ = twin at matching ⊢
  cases matching with
  | ok => cases fails
  | error step stops =>
      cases stops with
      | spent => cases fails
      | raised cause =>
          cases fails
          exact ⟨[], rfl, rfl⟩
      | noted cause active =>
          cases fails
          obtain ⟨sameCause, frames⟩ := noteForm_under after form
            ((source.find? form).getD ⟨file, line⟩) active cause
          rw [List.append_nil]
          exact ⟨active, by rw [sameCause], frames⟩
  | quit quits => exact quits.elim

section Nested

/-- An interpreter that knows the words of the language and nothing else. -/
private def lettered : Interp :=
  { words := (Vocabulary.install .initial).1
    symbols := (Vocabulary.install .initial).2
    package := PackageId.user }

/-- A call of a function that calls another one, which reads a variable that has no value. -/
private def nested : String := "((lambda (f)\n (f 1))\n (lambda (x) y))"

private def failureOf? : EStateM.Result Stop Interp Value → Option Failure
  | .error (.failure failure) _ => some failure
  | _ => none

private theorem eq_error_of_failureOf? {result : EStateM.Result Stop Interp Value}
    {failure : Failure} (fails : failureOf? result = some failure) :
    ∃ after, result = .error (.failure failure) after := by
  cases result with
  | ok value after => cases fails
  | error stop after =>
      cases stop with
      | failure raised =>
          cases fails
          exact ⟨after, rfl⟩
      | spent => cases fails

/-- What a backtrace shows of a call. -/
private def shown (call : CallFrame) : String × Nat × Option SourceLoc :=
  (call.callable, call.arguments.length, call.loc)

private theorem nested_fails : ∃ failure after,
    evalText (.ofFuel 20) "session" nested lettered = .error (.failure failure) after ∧
      failure.cause = .binding (.unbound "y") ∧
      failure.frames.map shown =
        [("lambda", 1, some ⟨"session", 2⟩), ("lambda", 1, some ⟨"session", 1⟩)] := by
  have seen : (failureOf? (evalText (.ofFuel 20) "session" nested lettered)).map
      (fun failure => (failure.cause, failure.frames.map shown)) =
        some (.binding (.unbound "y"),
          [("lambda", 1, some ⟨"session", 2⟩), ("lambda", 1, some ⟨"session", 1⟩)]) := by
    decide +kernel
  obtain ⟨failure, found, seen⟩ := Option.map_eq_some_iff.mp seen
  obtain ⟨after, ran⟩ := eq_error_of_failureOf? found
  exact ⟨failure, after, ran, congrArg Prod.fst seen, congrArg Prod.snd seen⟩

private theorem nested_loadsNothing : LoadsNothing 20 "session" nested lettered := by
  intro after gaveUp
  have fails :
      (failureOf? (evalText (.detoured .unloading 20) "session" nested lettered)).isSome := by
    decide +kernel
  rw [gaveUp] at fails
  cases fails

end Nested

end Source

end ObjectLisp
