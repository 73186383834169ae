import ObjectLisp.Interp.Run

/-!
# What a run asks for

Every part of the interpreter works with an engine that it is given, so a run is
a function of its engine.  Evaluating a part of an expression, calling a value
and analysing a form are requests to that engine, made in the state of the
moment.

A run reaches a request if the answer to it can matter: some engine that answers
this one request differently, and all others as before, gives the run another
outcome.  Since an answer may also be a failure, which nothing in the interpreter
catches, this holds of every request that is made at all, and of no other.
-/

namespace ObjectLisp

/-- What can be asked of an engine. -/
inductive Request where
  | analyze (form : Value) (context : Context)
  | eval (expr : Expr) (env : Option FrameId)
  | apply (function : Value) (arguments : List Value) (loc : Option SourceLoc)

/-- Answers that stand in for those of an engine, where there are any. -/
structure Detour where
  analyze : Value → Context → Interp → Option (EStateM.Result Stop Interp Expr)
  eval : Expr → Option FrameId → Interp → Option (EStateM.Result Stop Interp Value)
  apply : Value → List Value → Option SourceLoc → Interp →
    Option (EStateM.Result Stop Interp Value)

/-- Act unless there is an outcome already. -/
def Eval.unless {α : Type} (action : Eval α)
    (outcome? : Interp → Option (EStateM.Result Stop Interp α)) : Eval α := fun interp =>
  match outcome? interp with
  | some outcome => outcome
  | none => action interp

/-- The engine with an amount of fuel in which some requests take a detour. -/
def Engine.detoured (detour : Detour) : Nat → Engine
  | 0 => empty
  | fuel + 1 =>
      { fuel
        analyze := fun form context =>
          (Analysis.analyze (detoured detour fuel) form context).unless
            (detour.analyze form context)
        eval := fun expr env =>
          (Evaluate.eval (detoured detour fuel) expr env).unless (detour.eval expr env)
        apply := fun function arguments loc =>
          (Call.value (detoured detour fuel) function arguments loc).unless
            (detour.apply function arguments loc) }

/-- A detour that concerns no request but one, made in one state. -/
structure Detour.Only (detour : Detour) (request : Request) (interp : Interp) : Prop where
  analyze : ∀ form context current, detour.analyze form context current ≠ none →
    request = .analyze form context ∧ interp = current
  eval : ∀ expr env current, detour.eval expr env current ≠ none →
    request = .eval expr env ∧ interp = current
  apply : ∀ function arguments loc current,
    detour.apply function arguments loc current ≠ none →
      request = .apply function arguments loc ∧ interp = current

/-- A run with an amount of fuel reaches a request in a state. -/
def Reaches {α : Type} (run : Engine → Eval α) (fuel : Nat) (start : Interp)
    (request : Request) (interp : Interp) : Prop :=
  ∃ detour : Detour, detour.Only request interp ∧
    run (.detoured detour fuel) start ≠ run (.ofFuel fuel) start

/-- The detour that answers one evaluation and nothing else. -/
noncomputable def Detour.answering (expr : Expr) (env : Option FrameId) (interp : Interp)
    (outcome : EStateM.Result Stop Interp Value) : Detour where
  analyze _ _ _ := none
  eval expr' env' interp' :=
    open Classical in
    if expr = expr' ∧ env = env' ∧ interp = interp' then some outcome else none
  apply _ _ _ _ := none

namespace Detour

variable (expr : Expr) (env : Option FrameId) (interp : Interp)
  (outcome : EStateM.Result Stop Interp Value)

theorem only_answering : (answering expr env interp outcome).Only (.eval expr env) interp where
  analyze _ _ _ given := absurd rfl given
  eval expr' env' interp' given := by
    by_cases same : expr = expr' ∧ env = env' ∧ interp = interp'
    · obtain ⟨rfl, rfl, rfl⟩ := same
      exact ⟨rfl, rfl⟩
    · exact absurd (if_neg same) given
  apply _ _ _ _ given := absurd rfl given

/-! Only the one evaluation is answered; every other request goes its usual way. -/

theorem eval_detoured_self (fuel : Nat) :
    (Engine.detoured (answering expr env interp outcome) (fuel + 1)).eval expr env interp =
      outcome := by
  simp [Engine.detoured, Eval.unless, answering]

theorem eval_detoured_ne (fuel : Nat) {expr' : Expr} (other : expr ≠ expr')
    (env' : Option FrameId) (interp' : Interp) :
    (Engine.detoured (answering expr env interp outcome) (fuel + 1)).eval expr' env' interp' =
      Evaluate.eval (.detoured (answering expr env interp outcome) fuel) expr' env' interp' := by
  simp [Engine.detoured, Eval.unless, answering, other]

end Detour

/-- An evaluation is reached if two answers to it lead to two outcomes: at least one of them is not
the outcome of the run itself. -/
theorem reaches_of_answers {α : Type} {run : Engine → Eval α} {fuel : Nat}
    {start reached : Interp} {expr : Expr} {env : Option FrameId}
    (outcome : EStateM.Result Stop Interp Value → EStateM.Result Stop Interp α)
    (ran : ∀ answer,
      run (.detoured (.answering expr env reached answer) fuel) start = outcome answer)
    (first second : EStateM.Result Stop Interp Value) (differ : outcome first ≠ outcome second) :
    Reaches run fuel start (.eval expr env) reached := by
  by_cases same : run (.ofFuel fuel) start = outcome first
  · refine ⟨.answering expr env reached second, Detour.only_answering _ _ _ _, ?_⟩
    rw [ran, same]
    exact Ne.symm differ
  · refine ⟨.answering expr env reached first, Detour.only_answering _ _ _ _, ?_⟩
    rw [ran]
    exact Ne.symm same

end ObjectLisp
