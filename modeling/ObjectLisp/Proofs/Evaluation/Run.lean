import ObjectLisp.Proofs.Evaluation.Steps

/-!
# Runs

Every step of evaluation gives matching results with engines that match, so by
induction over the amount of fuel the engine that runs matches any detour that
stays away from admissible requests.  Two facts follow for a lawful regime under
which engines stop in the same way: a run that starts in a good state ends with an
allowed step, and every request that it reaches is admissible.
-/

namespace ObjectLisp

/-- The engine whose steps ask another engine. -/
def Engine.step (engine : Engine) (fuel : Nat) : Engine where
  fuel
  analyze := Analysis.analyze engine
  eval := Evaluate.eval engine
  apply := Call.value engine

/-- The engine in which some requests take a detour. -/
def Engine.taking (engine : Engine) (detour : Detour) : Engine where
  fuel := engine.fuel
  analyze form context := (engine.analyze form context).unless (detour.analyze form context)
  eval expr env := (engine.eval expr env).unless (detour.eval expr env)
  apply function arguments loc :=
    (engine.apply function arguments loc).unless (detour.apply function arguments loc)

namespace Regime

variable {regime : Regime} [lawful : regime.Lawful] {interp : Interp}

/-- The request may be made in the state. -/
def Admits (regime : Regime) : Request → Interp → Prop
  | .analyze form _, interp => regime.Good interp ∧ regime.Fit interp form
  | .eval expr env, interp => regime.Good interp ∧ regime.Ready expr env interp
  | .apply function arguments _, interp =>
      regime.Good interp ∧ regime.Fit interp function ∧
        ∀ argument ∈ arguments, regime.Fit interp argument

omit lawful in
theorem Admits.good {request : Request} (admitted : regime.Admits request interp) :
    regime.Good interp := by
  cases request with
  | analyze form context => exact admitted.1
  | eval expr env => exact admitted.1
  | apply function arguments loc => exact admitted.1

/-- The detour has no answer to any request that may be made. -/
structure Avoids (regime : Regime) (detour : Detour) : Prop where
  analyze : ∀ form context interp, regime.Admits (.analyze form context) interp →
    detour.analyze form context interp = none
  eval : ∀ expr env interp, regime.Admits (.eval expr env) interp →
    detour.eval expr env interp = none
  apply : ∀ function arguments loc interp, regime.Admits (.apply function arguments loc) interp →
    detour.apply function arguments loc interp = none

omit lawful in
theorem Carries.unless {α : Type} {action other : Eval α} {fits : Interp → α → Prop}
    {outcome? : Interp → Option (EStateM.Result Stop Interp α)} (silent : outcome? interp = none)
    (carries : regime.Carries action other fits interp) :
    regime.Carries action (other.unless outcome?) fits interp := by
  unfold Carries Eval.unless
  rw [silent]
  exact carries

omit lawful in
/-- Engines still match if one of them takes a detour that avoids what is admitted. -/
theorem Engines.taking {engine twin : Engine} (engines : regime.Engines engine twin)
    {detour : Detour} (avoids : regime.Avoids detour) :
    regime.Engines engine (twin.taking detour) := by
  refine { fuel := engines.fuel, analyze := ?_, eval := ?_, apply := ?_ }
  · intro interp form context good fit
    have silent := avoids.analyze form context interp ⟨good, fit⟩
    exact (engines.analyze context good fit).unless silent
  · intro interp expr env good ready
    have silent := avoids.eval expr env interp ⟨good, ready⟩
    exact (engines.eval good ready).unless silent
  · intro interp function arguments loc good functionFits fits
    have silent := avoids.apply function arguments loc interp ⟨good, functionFits, fits⟩
    exact (engines.apply loc good functionFits fits).unless silent

/-- Engines without fuel match. -/
theorem engines_empty : regime.Engines .empty .empty where
  fuel := .refl 0
  analyze _ good _ := .spent good
  eval good _ := .spent good
  apply _ good _ _ := .spent good

/-- Engines match if their steps ask engines that match. -/
theorem Engines.step {engine twin : Engine} (engines : regime.Engines engine twin)
    (exact_ : regime.Exact) (isOpen : regime.Open) {fuel lower : Nat}
    (bounds : regime.Bounds fuel lower) :
    regime.Engines (engine.step fuel) (twin.step lower) where
  fuel := bounds
  analyze context good fit := Analysis.analyze_carries good engines context fit
  eval good ready := Evaluate.eval_carries good engines ready fun _ _ _ _ _ => isOpen
  apply loc good functionFits fits :=
    Call.value_carries engines good loc functionFits fits
      (fun _ index name value _ _ => isOpen index name value)
      (fun index _ => Call.closure_carries engines good exact_ index loc fits) fun _ => exact_

/-- The engine that runs matches every detour that avoids what is admitted. -/
theorem Avoids.engines {detour : Detour} (avoids : regime.Avoids detour)
    (exact_ : regime.Exact) (isOpen : regime.Open) (fuel : Nat) :
    regime.Engines (.ofFuel fuel) (.detoured detour fuel) := by
  induction fuel with
  | zero => exact engines_empty
  | succ fuel ih => exact (ih.step exact_ isOpen (.refl fuel)).taking avoids

/-- The detour that answers nothing. -/
def noDetour : Detour where
  analyze _ _ _ := none
  eval _ _ _ := none
  apply _ _ _ _ := none

omit lawful in
theorem avoids_noDetour (regime : Regime) : regime.Avoids noDetour :=
  ⟨fun _ _ _ _ => rfl, fun _ _ _ _ => rfl, fun _ _ _ _ _ => rfl⟩

omit lawful in
/-- A detour that concerns one request avoids what is admitted if that request is not. -/
theorem avoids_of_only {detour : Detour} {request : Request}
    (only : detour.Only request interp) (refused : ¬ regime.Admits request interp) :
    regime.Avoids detour := by
  refine ⟨?_, ?_, ?_⟩
  · intro form context current admitted
    apply Classical.byContradiction
    intro given
    obtain ⟨rfl, rfl⟩ := only.analyze form context current given
    exact refused admitted
  · intro expr env current admitted
    apply Classical.byContradiction
    intro given
    obtain ⟨rfl, rfl⟩ := only.eval expr env current given
    exact refused admitted
  · intro function arguments loc current admitted
    apply Classical.byContradiction
    intro given
    obtain ⟨rfl, rfl⟩ := only.apply function arguments loc current given
    exact refused admitted

namespace Exact

omit lawful in
/-- Where engines stop in the same way, results that match are the same, or the second engine has
given up. -/
theorem eq_or_quits {α : Type} {fits : Interp → α → Prop}
    {result twin : EStateM.Result Stop Interp α} (exact_ : regime.Exact)
    (matching : regime.Matches fits interp result twin) :
    twin = result ∨ regime.Quits ∧ ∃ after, twin = .error .spent after := by
  cases matching with
  | ok => exact .inl rfl
  | error step stops => rw [(exact_ _ _ _).mp stops]; exact .inl rfl
  | quit quits ends => exact .inr ⟨quits, _, rfl⟩

omit lawful in
/-- An action that an engine carries out side by side with another one ends well by itself. -/
theorem keeps {α : Type} {action twin : Eval α} {fits : Interp → α → Prop} (exact_ : regime.Exact)
    (stays : ¬ regime.Quits) (carries : regime.Carries action twin fits interp) :
    regime.Keeps action fits interp := by
  rcases exact_.eq_or_quits carries with same | ⟨quits, _⟩
  · unfold Carries at carries
    rwa [same] at carries
  · exact absurd quits stays

variable (exact_ : regime.Exact) (isOpen : regime.Open) {α : Type} {run : Engine → Eval α}
  {fits : Interp → α → Prop}
  (carries : ∀ engine twin, regime.Engines engine twin →
    regime.Carries (run engine) (run twin) fits interp)

include exact_ carries

omit lawful in
/-- If an engine matches all detours that avoid what is admitted, then a request for which a detour
makes a difference to a run is admitted. -/
theorem admits_of_differs (stays : ¬ regime.Quits) {engine : Engine} {detoured : Detour → Engine}
    (engines : ∀ detour, regime.Avoids detour → regime.Engines engine (detoured detour))
    {detour : Detour} {request : Request} {reached : Interp} (only : detour.Only request reached)
    (differs : run (detoured detour) interp ≠ run engine interp) :
    regime.Admits request reached := by
  apply Classical.byContradiction
  intro refused
  have matching := carries _ _ (engines detour (avoids_of_only only refused))
  rcases exact_.eq_or_quits matching with same | ⟨quits, _⟩
  · exact differs same
  · exact stays quits

include isOpen

/-- What a run may do to a state, if it gives matching results with engines that match. -/
theorem ends_run (fuel : Nat) : regime.Ends fits interp (run (.ofFuel fuel) interp) :=
  (carries _ _ ((avoids_noDetour regime).engines exact_ isOpen fuel)).ends

/-- A run reaches only requests that are admitted, if it gives matching results with engines that
match and do not give up. -/
theorem admits_of_reaches (stays : ¬ regime.Quits) {fuel : Nat} {request : Request}
    {reached : Interp} (reaches : Reaches run fuel interp request reached) :
    regime.Admits request reached := by
  obtain ⟨detour, only, differs⟩ := reaches
  exact exact_.admits_of_differs carries stays
    (fun _ avoids => avoids.engines exact_ isOpen fuel) only differs

end Exact

end Regime

end ObjectLisp
