import ObjectLisp.Proofs.Evaluation.Commands

/-!
# The amount of fuel

Evaluation is bounded by fuel, and a program cannot see how much there is.  An
engine with less of it goes the same way as one with more, until it gives up.  So
a run that ends before its fuel is used up, with a value or a failure, ends in the
same way with every greater amount, and what a command comes to does not depend on
the fuel that it is given.
-/

namespace ObjectLisp

/-! ## Engines that differ in how they stop -/

/-- Nothing is demanded of states and values.  Two engines may only differ in how they stop. -/
def Regime.free (stops : Interp → Stop → Stop → Prop) (quits : Prop) : Regime where
  Good _ := True
  Effect _ _ := True
  Fit _ _ := True
  Ready _ _ _ := True
  Body _ _ _ _ := True
  Writable _ := True
  Stops := stops
  Quits := quits

theorem Regime.free_open {stops : Interp → Stop → Stop → Prop} {quits : Prop} :
    (Regime.free stops quits).Open :=
  fun _ _ _ => trivial

theorem Regime.free_lawful {stops : Interp → Stop → Stop → Prop} {quits : Prop}
    (failure : ∀ interp cause, stops interp (.failure { cause }) (.failure { cause }))
    (spent : ∀ interp, stops interp .spent .spent)
    (same : ∀ {before after : Interp} {stop stop'}, before.SameData after →
      stops before stop stop' → stops after stop stop') : (Regime.free stops quits).Lawful where
  refl _ := trivial
  trans _ _ := trivial
  fit_effect _ _ := trivial
  fit_same _ _ := trivial
  fit_atom _ := trivial
  fit_cons := ⟨fun _ => ⟨trivial, trivial⟩, fun _ => trivial⟩
  fit_symbol _ _ _ := trivial
  fit_held _ _ := trivial
  fit_order _ _ _ := trivial
  fit_nominal _ _ := trivial
  fit_defined _ _ := trivial
  ready_effect _ _ := trivial
  body_effect _ _ := trivial
  ready_bind _ _ := trivial
  ready_part _ _ := trivial
  ready_let _ := trivial
  ready_top _ := trivial
  ready_value _ _ := trivial
  ready_target _ _ := trivial
  ready_default _ _ _ _ _ _ := trivial
  closure_body _ _ := trivial
  writable _ _ := trivial
  storable_default _ _ _ := trivial
  move _ _ := ⟨trivial, trivial⟩
  bind _ _ := ⟨trivial, fun _ _ => ⟨trivial, trivial⟩⟩
  call _ _ := ⟨trivial, fun _ _ => ⟨trivial, trivial⟩⟩
  enter _ _ _ := ⟨⟨trivial, fun _ _ => ⟨trivial, trivial⟩⟩, trivial⟩
  load _ := ⟨trivial, fun _ _ => ⟨trivial, trivial⟩⟩
  stops_failure := failure
  stops_spent := spent
  stops_same := same

/-- The second engine may give up, and otherwise stops in the same way. -/
def Regime.quitting : Regime := .free (fun _ stop stop' => stop' = stop) True

instance Regime.quitting_lawful : Regime.quitting.Lawful :=
  free_lawful (fun _ _ => rfl) (fun _ => rfl) fun _ same => same

theorem Regime.quitting_exact : Regime.quitting.Exact := fun _ _ _ => Iff.rfl

namespace Regime.quitting

/-- An engine with less fuel gives up where the other one goes on, and otherwise does the same. -/
theorem engines_of_le {fuel more : Nat} (enough : fuel ≤ more) :
    Regime.quitting.Engines (.ofFuel more) (.ofFuel fuel) := by
  induction fuel generalizing more with
  | zero =>
      -- Without fuel nothing is done, so it remains that the other engine does well by itself.
      have engines := (avoids_noDetour Regime.quitting).engines quitting_exact free_open more
      refine { fuel := .inr ⟨trivial, Nat.zero_le _⟩, analyze := ?_, eval := ?_, apply := ?_ }
      · intro interp form context good fit
        exact .quit trivial (engines.analyze context good fit).ends
      · intro interp expr env good ready
        exact .quit trivial (engines.eval good ready).ends
      · intro interp function arguments loc good functionFits fits
        exact .quit trivial (engines.apply loc good functionFits fits).ends
  | succ fuel ih =>
      obtain ⟨less, rfl⟩ := Nat.exists_eq_add_one_of_ne_zero (Nat.ne_zero_of_lt enough)
      have below := Nat.le_of_succ_le_succ enough
      exact (ih below).step quitting_exact free_open (.inr ⟨trivial, below⟩)

end Regime.quitting

/-! ## Runs that end -/

/-- The run has ended, with a value or a failure, before its fuel was used up. -/
def Eval.Ended {α : Type} (result : EStateM.Result Stop Interp α) : Prop :=
  ∀ after, result ≠ .error .spent after

namespace Command

variable {command : Command} {interp : Interp} {fuel more : Nat}

/-- A command that has ended ends in the same way with every greater amount of fuel. -/
theorem run_of_le (ended : Eval.Ended (command.run (.ofFuel fuel) interp)) (enough : fuel ≤ more) :
    command.run (.ofFuel more) interp = command.run (.ofFuel fuel) interp := by
  have good : Regime.quitting.Good interp := trivial
  have brings : command.Brings Regime.quitting interp :=
    brings_of_ready (fun _ => trivial) fun _ _ _ => trivial
  have carries := run_carries (Regime.quitting.engines_of_le enough) Regime.quitting_exact command
    good brings
  rcases Regime.quitting_exact.eq_or_quits carries with same | ⟨_, after, gaveUp⟩
  · exact same.symm
  · exact absurd gaveUp (ended after)

/-- Two runs of a command that end have the same result, whatever their fuel. -/
theorem run_eq_of_ended (ended : Eval.Ended (command.run (.ofFuel fuel) interp))
    (endedToo : Eval.Ended (command.run (.ofFuel more) interp)) :
    command.run (.ofFuel fuel) interp = command.run (.ofFuel more) interp := by
  rcases Nat.le_total fuel more with enough | enough
  · exact (run_of_le ended enough).symm
  · exact run_of_le endedToo enough

end Command

end ObjectLisp
