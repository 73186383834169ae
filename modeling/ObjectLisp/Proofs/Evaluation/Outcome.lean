import ObjectLisp.Interp.Basic

/-!
# Outcomes of sequences

An evaluation that does one thing and then another gives a value exactly if both
do, and stops where the first of them stops.
-/

namespace ObjectLisp.Eval

variable {α β : Type} {first : Eval α} {next : α → Eval β} {interp after : Interp}

theorem bind_of_ok {value : α} (ran : first interp = .ok value after) :
    (first >>= next) interp = next value after := by
  change EStateM.bind first next interp = next value after
  rw [EStateM.bind, ran]

theorem bind_of_error {stop : Stop} (stopped : first interp = .error stop after) :
    (first >>= next) interp = .error stop after := by
  change EStateM.bind first next interp = .error stop after
  rw [EStateM.bind, stopped]

theorem bind_eq_ok_iff {value : β} :
    (first >>= next) interp = .ok value after ↔
      ∃ result middle, first interp = .ok result middle ∧ next result middle = .ok value after := by
  constructor
  · intro both
    cases ran : first interp with
    | ok result middle => exact ⟨result, middle, rfl, (bind_of_ok ran).symm.trans both⟩
    | error stop middle => cases (bind_of_error ran).symm.trans both
  · rintro ⟨result, middle, ran, continued⟩
    rw [bind_of_ok ran, continued]

end ObjectLisp.Eval
