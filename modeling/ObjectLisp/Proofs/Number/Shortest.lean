import ObjectLisp.Proofs.Number.Rounding

/-!
# The shortest decimal rounds back

The search for the digits of a float tries grids of more and more digits and
accepts a decimal if it lies in the interval of the float.  If no grid has one,
the digits of the last grid are cut off.  That is never needed, but it would do
no harm: the last grid has so many digits that what is cut off is less than a
quarter of the last place.  Either way the decimal lies in the interval.
-/

namespace ObjectLisp.Decimal

open Binary64

variable {mantissa : Nat} {exponent two ten : Int} {range : Interval}

/-! ## Comparison by scales -/

theorem scale_eq (two ten : Int) :
    ((scale two ten).1 : ℚ) / (scale two ten).2 = 2 ^ two * 10 ^ ten := by
  rw [zpow_eq_div (by norm_num : (0 : ℚ) < 2) two, zpow_eq_div (by norm_num : (0 : ℚ) < 10) ten]
  simp only [scale, Nat.pow_eq, Nat.cast_mul, Nat.cast_pow, Nat.cast_ofNat]
  rw [div_mul_div_comm]

theorem scale_pos (two ten : Int) : 0 < (scale two ten).2 :=
  Nat.mul_pos (Nat.pow_pos (by decide)) (Nat.pow_pos (by decide))

/-- Comparison with the scale of a power of two and one of ten is comparison of the numbers. -/
theorem mul_scale_lt_iff {a b : Nat} {unit : Int} :
    a * (scale unit (-ten)).1 < b * (scale unit (-ten)).2 ↔
      (a * 2 ^ unit : ℚ) < b * 10 ^ ten := by
  have down : (0 : ℚ) < (scale unit (-ten)).2 := by exact_mod_cast scale_pos unit (-ten)
  have tens : (0 : ℚ) < 10 ^ ten := by positivity
  rw [← div_lt_iff₀ tens, mul_div_assoc, div_eq_mul_inv, ← zpow_neg, ← scale_eq,
    mul_div_assoc', div_lt_iff₀ down]
  norm_cast

theorem lt_mul_scale_iff {a b : Nat} {unit : Int} :
    b * (scale unit (-ten)).2 < a * (scale unit (-ten)).1 ↔
      (b * 10 ^ ten : ℚ) < a * 2 ^ unit := by
  have down : (0 : ℚ) < (scale unit (-ten)).2 := by exact_mod_cast scale_pos unit (-ten)
  have tens : (0 : ℚ) < 10 ^ ten := by positivity
  rw [← lt_div_iff₀ tens, mul_div_assoc, div_eq_mul_inv, ← zpow_neg, ← scale_eq,
    mul_div_assoc', lt_div_iff₀ down]
  norm_cast

theorem compareScaled_eq_lt_iff {a b : Nat} {unit : Int} :
    compareScaled a unit b ten = .lt ↔ (a * 2 ^ unit : ℚ) < b * 10 ^ ten :=
  Nat.compare_eq_lt.trans mul_scale_lt_iff

theorem compareScaled_eq_gt_iff {a b : Nat} {unit : Int} :
    compareScaled a unit b ten = .gt ↔ (b * 10 ^ ten : ℚ) < a * 2 ^ unit :=
  Nat.compare_eq_gt.trans lt_mul_scale_iff

theorem Interval.contains_of_holds {candidate : Nat} (holds : range.holds candidate ten = true) :
    range.Contains (candidate * 10 ^ ten) := by
  unfold Interval.holds at holds
  dsimp only at holds
  split at holds
  · next closed =>
      simp only [Bool.and_eq_true, bne_iff_ne, ne_eq, compareScaled_eq_lt_iff,
        compareScaled_eq_gt_iff, not_lt] at holds
      exact ⟨holds.1, holds.2, fun isOpen => by simp [closed] at isOpen⟩
  · simp only [Bool.and_eq_true, beq_iff_eq, compareScaled_eq_lt_iff, compareScaled_eq_gt_iff]
      at holds
    exact ⟨holds.1.le, holds.2.le, fun _ => holds⟩

/-! ## Grids -/

/-- The float itself. -/
def Interval.center (range : Interval) : ℚ :=
  range.value * 2 ^ range.unit

theorem Interval.floor_spec (range : Interval) (ten : Int) :
    (range.floor ten * 10 ^ ten : ℚ) ≤ range.center ∧
      range.center < (range.floor ten + 1) * 10 ^ ten := by
  have down := scale_pos range.unit (-ten)
  have exact : range.floor ten = range.value * (scale range.unit (-ten)).1 /
    (scale range.unit (-ten)).2 := rfl
  constructor
  · rw [← not_lt, Interval.center, ← mul_scale_lt_iff, not_lt, exact]
    exact Nat.div_mul_le_self _ _
  · have above : range.value * (scale range.unit (-ten)).1 <
        (range.floor ten + 1) * (scale range.unit (-ten)).2 := by
      rw [exact]
      exact Nat.lt_mul_of_div_lt (Nat.lt_succ_self _) down
    have lifted := mul_scale_lt_iff.mp above
    push_cast at lifted
    exact lifted

theorem Interval.holds_of_onGrid? {candidate : Nat} (found : range.onGrid? ten = some candidate) :
    range.holds candidate ten = true := by
  unfold Interval.onGrid? at found
  dsimp only at found
  split at found
  · cases found
  · next lower _ =>
      cases found
      exact lower
  · next _ upper =>
      cases found
      exact upper
  · next lower upper =>
      split at found <;> cases found
      · exact lower
      · exact upper

/-- The search ends with a decimal in the interval or with the digits of the last grid. -/
theorem searchGrids_spec (range : Interval) (point : Int) (attempts count : Nat) :
    ∃ digits : Digits, searchGrids range point attempts count = digits ∧
      (range.Contains (digits.value * 10 ^ (digits.point - digits.count)) ∨
        digits = ⟨range.floor (point - (count + attempts : Nat)), count + attempts, point⟩) := by
  induction attempts generalizing count with
  | zero => exact ⟨_, rfl, .inr rfl⟩
  | succ attempts searchRest =>
      rw [searchGrids]
      split
      · next value found =>
          exact ⟨_, rfl, .inl (Interval.contains_of_holds (Interval.holds_of_onGrid? found))⟩
      · obtain ⟨digits, same, outcome⟩ := searchRest (count + 1)
        rw [Nat.add_right_comm, Nat.add_assoc count] at outcome
        exact ⟨digits, same, outcome⟩

/-! ## The decimal exponent -/

/-- `30103 / 100000` is near enough to the decimal logarithm of two for all exponents of floats. -/
theorem powers_estimated {n : Nat} (small : n ≤ 1100) :
    10 ^ (n * 30103 / 100000) ≤ 10 * 2 ^ n ∧ 2 ^ n ≤ 10 * 10 ^ ((n * 30103 + 99999) / 100000) := by
  have all : ((List.range 1101).all fun n => 10 ^ (n * 30103 / 100000) ≤ 10 * 2 ^ n &&
      2 ^ n ≤ 10 * 10 ^ ((n * 30103 + 99999) / 100000)) = true := by
    decide +kernel
  simpa using List.all_eq_true.mp all n (List.mem_range.mpr (Nat.lt_succ_of_le small))

theorem estimate_le {place : Int} (small : -1100 ≤ place ∧ place ≤ 1100) :
    (10 : ℚ) ^ (place * 30103 / 100000 - 1) ≤ 2 ^ place := by
  rw [zpow_sub₀ (by norm_num), zpow_one, div_le_iff₀' (by norm_num)]
  rcases Int.eq_nat_or_neg place with ⟨n, rfl | rfl⟩
  · have estimated := (@powers_estimated n (by omega)).1
    have exact : (n : Int) * 30103 / 100000 = ((n * 30103 / 100000 : Nat) : Int) := by omega
    rw [exact, zpow_natCast, zpow_natCast]
    exact_mod_cast estimated
  · have estimated := (@powers_estimated n (by omega)).2
    have exact : -(n : Int) * 30103 / 100000 = -(((n * 30103 + 99999) / 100000 : Nat) : Int) := by
      omega
    rw [exact, zpow_neg, zpow_neg, zpow_natCast, zpow_natCast, ← div_eq_mul_inv,
      inv_le_comm₀ (by positivity) (by positivity), inv_div, div_le_iff₀ (by norm_num), mul_comm]
    exact_mod_cast estimated

/-- The first digit of the float stands right behind the point. -/
theorem point_le (positive : 0 < range.value)
    (small : -1100 ≤ (range.value.log2 : Int) + range.unit ∧
      (range.value.log2 : Int) + range.unit ≤ 1100) :
    (10 : ℚ) ^ (range.point - 1) ≤ range.center := by
  have nonzero : ∀ ten, range.floor ten ≠ 0 → (10 : ℚ) ^ ten ≤ range.center := by
    intro ten some
    have digit : (1 : ℚ) ≤ range.floor ten := by exact_mod_cast Nat.one_le_iff_ne_zero.mpr some
    have tens : (0 : ℚ) < 10 ^ ten := by positivity
    exact (le_mul_of_one_le_left tens.le digit).trans (range.floor_spec ten).1
  have bits : (2 : ℚ) ^ ((range.value.log2 : Int) + range.unit) ≤ range.center := by
    rw [zpow_add₀ two_ne_zero, Interval.center]
    exact mul_le_mul_of_nonneg_right (zpow_log2_le positive) (by positivity)
  unfold Interval.point
  dsimp only
  split
  · exact (estimate_le small).trans bits
  · next first =>
      split
      · rw [add_sub_cancel_right]
        exact nonzero _ first
      · next second =>
          rw [show ∀ estimate : Int, estimate + 2 - 1 = estimate + 1 by omega]
          exact nonzero _ second

/-! ## The shortest decimal -/

/-- A decimal as a number. -/
def Digits.toRat (digits : Digits) : ℚ :=
  digits.value * 10 ^ (digits.point - digits.count)

/-- What is cut off behind eighteen digits is too little to leave the interval. -/
theorem contains_floor {parts : Parts} (canonical : parts.Canonical) (positive : 0 < parts.mantissa)
    {point : Int}
    (digits : (10 : ℚ) ^ (point - 1) ≤ (interval parts.mantissa parts.exponent).center) :
    (interval parts.mantissa parts.exponent).Contains
      ((interval parts.mantissa parts.exponent).floor (point - (18 : Nat)) *
        10 ^ (point - (18 : Nat))) := by
  obtain ⟨low, high⟩ := (interval parts.mantissa parts.exponent).floor_spec (point - (18 : Nat))
  have unit : (0 : ℚ) < 2 ^ (interval parts.mantissa parts.exponent).unit := by positivity
  have center : (interval parts.mantissa parts.exponent).center =
      4 * parts.mantissa * 2 ^ (interval parts.mantissa parts.exponent).unit := by
    simp [Interval.center, interval]
  have lowEnd : ((interval parts.mantissa parts.exponent).low : ℚ) + 1 ≤ 4 * parts.mantissa := by
    have end_le : (interval parts.mantissa parts.exponent).low + 1 ≤ 4 * parts.mantissa := by
      unfold interval
      dsimp only
      split <;> omega
    exact_mod_cast end_le
  have highEnd : ((interval parts.mantissa parts.exponent).high : ℚ) = 4 * parts.mantissa + 2 := by
    exact_mod_cast rfl
  have small : (parts.mantissa : ℚ) < 9007199254740992 := by exact_mod_cast canonical.small
  have places : (10 : ℚ) ^ (point - 1) = 100000000000000000 * 10 ^ (point - (18 : Nat)) := by
    have split : point - 1 = 17 + (point - (18 : Nat)) := by omega
    rw [split, zpow_add₀ (by norm_num)]
    norm_num
  rw [center] at low high digits
  rw [places] at digits
  have lowScaled := mul_le_mul_of_nonneg_right lowEnd unit.le
  have smallScaled := mul_lt_mul_of_pos_right small unit
  have below : (interval parts.mantissa parts.exponent).low *
      2 ^ (interval parts.mantissa parts.exponent).unit <
        ((interval parts.mantissa parts.exponent).floor (point - (18 : Nat)) *
          10 ^ (point - (18 : Nat)) : ℚ) := by
    linarith
  have above : ((interval parts.mantissa parts.exponent).floor (point - (18 : Nat)) *
      10 ^ (point - (18 : Nat)) : ℚ) < (interval parts.mantissa parts.exponent).high *
        2 ^ (interval parts.mantissa parts.exponent).unit := by
    rw [highEnd]
    linarith
  exact ⟨below.le, above.le, fun _ => ⟨below, above⟩⟩

/-- The shortest decimal of a float rounds to it. -/
theorem contains_shortest {parts : Parts} (canonical : parts.Canonical)
    (positive : 0 < parts.mantissa) :
    (interval parts.mantissa parts.exponent).Contains
      (shortest parts.mantissa parts.exponent).toRat := by
  obtain ⟨digits, found, outcome⟩ := searchGrids_spec (interval parts.mantissa parts.exponent)
    (interval parts.mantissa parts.exponent).point 17 1
  unfold shortest
  dsimp only
  rw [found]
  rcases outcome with inside | rfl
  · exact inside
  · apply contains_floor canonical positive
    obtain ⟨least, greatest, small, -⟩ := canonical
    apply point_le
    · exact Nat.mul_pos (by decide) positive
    · have bits : (4 * parts.mantissa).log2 < 55 := by
        rw [Nat.log2_lt (by omega)]
        rw [hiddenBit_eq] at small
        omega
      dsimp only [interval]
      rw [leastExponent] at least
      omega

end ObjectLisp.Decimal
