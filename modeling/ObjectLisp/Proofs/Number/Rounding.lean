import Mathlib.Algebra.Order.Field.Power
import Mathlib.Data.Rat.Cast.Order
import Mathlib.Tactic.FieldSimp
import Mathlib.Tactic.Linarith
import Mathlib.Tactic.NormNum
import Mathlib.Tactic.Positivity
import Mathlib.Tactic.Ring
import ObjectLisp.Number.Decimal

/-!
# Rounding to the nearest float

Around a finite float lies the interval of the rational numbers that are nearer
to it than to any other float.  The float nearest to a fraction is found without
that interval: by the exponent of the last place that the fraction can have and
by rounding in this place.  Both agree: a fraction in the interval of a float has
this float for its nearest one.
-/

namespace ObjectLisp

/-- A power with an integer exponent as a fraction of powers with natural ones. -/
theorem zpow_eq_div {base : ℚ} (positive : 0 < base) (exponent : Int) :
    base ^ exponent = base ^ exponent.toNat / base ^ (-exponent).toNat := by
  rw [← zpow_natCast, ← zpow_natCast, ← zpow_sub₀ positive.ne']
  congr 1
  omega

namespace Binary64

variable {numerator denominator mantissa : Nat} {exponent : Int}

/-! ## Bit patterns -/

/-- The parts of a finite float: the mantissa is full unless the exponent is the least one. -/
structure Parts.Canonical (parts : Parts) : Prop where
  least : leastExponent ≤ parts.exponent
  greatest : parts.exponent ≤ 971
  small : parts.mantissa < 2 * hiddenBit
  full : parts.exponent = leastExponent ∨ hiddenBit ≤ parts.mantissa

/-- The bit pattern of the magnitude of a float. -/
def Parts.word (parts : Parts) : Nat :=
  (parts.exponent - leastExponent).toNat * hiddenBit + parts.mantissa

theorem hiddenBit_eq : hiddenBit = 4503599627370496 :=
  rfl

/-- The fields of a bit pattern, with the powers of two written out. -/
theorem decode_eq (bits : UInt64) : decode bits =
    if bits.toNat / 4503599627370496 % 2048 = 2047 then none
    else if bits.toNat / 4503599627370496 % 2048 = 0 then
      some ⟨bits.toNat / 9223372036854775808 = 1, bits.toNat % 4503599627370496, leastExponent⟩
    else some ⟨bits.toNat / 9223372036854775808 = 1,
      bits.toNat % 4503599627370496 + hiddenBit,
      (bits.toNat / 4503599627370496 % 2048 : Nat) - 1075⟩ :=
  rfl

/-- A finite float has canonical parts, and its bits are those of its sign and magnitude. -/
theorem decode_spec {bits : UInt64} {parts : Parts} (decoded : decode bits = some parts) :
    parts.Canonical ∧
      bits.toNat = (if parts.negative then Nat.pow 2 63 else 0) + parts.word := by
  have bound := bits.toNat_lt
  have signBit : Nat.pow 2 63 = 9223372036854775808 := rfl
  rw [decode_eq] at decoded
  rw [signBit]
  split at decoded
  · cases decoded
  · split at decoded <;> cases decoded <;> constructor
    · constructor <;> dsimp only [leastExponent, hiddenBit_eq] <;> omega
    · simp only [Parts.word, leastExponent, hiddenBit_eq, decide_eq_true_eq]
      split <;> omega
    · constructor <;> dsimp only [leastExponent, hiddenBit_eq] <;> omega
    · simp only [Parts.word, leastExponent, hiddenBit_eq, decide_eq_true_eq]
      split <;> omega

/-! ## Fractions in units of a power of two -/

theorem inUnits_eq (numerator denominator : Nat) (exponent : Int) :
    ((inUnits numerator denominator exponent).1 : ℚ) /
        (inUnits numerator denominator exponent).2 =
      numerator / denominator / 2 ^ exponent := by
  rw [zpow_eq_div (by norm_num : (0 : ℚ) < 2)]
  simp only [inUnits, Nat.pow_eq, Nat.cast_mul, Nat.cast_pow, Nat.cast_ofNat]
  rw [div_div_eq_mul_div, div_mul_eq_mul_div, div_div]

theorem inUnits_pos (positive : 0 < denominator) (numerator : Nat) (exponent : Int) :
    0 < (inUnits numerator denominator exponent).2 :=
  Nat.mul_pos positive (Nat.pow_pos (by decide))

/-! ## Rounding -/

/-- A natural number within half a unit is the nearest one, and an even one also at half a unit. -/
theorem roundEven_eq (positive : 0 < denominator)
    (below : 2 * numerator ≤ 2 * (mantissa * denominator) + denominator)
    (above : 2 * (mantissa * denominator) ≤ 2 * numerator + denominator)
    (strict : mantissa % 2 = 1 → 2 * numerator < 2 * (mantissa * denominator) + denominator ∧
      2 * (mantissa * denominator) < 2 * numerator + denominator) :
    roundEven numerator denominator = mantissa := by
  have split := Nat.div_add_mod numerator denominator
  have rest := Nat.mod_lt numerator positive
  unfold roundEven
  generalize numerator / denominator = quotient at split
  generalize numerator % denominator = remainder at split rest
  rw [Nat.mul_comm] at split
  dsimp only
  have cases : mantissa = quotient ∨ mantissa = quotient + 1 := by
    rcases Nat.lt_trichotomy mantissa quotient with less | same | more
    · have : (mantissa + 1) * denominator ≤ quotient * denominator := Nat.mul_le_mul_right _ less
      rw [Nat.add_mul] at this
      omega
    · exact .inl same
    · rcases Nat.lt_or_ge (quotient + 1) mantissa with far | near
      · have : (quotient + 2) * denominator ≤ mantissa * denominator := Nat.mul_le_mul_right _ far
        rw [Nat.add_mul] at this
        omega
      · exact .inr (by omega)
  rcases cases with rfl | rfl
  · rw [if_neg (by omega)]
  · rw [Nat.add_mul, Nat.one_mul] at below above strict
    rw [if_pos (by omega)]

/-- The same for fractions in units of a power of two. -/
theorem roundEven_inUnits {value : ℚ} (positive : 0 < denominator)
    (isValue : (numerator : ℚ) / denominator / 2 ^ exponent = value)
    (below : value ≤ mantissa + 1 / 2) (above : mantissa - 1 / 2 ≤ value)
    (strict : mantissa % 2 = 1 → value < mantissa + 1 / 2 ∧ mantissa - 1 / 2 < value) :
    roundEven (inUnits numerator denominator exponent).1
      (inUnits numerator denominator exponent).2 = mantissa := by
  rw [← inUnits_eq] at isValue
  have unitNonzero := inUnits_pos positive numerator exponent
  generalize (inUnits numerator denominator exponent).1 = scaled at isValue ⊢
  generalize (inUnits numerator denominator exponent).2 = unit at isValue unitNonzero ⊢
  have unitPositive : (0 : ℚ) < unit := by exact_mod_cast unitNonzero
  have scaled_eq : (scaled : ℚ) = value * unit := by
    rw [← isValue, div_mul_cancel₀ _ unitPositive.ne']
  apply roundEven_eq unitNonzero
  · have cleared : (2 * scaled : ℚ) ≤ 2 * (mantissa * unit) + unit := by
      rw [scaled_eq]
      nlinarith
    exact_mod_cast cleared
  · have cleared : (2 * (mantissa * unit) : ℚ) ≤ 2 * scaled + unit := by
      rw [scaled_eq]
      nlinarith
    exact_mod_cast cleared
  · intro odd
    obtain ⟨under, beyond⟩ := strict odd
    constructor
    · have cleared : (2 * scaled : ℚ) < 2 * (mantissa * unit) + unit := by
        rw [scaled_eq]
        nlinarith
      exact_mod_cast cleared
    · have cleared : (2 * (mantissa * unit) : ℚ) < 2 * scaled + unit := by
        rw [scaled_eq]
        nlinarith
      exact_mod_cast cleared

/-! ## The last place -/

theorem zpow_log2_le {n : Nat} (positive : 0 < n) : (2 : ℚ) ^ (n.log2 : Int) ≤ n := by
  rw [zpow_natCast]
  exact_mod_cast Nat.log2_self_le positive.ne'

theorem lt_zpow_log2 (n : Nat) : (n : ℚ) < 2 ^ ((n.log2 : Int) + 1) := by
  have below : n < 2 ^ (n.log2 + 1) := Nat.lt_log2_self
  exact_mod_cast below

/-- The last place holds the fraction with at most 53 bits, and with no fewer unless it is the last
place of all. -/
structure IsLastPlace (value : ℚ) (exponent : Int) : Prop where
  least : leastExponent ≤ exponent
  below : value < 2 ^ (exponent + 53)
  above : exponent = leastExponent ∨ 2 ^ (exponent + 52) ≤ value

theorem IsLastPlace.le {value : ℚ} {other : Int} (isLast : IsLastPlace value exponent)
    (isOther : IsLastPlace value other) : exponent ≤ other := by
  rcases isLast.above with atLeast | above
  · rw [atLeast]
    exact isOther.least
  · have powers : (2 : ℚ) ^ (exponent + 52) < 2 ^ (other + 53) := above.trans_lt isOther.below
    rw [zpow_lt_zpow_iff_right₀ (by norm_num)] at powers
    omega

theorem isLastPlace_max {value : ℚ} {place : Int} (below : value < 2 ^ (place + 53))
    (above : 2 ^ (place + 52) ≤ value) : IsLastPlace value (max leastExponent place) := by
  constructor
  · exact le_max_left _ _
  · exact below.trans_le (zpow_le_zpow_right₀ (by norm_num) (by omega))
  · rcases le_total place leastExponent with small | large
    · exact .inl (max_eq_left small)
    · rw [max_eq_right large]
      exact .inr above

theorem isLastPlace_lastPlace (positive : 0 < numerator) (nonzero : 0 < denominator) :
    IsLastPlace (numerator / denominator) (lastPlace numerator denominator) := by
  have divisor : (0 : ℚ) < denominator := by exact_mod_cast nonzero
  have atLeast : (2 : ℚ) ^ ((numerator.log2 : Int) - (denominator.log2 + 1)) ≤
      numerator / denominator := by
    rw [zpow_sub₀ two_ne_zero]
    exact div_le_div₀ (by positivity) (zpow_log2_le positive) divisor (lt_zpow_log2 denominator).le
  have atMost : (numerator / denominator : ℚ) <
      2 ^ ((numerator.log2 : Int) + 1 - denominator.log2) := by
    rw [zpow_sub₀ two_ne_zero]
    exact div_lt_div₀ (lt_zpow_log2 numerator) (zpow_log2_le nonzero) (by positivity) (by positivity)
  unfold lastPlace
  generalize isLow : (numerator.log2 : Int) - denominator.log2 - 53 = low
  have inUnits_lt_iff : (inUnits numerator denominator low).1 <
      2 * hiddenBit * (inUnits numerator denominator low).2 ↔
        (numerator / denominator : ℚ) < 2 ^ (low + 53) := by
    have unit : (0 : ℚ) < (inUnits numerator denominator low).2 := by
      exact_mod_cast inUnits_pos nonzero numerator low
    rw [zpow_add₀ two_ne_zero, ← div_lt_iff₀' (by positivity), ← inUnits_eq, div_lt_iff₀ unit,
      hiddenBit_eq]
    norm_cast
  dsimp only
  split
  · next fits =>
      have place : (numerator.log2 : Int) - (denominator.log2 + 1) = low + 52 := by omega
      rw [place] at atLeast
      exact isLastPlace_max (inUnits_lt_iff.mp fits) atLeast
  · next exceeds =>
      have place : (numerator.log2 : Int) + 1 - denominator.log2 = low + 1 + 53 := by omega
      have next : low + 53 = low + 1 + 52 := by omega
      rw [inUnits_lt_iff, not_lt, next] at exceeds
      rw [place] at atMost
      exact isLastPlace_max atMost exceeds

theorem lastPlace_eq (positive : 0 < numerator) (nonzero : 0 < denominator)
    (isLast : IsLastPlace (numerator / denominator) exponent) :
    lastPlace numerator denominator = exponent :=
  le_antisymm ((isLastPlace_lastPlace positive nonzero).le isLast)
    (isLast.le (isLastPlace_lastPlace positive nonzero))

/-- The bits of the nearest float by its last place and what is left of the fraction in it. -/
theorem nearestWord_eq (positive : 0 < numerator) (nonzero : 0 < denominator)
    (isLast : IsLastPlace (numerator / denominator) exponent)
    (rounded : roundEven (inUnits numerator denominator exponent).1
      (inUnits numerator denominator exponent).2 = mantissa)
    (finite : (exponent + 1074).toNat * 4503599627370496 + mantissa ≤ 9218868437227405312) :
    nearestWord numerator denominator = (exponent + 1074).toNat * 4503599627370496 + mantissa := by
  unfold nearestWord
  rw [lastPlace_eq positive nonzero isLast]
  dsimp only
  rw [rounded]
  exact Nat.min_eq_right finite

end Binary64

namespace Decimal

open Binary64

variable {numerator denominator mantissa : Nat} {exponent : Int}

/-! ## The interval of a float -/

/-- Is the number one of those that round to the float of the interval? -/
def Interval.Contains (range : Interval) (value : ℚ) : Prop :=
  range.low * 2 ^ range.unit ≤ value ∧ value ≤ range.high * 2 ^ range.unit ∧
    (range.closed = false →
      range.low * 2 ^ range.unit < value ∧ value < range.high * 2 ^ range.unit)

theorem cast_low_ge (mantissa : Nat) (exponent : Int) :
    (4 * mantissa - 2 : ℚ) ≤ (interval mantissa exponent).low ∧
      (mantissa = hiddenBit → leastExponent < exponent →
        (4 * mantissa - 1 : ℚ) ≤ (interval mantissa exponent).low) := by
  have low : 4 * mantissa ≤ (interval mantissa exponent).low + 2 ∧
      (mantissa = hiddenBit → leastExponent < exponent →
        4 * mantissa ≤ (interval mantissa exponent).low + 1) := by
    unfold interval
    dsimp only
    split <;> omega
  constructor
  · have cast : (4 * mantissa : ℚ) ≤ (interval mantissa exponent).low + 2 := by
      exact_mod_cast low.1
    linarith
  · intro full above
    have cast : (4 * mantissa : ℚ) ≤ (interval mantissa exponent).low + 1 := by
      exact_mod_cast low.2 full above
    linarith

/-- The interval in units of the last place of the float. -/
theorem Interval.Contains.scaled {value : ℚ}
    (contains : (interval mantissa exponent).Contains value) :
    value / 2 ^ exponent ≤ mantissa + 1 / 2 ∧ mantissa - 1 / 2 ≤ value / 2 ^ exponent ∧
      (mantissa % 2 = 1 →
        value / 2 ^ exponent < mantissa + 1 / 2 ∧ mantissa - 1 / 2 < value / 2 ^ exponent) ∧
      (mantissa = hiddenBit → leastExponent < exponent →
        mantissa - 1 / 4 ≤ value / 2 ^ exponent) := by
  have unit : (0 : ℚ) < 2 ^ exponent := by positivity
  have quarter : (2 : ℚ) ^ (interval mantissa exponent).unit = 2 ^ exponent / 4 := by
    change (2 : ℚ) ^ (exponent - 2) = _
    rw [zpow_sub₀ two_ne_zero]
    norm_num
  have high : ((interval mantissa exponent).high : ℚ) = 4 * mantissa + 2 := by
    exact_mod_cast rfl
  obtain ⟨low, dense⟩ := cast_low_ge mantissa exponent
  obtain ⟨above, below, strict⟩ := contains
  rw [quarter] at above below strict
  rw [high] at below strict
  have lower : (interval mantissa exponent).low / 4 ≤ value / 2 ^ exponent := by
    rw [le_div_iff₀ unit]
    linarith
  refine ⟨?_, by linarith, ?_, fun full exceeds => by linarith [dense full exceeds]⟩
  · rw [div_le_iff₀ unit]
    linarith
  · intro odd
    obtain ⟨strictLow, strictHigh⟩ := strict (by simp [interval, odd])
    constructor
    · rw [div_lt_iff₀ unit]
      linarith
    · have strictLower : (interval mantissa exponent).low / 4 < value / 2 ^ exponent := by
        rw [lt_div_iff₀ unit]
        linarith
      linarith

/-- A fraction in the interval of a float has this float for its nearest one. -/
theorem nearestWord_of_contains {parts : Parts} (canonical : parts.Canonical)
    (positive : 0 < numerator) (nonzero : 0 < denominator)
    (contains : (interval parts.mantissa parts.exponent).Contains (numerator / denominator)) :
    nearestWord numerator denominator = parts.word := by
  obtain ⟨negative, mantissa, exponent⟩ := parts
  obtain ⟨least, greatest, small, full⟩ := canonical
  obtain ⟨below, above, strict, dense⟩ := contains.scaled
  dsimp only [Parts.word] at least greatest small full below above strict dense ⊢
  have unit : (0 : ℚ) < 2 ^ exponent := by positivity
  simp only [hiddenBit_eq, leastExponent] at least small full dense ⊢
  have room : (mantissa : ℚ) + 1 ≤ 9007199254740992 := by exact_mod_cast small
  by_cases reaches : exponent = -1074 ∨
      (4503599627370496 : ℚ) ≤ numerator / denominator / 2 ^ exponent
  · have isLast : IsLastPlace (numerator / denominator) exponent := by
      constructor
      · exact least
      · rw [zpow_add₀ two_ne_zero, ← div_lt_iff₀' unit]
        norm_num
        linarith
      · rcases reaches with atLeast | reaches
        · exact .inl atLeast
        · right
          rw [zpow_add₀ two_ne_zero, ← le_div_iff₀' unit]
          norm_num
          exact reaches
    have rounded := roundEven_inUnits nonzero rfl below above strict
    exact nearestWord_eq positive nonzero isLast rounded (by omega)
  -- Just below a power of two the last place is one lower, and rounding carries.
  · simp only [not_or, not_le] at reaches
    obtain ⟨higher, short⟩ := reaches
    have exact : mantissa = 4503599627370496 := by
      have near : (mantissa : ℚ) < 4503599627370496 + 1 := by linarith
      have bound : mantissa < 4503599627370496 + 1 := by exact_mod_cast near
      omega
    have close := dense exact (by omega)
    have doubled : (numerator / denominator : ℚ) / 2 ^ (exponent - 1) =
        2 * (numerator / denominator / 2 ^ exponent) := by
      rw [zpow_sub₀ two_ne_zero]
      field_simp
    subst exact
    norm_num at close
    have isLast : IsLastPlace (numerator / denominator) (exponent - 1) := by
      constructor
      · rw [leastExponent]
        omega
      · have place : exponent - 1 + 53 = exponent + 52 := by omega
        rw [place, zpow_add₀ two_ne_zero, ← div_lt_iff₀' unit]
        norm_num
        exact short
      · right
        have place : exponent - 1 + 52 = exponent + 51 := by omega
        rw [place, zpow_add₀ two_ne_zero, ← le_div_iff₀' unit]
        norm_num
        linarith
    have rounded : roundEven (inUnits numerator denominator (exponent - 1)).1
        (inUnits numerator denominator (exponent - 1)).2 = 9007199254740992 := by
      apply roundEven_inUnits nonzero doubled <;> norm_num <;> linarith
    rw [nearestWord_eq positive nonzero isLast rounded (by omega)]
    omega

end Decimal

end ObjectLisp
