import Mathlib
import ObjectLisp.Proofs.Number.Shortest
import ObjectLisp.Proofs.Reading.Tokens

/-!
# Printed floats read back

The text of a finite float is laid out in one of two forms.  Each is taken apart
again into the same decimal, and this decimal rounds to the float it was made
from.
-/

namespace ObjectLisp

/-! ## Digits -/

namespace Integer

theorem foldl_digits (start : Nat) (digits : List Char) :
    digits.foldl (fun value digit => 10 * value + digitValue digit) start =
      start * 10 ^ digits.length + ofDigits digits := by
  induction digits generalizing start with
  | nil => simp [ofDigits]
  | cons digit digits foldRest =>
      rw [ofDigits, List.foldl_cons, List.foldl_cons, foldRest, foldRest, List.length_cons, pow_succ]
      ring

theorem ofDigits_append (front back : List Char) :
    ofDigits (front ++ back) = ofDigits front * 10 ^ back.length + ofDigits back := by
  rw [ofDigits, List.foldl_append, foldl_digits]
  rfl

theorem ofDigits_zeros (count : Nat) : ofDigits (List.replicate count '0') = 0 := by
  induction count with
  | zero => rfl
  | succ count zeros =>
      rw [List.replicate_succ', ofDigits_append, zeros, zero_mul]
      rfl

end Integer

namespace Decimal

open Binary64 Integer

theorem exists_zeros (digits : List Char) :
    ∃ zeros, digits = dropTrailingZeros digits ++ List.replicate zeros '0' := by
  have front := List.takeWhile_append_dropWhile (p := (· = '0')) (l := digits.reverse)
  have zeros : digits.reverse.takeWhile (· = '0') =
      List.replicate (digits.reverse.takeWhile (· = '0')).length '0' := by
    rw [List.eq_replicate_iff]
    refine ⟨rfl, fun c member => ?_⟩
    simpa using List.mem_takeWhile_imp member
  exists (digits.reverse.takeWhile (· = '0')).length
  rw [dropTrailingZeros, ← List.reverse_replicate, ← zeros, ← List.reverse_append, front,
    List.reverse_reverse]

/-! ## Taking a text apart -/

variable {token whole fraction tail : List Char} {negative : Bool} {power : Int}

theorem exponent?_mark (power : Int) : exponent? ('e' :: decimal power) = some power := by
  have digits : ∀ n : Nat, (Digits.ofNat n).isEmpty = false ∧ (Digits.ofNat n).all isDigit = true := by
    intro n
    constructor
    · rw [Digits.ofNat_eq, List.isEmpty_eq_false_iff]
      exact Nat.toDigits_ne_nil
    · exact List.all_eq_true.mpr fun _ => isDigit_of_mem_ofNat
  cases power with
  | ofNat n => simp [exponent?, decimal, splitSign_ofNat, digits, ofDigits_ofNat]
  | negSucc n => simp [exponent?, decimal, splitSign, digits, ofDigits_ofNat, Int.negSucc_eq]

theorem takeWhile_digits (digits : ∀ c ∈ whole, isDigit c = true)
    (ends : ∀ c ∈ tail.head?, isDigit c = false) :
    (whole ++ tail).takeWhile isDigit = whole ∧ (whole ++ tail).dropWhile isDigit = tail := by
  rw [List.takeWhile_append_of_pos digits, List.dropWhile_append_of_pos digits]
  cases tail with
  | nil => simp
  | cons c tail => simp [ends c rfl]

theorem scan?_whole (split : splitSign token = (negative, whole ++ tail)) (nonempty : whole ≠ [])
    (digits : ∀ c ∈ whole, isDigit c = true)
    (ends : ∀ c ∈ tail.head?, isDigit c = false ∧ c ≠ '.') (marked : exponent? tail = some power) :
    scan? token = some ⟨negative, whole, power⟩ := by
  obtain ⟨taken, left⟩ := takeWhile_digits digits fun c isHead => (ends c isHead).1
  unfold scan?
  simp only [split, taken, left]
  split
  · exact absurd rfl (ends '.' rfl).2
  · simp [nonempty, marked]

theorem scan?_fraction (split : splitSign token = (negative, whole ++ '.' :: (fraction ++ tail)))
    (nonempty : whole ≠ []) (digits : ∀ c ∈ whole, isDigit c = true)
    (fractionDigits : ∀ c ∈ fraction, isDigit c = true)
    (ends : ∀ c ∈ tail.head?, isDigit c = false) (marked : exponent? tail = some power) :
    scan? token = some ⟨negative, whole ++ fraction, power - fraction.length⟩ := by
  obtain ⟨taken, left⟩ := @takeWhile_digits whole ('.' :: (fraction ++ tail)) digits (by simp; decide)
  obtain ⟨takenFraction, leftFraction⟩ := takeWhile_digits fractionDigits ends
  unfold scan?
  simp [split, taken, left, takenFraction, leftFraction, nonempty, marked]

/-! ## Laying out a decimal -/

/-- The text is that of a positive decimal number: it starts with a digit, has no characters but
those of a number, is no integer, and is taken apart into this number, whatever its sign. -/
structure Spells (text : List Char) (value : ℚ) : Prop where
  starts : ∃ first rest, text = first :: rest ∧ isDigit first = true
  numeric : ∀ c ∈ text, isNumeric c = true
  marked : ∃ c ∈ text, isDigit c = false
  scans : ∀ {token negative}, splitSign token = (negative, text) →
    ∃ digits power, scan? token = some ⟨negative, digits, power⟩ ∧
      (ofDigits digits * 10 ^ power : ℚ) = value

theorem isNumeric_of_isDigit {c : Char} (digit : isDigit c = true) : isNumeric c = true := by
  simp [isNumeric, digit]

theorem spells_fraction {value : ℚ} (nonempty : whole ≠ []) (digits : ∀ c ∈ whole, isDigit c = true)
    (fractionDigits : ∀ c ∈ fraction, isDigit c = true) (numeric : ∀ c ∈ tail, isNumeric c = true)
    (ends : ∀ c ∈ tail.head?, isDigit c = false) (marked : exponent? tail = some power)
    (same : (ofDigits (whole ++ fraction) * 10 ^ (power - fraction.length) : ℚ) = value) :
    Spells (whole ++ '.' :: (fraction ++ tail)) value := by
  constructor
  · obtain ⟨first, rest, rfl⟩ := List.exists_cons_of_ne_nil nonempty
    exact ⟨first, _, rfl, digits first List.mem_cons_self⟩
  · intro c member
    simp only [List.mem_append, List.mem_cons] at member
    rcases member with inWhole | rfl | inFraction | inTail
    · exact isNumeric_of_isDigit (digits c inWhole)
    · rfl
    · exact isNumeric_of_isDigit (fractionDigits c inFraction)
    · exact numeric c inTail
  · exact ⟨'.', by simp, rfl⟩
  · intro token negative split
    exact ⟨_, _, scan?_fraction split nonempty digits fractionDigits ends marked, same⟩

theorem spells_whole {value : ℚ} (nonempty : whole ≠ []) (digits : ∀ c ∈ whole, isDigit c = true)
    (numeric : ∀ c ∈ tail, isNumeric c = true) (isMark : ∃ c ∈ tail, isDigit c = false)
    (ends : ∀ c ∈ tail.head?, isDigit c = false ∧ c ≠ '.') (marked : exponent? tail = some power)
    (same : (ofDigits whole * 10 ^ power : ℚ) = value) : Spells (whole ++ tail) value := by
  constructor
  · obtain ⟨first, rest, rfl⟩ := List.exists_cons_of_ne_nil nonempty
    exact ⟨first, _, rfl, digits first List.mem_cons_self⟩
  · intro c member
    rcases List.mem_append.mp member with inWhole | inTail
    · exact isNumeric_of_isDigit (digits c inWhole)
    · exact numeric c inTail
  · obtain ⟨c, inTail, noDigit⟩ := isMark
    exact ⟨c, List.mem_append_right _ inTail, noDigit⟩
  · intro token negative split
    exact ⟨_, _, scan?_whole split nonempty digits ends marked, same⟩

variable {digits : List Char}

theorem isDigit_zeros {count : Nat} {c : Char} (member : c ∈ List.replicate count '0') :
    isDigit c = true := by
  rw [List.eq_of_mem_replicate member]
  rfl

theorem positional_spells (nonempty : digits ≠ []) (each : ∀ c ∈ digits, isDigit c = true)
    (point : Int) :
    Spells (positional digits point) (ofDigits digits * 10 ^ (point - digits.length)) := by
  have unmarked : exponent? [] = some 0 := rfl
  unfold positional
  dsimp only
  split
  · next small =>
      have text : '0' :: '.' :: (List.replicate (-point).toNat '0' ++ digits) =
          ['0'] ++ '.' :: ((List.replicate (-point).toNat '0' ++ digits) ++ []) := by
        simp
      rw [text]
      apply spells_fraction (by simp) (by simp; rfl) _ (by simp) (by simp) unmarked
      · have front : ofDigits ['0'] = 0 := rfl
        have places : (0 : Int) - (List.replicate (-point).toNat '0' ++ digits).length =
            point - digits.length := by
          simp
          omega
        rw [places, ofDigits_append, ofDigits_append, ofDigits_zeros, front]
        simp
      · intro c member
        rcases List.mem_append.mp member with inZeros | inDigits
        · exact isDigit_zeros inZeros
        · exact each c inDigits
  · next large =>
      split
      · next short =>
          have text : digits ++ List.replicate (point.toNat - digits.length) '0' ++ ['.', '0'] =
              (digits ++ List.replicate (point.toNat - digits.length) '0') ++ '.' :: (['0'] ++ []) := by
            simp
          rw [text]
          apply spells_fraction (by simp [nonempty]) _ (by simp; rfl) (by simp) (by simp) unmarked
          · have places : point - digits.length = ((point.toNat - digits.length : Nat) : Int) := by
              omega
            have last : ofDigits ['0'] = 0 := rfl
            rw [ofDigits_append, ofDigits_append, ofDigits_zeros, last, places, zpow_natCast]
            push_cast
            simp
          · intro c member
            rcases List.mem_append.mp member with inDigits | inZeros
            · exact each c inDigits
            · exact isDigit_zeros inZeros
      · next long =>
          have text : digits.take point.toNat ++ '.' :: digits.drop point.toNat =
              digits.take point.toNat ++ '.' :: (digits.drop point.toNat ++ []) := by
            simp
          rw [text]
          apply spells_fraction _ (fun c member => each c (List.mem_of_mem_take member))
            (fun c member => each c (List.mem_of_mem_drop member)) (by simp) (by simp) unmarked
          · have places : (0 : Int) - (digits.drop point.toNat).length = point - digits.length := by
              rw [List.length_drop]
              omega
            rw [places, List.take_append_drop]
          · rw [Ne, List.take_eq_nil_iff]
            simp [nonempty]
            omega

theorem scientific_spells (nonempty : digits ≠ []) (each : ∀ c ∈ digits, isDigit c = true)
    (point : Int) :
    Spells (scientific digits point) (ofDigits digits * 10 ^ (point - digits.length)) := by
  have numeric : ∀ c ∈ 'e' :: decimal (point - 1), isNumeric c = true := by
    intro c member
    rcases List.mem_cons.mp member with rfl | inPower
    · rfl
    · exact (Token.numeric_of_mem_decimal inPower).1
  obtain ⟨first, rest, rfl⟩ := List.exists_cons_of_ne_nil nonempty
  obtain ⟨digit, restDigits⟩ := List.forall_mem_cons.mp each
  cases rest with
  | nil =>
      change Spells ([first] ++ 'e' :: decimal (point - 1)) _
      apply spells_whole (by simp) (by simpa using digit) numeric ⟨'e', by simp, rfl⟩
        (by simp; decide) (exponent?_mark _)
      simp
  | cons second rest =>
      change Spells ([first] ++ '.' :: (second :: rest ++ 'e' :: decimal (point - 1))) _
      apply spells_fraction (by simp) (by simpa using digit) restDigits numeric (by simp; decide)
        (exponent?_mark _)
      have places : point - 1 - ((second :: rest).length : Int) =
          point - (first :: second :: rest).length := by
        simp
        omega
      rw [places]
      rfl

/-- The text of a decimal is that of its number. -/
theorem layoutDigits_spells (layout : Layout) {decimal : Digits} (positive : 0 < decimal.value) :
    Spells (layoutDigits layout decimal) decimal.toRat := by
  obtain ⟨zeros, split⟩ := exists_zeros (Nat.toDigits 10 decimal.value)
  have value : ofDigits (Nat.toDigits 10 decimal.value) = decimal.value := by
    rw [← Digits.ofNat_eq, ofDigits_ofNat]
  have each : ∀ c ∈ dropTrailingZeros (Nat.toDigits 10 decimal.value), isDigit c = true := by
    intro c member
    apply @isDigit_of_mem_ofNat decimal.value
    rw [Digits.ofNat_eq, split]
    exact List.mem_append_left _ member
  have length := congrArg List.length split
  rw [List.length_append, List.length_replicate] at length
  rw [split, ofDigits_append, ofDigits_zeros, List.length_replicate, add_zero] at value
  unfold layoutDigits
  dsimp only
  generalize dropTrailingZeros (Nat.toDigits 10 decimal.value) = digits at *
  have nonempty : digits ≠ [] := by
    rintro rfl
    simp [ofDigits] at value
    omega
  have same : decimal.toRat = ofDigits digits * 10 ^ (decimal.point +
      ((Nat.toDigits 10 decimal.value).length - decimal.count : Int) - digits.length) := by
    have places : decimal.point + ((Nat.toDigits 10 decimal.value).length - decimal.count : Int) -
        digits.length = zeros + (decimal.point - decimal.count) := by
      omega
    rw [Digits.toRat, places, zpow_add₀ (by norm_num), zpow_natCast, ← mul_assoc, ← value]
    push_cast
    ring
  rw [same]
  split
  · exact positional_spells nonempty each _
  · exact scientific_spells nonempty each _

/-! ## Reading the text of a float -/

theorem lt_pow_length (n : Nat) : n < 10 ^ (Nat.toDigits 10 n).length :=
  (Nat.length_toDigits_le_iff (by decide) Nat.length_toDigits_pos).mp (le_refl _)

theorem pow_length_le {n : Nat} (positive : 0 < n) : 10 ^ ((Nat.toDigits 10 n).length - 1) ≤ n := by
  by_cases single : (Nat.toDigits 10 n).length - 1 = 0
  · rw [single]
    exact positive
  · rw [← not_lt, ← Nat.length_toDigits_le_iff (by decide) (Nat.pos_of_ne_zero single)]
    omega

theorem two_pow_lt_ten_pow {n : Nat} (nonzero : n ≠ 0) : (2 : ℚ) ^ (3 * n) < 10 ^ n := by
  rw [pow_mul]
  exact pow_lt_pow_left₀ (by norm_num) (by norm_num) nonzero

/-- The numbers that round to a positive finite float lie well inside the powers that are
computed. -/
theorem Interval.Contains.bounds {parts : Parts} (canonical : parts.Canonical)
    (positive : 0 < parts.mantissa) {value : ℚ}
    (contains : (interval parts.mantissa parts.exponent).Contains value) :
    10 ^ (-powerLimit) < value ∧ value < 10 ^ powerLimit := by
  obtain ⟨low, high, -⟩ := contains
  obtain ⟨least, greatest, small, -⟩ := canonical
  have far : (2 : ℚ) ^ (1200 : Int) < 10 ^ powerLimit := two_pow_lt_ten_pow (n := 400) (by decide)
  have unit : (interval parts.mantissa parts.exponent).unit = parts.exponent - 2 := rfl
  rw [unit] at low high
  rw [leastExponent] at least
  rw [hiddenBit_eq] at small
  constructor
  · have lowEnd : (1 : ℚ) ≤ (interval parts.mantissa parts.exponent).low := by
      have one_le : 1 ≤ (interval parts.mantissa parts.exponent).low := by
        unfold interval
        dsimp only
        split <;> omega
      exact_mod_cast one_le
    calc (10 : ℚ) ^ (-powerLimit) < 2 ^ (-1200 : Int) := by
          rw [zpow_neg, zpow_neg]
          exact inv_strictAnti₀ (by positivity) far
      _ ≤ 2 ^ (parts.exponent - 2) := zpow_le_zpow_right₀ (by norm_num) (by omega)
      _ ≤ (interval parts.mantissa parts.exponent).low * 2 ^ (parts.exponent - 2) :=
          le_mul_of_one_le_left (by positivity) lowEnd
      _ ≤ value := low
  · have highEnd : ((interval parts.mantissa parts.exponent).high : ℚ) ≤ 2 ^ (56 : Int) := by
      have le : (interval parts.mantissa parts.exponent).high ≤ 2 ^ 56 := by
        unfold interval
        dsimp only
        omega
      exact_mod_cast le
    calc value ≤ (interval parts.mantissa parts.exponent).high * 2 ^ (parts.exponent - 2) := high
      _ ≤ 2 ^ (56 : Int) * 2 ^ (parts.exponent - 2) :=
          mul_le_mul_of_nonneg_right highEnd (by positivity)
      _ = 2 ^ (56 + (parts.exponent - 2)) := (zpow_add₀ two_ne_zero _ _).symm
      _ ≤ 2 ^ (1200 : Int) := zpow_le_zpow_right₀ (by norm_num) (by omega)
      _ < 10 ^ powerLimit := far

/-- A positive decimal between the limits has its first digit between them. -/
theorem point_bounds {value : Nat} {power limit : Int} (small : 10 ^ (-limit) < (value * 10 ^ power : ℚ))
    (large : (value * 10 ^ power : ℚ) < 10 ^ limit) :
    0 < value ∧ -limit ≤ power + (Nat.toDigits 10 value).length ∧
      power + (Nat.toDigits 10 value).length ≤ limit := by
  have tens : (0 : ℚ) < 10 ^ power := by positivity
  have nonzero : 0 < value := by
    rw [Nat.pos_iff_ne_zero]
    rintro rfl
    have positive : (0 : ℚ) < 10 ^ (-limit) := by positivity
    simp only [Nat.cast_zero, zero_mul] at small
    linarith
  have length : 0 < (Nat.toDigits 10 value).length := Nat.length_toDigits_pos
  have below : (value * 10 ^ power : ℚ) < 10 ^ (power + (Nat.toDigits 10 value).length) := by
    rw [zpow_add₀ (by norm_num), mul_comm, zpow_natCast]
    exact mul_lt_mul_of_pos_left (by exact_mod_cast lt_pow_length value) tens
  have above : (10 : ℚ) ^ (power + ((Nat.toDigits 10 value).length - 1 : Nat)) ≤ value * 10 ^ power := by
    rw [zpow_add₀ (by norm_num), mul_comm (value : ℚ), zpow_natCast]
    exact mul_le_mul_of_nonneg_left (by exact_mod_cast pow_length_le nonzero) tens.le
  have least := (zpow_lt_zpow_iff_right₀ (by norm_num)).mp (small.trans below)
  have greatest := (zpow_lt_zpow_iff_right₀ (by norm_num)).mp (above.trans_lt large)
  omega

theorem Written.toFloat_of_contains {parts : Parts} (canonical : parts.Canonical)
    (positive : 0 < parts.mantissa) {written : Written}
    (contains : (interval parts.mantissa parts.exponent).Contains
      (ofDigits written.digits * 10 ^ written.power)) :
    written.toFloat = ofWord written.negative parts.word := by
  obtain ⟨large, small⟩ := contains.bounds canonical positive
  obtain ⟨nonzero, least, greatest⟩ := point_bounds large small
  have nearest : nearestWord (ofDigits written.digits * Nat.pow 10 written.power.toNat)
      (Nat.pow 10 (-written.power).toNat) = parts.word := by
    apply nearestWord_of_contains canonical
    · exact Nat.mul_pos nonzero (Nat.pow_pos (by decide))
    · exact Nat.pow_pos (by decide)
    · rw [zpow_eq_div (by norm_num)] at contains
      simpa [Nat.pow_eq, mul_div_assoc] using contains
  unfold Written.toFloat
  dsimp only
  rw [if_neg (by omega), if_neg (by omega), nearest]

theorem ofWord_word {x : Float} {parts : Parts} (decoded : decode x.toBits = some parts) :
    ofWord parts.negative parts.word = x := by
  have bits := (decode_spec decoded).2
  have same : (if parts.negative then Nat.pow 2 63 + parts.word else parts.word) = x.toBits.toNat := by
    rw [bits]
    split <;> simp
  rw [ofWord, same, UInt64.ofNat_toNat, Float.ofBits_toBits]

/-- The text of a magnitude, and what becomes of it. -/
theorem magnitude_spells (layout : Layout) {parts : Parts} (canonical : parts.Canonical) :
    ∃ value : ℚ,
      Spells (if parts.mantissa = 0 then ['0', '.', '0']
        else layoutDigits layout (shortest parts.mantissa parts.exponent)) value ∧
      ∀ written : Written, (ofDigits written.digits * 10 ^ written.power : ℚ) = value →
        written.toFloat = ofWord written.negative parts.word := by
  split
  · next zero =>
      have word : parts.word = 0 := by
        have least : parts.exponent = leastExponent := by
          rcases canonical.full with least | full
          · exact least
          · rw [zero] at full
            exact absurd full (by decide)
        rw [Parts.word, least, zero]
        rfl
      exists 0
      constructor
      · have spells := @positional_spells ['0'] (by simp) (by simp; rfl) 1
        have value : ofDigits ['0'] = 0 := rfl
        rw [value, Nat.cast_zero, zero_mul] at spells
        exact spells
      · intro written isZero
        have digits : ofDigits written.digits = 0 := by
          have tens : (10 : ℚ) ^ written.power ≠ 0 := by positivity
          simpa [tens] using isZero
        unfold Written.toFloat
        dsimp only
        rw [if_pos (.inl digits), word]
  · next nonzero =>
      have positive : 0 < parts.mantissa := Nat.pos_of_ne_zero nonzero
      have contains := contains_shortest canonical positive
      have digits : 0 < (shortest parts.mantissa parts.exponent).value := by
        rw [Nat.pos_iff_ne_zero]
        intro none
        have bounds := contains.bounds canonical positive
        have tens : (0 : ℚ) < 10 ^ (-powerLimit) := by positivity
        rw [Digits.toRat, none, Nat.cast_zero, zero_mul] at bounds
        linarith
      exists (shortest parts.mantissa parts.exponent).toRat
      constructor
      · exact layoutDigits_spells layout digits
      · intro written same
        exact Written.toFloat_of_contains canonical positive (same ▸ contains)

/-- The text of a finite float is a token that is no integer and reads as the float. -/
theorem finite_reads (layout : Layout) {x : Float} {parts : Parts}
    (decoded : decode x.toBits = some parts) :
    Solid (toChars layout x) ∧ Integer.ofToken? (toChars layout x) = none ∧
      ofToken? (toChars layout x) = some x := by
  obtain ⟨value, spells, reads⟩ := magnitude_spells layout (decode_spec decoded).1
  have written : toChars layout x = finiteChars layout parts := by
    simp only [toChars, decoded]
  rw [written, finiteChars]
  generalize (if parts.mantissa = 0 then ['0', '.', '0']
    else layoutDigits layout (shortest parts.mantissa parts.exponent)) = text at *
  generalize isToken : (if parts.negative = true then '-' :: text else text) = token
  obtain ⟨first, rest, rfl, digit⟩ := spells.starts
  have split : splitSign token = (parts.negative, first :: rest) := by
    rw [← isToken]
    cases parts.negative with
    | true => rfl
    | false => exact splitSign_of_digit digit
  have within : ∀ c ∈ first :: rest, c ∈ token := by
    rw [← isToken]
    intro c member
    split
    · exact List.mem_cons_of_mem _ member
    · exact member
  have numeric : ∀ c ∈ token, isNumeric c = true := by
    rw [← isToken]
    split
    · exact List.forall_mem_cons.mpr ⟨rfl, spells.numeric⟩
    · exact spells.numeric
  refine ⟨⟨?_, ?_⟩, ?_, ?_⟩
  · rw [← isToken]
    split
    · exact ⟨'-', _, rfl, by decide, rfl⟩
    · refine ⟨first, rest, rfl, ?_, ReadTable.constituent_of_numeric (isNumeric_of_isDigit digit)⟩
      rintro rfl
      exact absurd digit (by decide)
  · intro c member
    exact ReadTable.not_delimiter_of_constituent (ReadTable.constituent_of_numeric (numeric c member))
  · obtain ⟨c, member, noDigit⟩ := spells.marked
    have mixed : (first :: rest).all isDigit = false := by
      rw [List.all_eq_false]
      exact ⟨c, member, by simp [noDigit]⟩
    unfold Integer.ofToken?
    rw [split]
    dsimp only
    rw [mixed]
    simp
  · obtain ⟨digits, power, scans, same⟩ := spells.scans split
    have anyDigit : token.any isDigit = true :=
      List.any_eq_true.mpr ⟨first, within first List.mem_cons_self, digit⟩
    have float := reads ⟨parts.negative, digits, power⟩ same
    unfold ofToken?
    rw [anyDigit, List.all_eq_true.mpr numeric, scans]
    simp [float, ofWord_word decoded]

end Decimal

namespace Token

/-- The text of a finite float is read as this float. -/
theorem read_float {package : PackageId} {x : Float}
    (reads : Integer.ofToken? (Decimal.toChars .printer x) = none ∧
      Decimal.ofToken? (Decimal.toChars .printer x) = some x) (line : Nat) (store : SymbolStore) :
    read package line (Decimal.toChars .printer x) store = .ok (.float x) store := by
  unfold read
  rw [reads.1, reads.2]
  rfl

end Token

end ObjectLisp
