/-!
# Decimal digits

The decimal digits of a natural number, found by splitting it in halves: a
number below `unit (k + 1)` is cut at `unit k` into two numbers with half as
many digits.  The result is the usual one, `Nat.toDigits 10`; the halves make it
fast for numbers with many thousands of digits.
-/

namespace ObjectLisp.Digits

/-- The least number with more than `2 ^ k` digits: ten, a hundred, ten thousand, and so on. -/
def unit : Nat → Nat
  | 0 => 10
  | k + 1 =>
      let half := unit k
      half * half

/-- All `2 ^ k` digits of a number below `unit k`, leading zeros included, in front of `rest`. -/
def padded : (k n : Nat) → (rest : List Char) → List Char
  | 0, n, rest => n.digitChar :: rest
  | k + 1, n, rest =>
      let half := unit k
      padded k (n / half) (padded k (n % half) rest)

/-- The digits of a number below `unit k` without leading zeros, in front of `rest`. -/
def leading : (k n : Nat) → (rest : List Char) → List Char
  | 0, n, rest => n.digitChar :: rest
  | k + 1, n, rest =>
      let half := unit k
      if n < half then leading k n rest
      else leading k (n / half) (padded k (n % half) rest)

/-- The first `k` from a start on, with at most `bound` steps, for which `unit k` is above `n`. -/
def levelFrom : (bound k : Nat) → Nat → Nat
  | 0, k, _ => k
  | bound + 1, k, n => if n < unit k then k else levelFrom bound (k + 1) n

/-- The decimal digits of a number. -/
def ofNat (n : Nat) : List Char := leading (levelFrom n 0 n) n []

/-! ## The digits are the usual ones -/

theorem unit_succ (k : Nat) : unit (k + 1) = unit k * unit k := rfl

theorem lt_unit (k : Nat) : k + 9 < unit k := by
  induction k with
  | zero => decide
  | succ k ih =>
      rw [unit_succ]
      have twice : 2 * unit k ≤ unit k * unit k := Nat.mul_le_mul_right _ (by omega)
      omega

theorem lt_unit_levelFrom (bound k n : Nat) (large : n < unit (k + bound)) :
    n < unit (levelFrom bound k n) := by
  induction bound generalizing k with
  | zero => simpa [levelFrom] using large
  | succ bound ih =>
      rw [levelFrom]
      split
      · assumption
      · exact ih (k + 1) (by rwa [Nat.add_assoc, Nat.add_comm 1 bound])

theorem padded_append (k n : Nat) (rest : List Char) :
    padded k n rest = padded k n [] ++ rest := by
  induction k generalizing n rest with
  | zero => rfl
  | succ k ih =>
      simp only [padded]
      rw [ih (n / unit k) (padded k (n % unit k) rest), ih (n / unit k) (padded k _ []),
        ih (n % unit k) rest, List.append_assoc]

/-- A number with more digits is written as its upper part followed by all digits of its lower
part. -/
theorem toDigits_split (k n : Nat) (large : unit k ≤ n) :
    Nat.toDigits 10 n = Nat.toDigits 10 (n / unit k) ++ padded k (n % unit k) [] := by
  induction k generalizing n with
  | zero => exact Nat.toDigits_of_base_le (by decide) large
  | succ k ih =>
      have positive : 0 < unit k := Nat.lt_of_le_of_lt (Nat.zero_le _) (lt_unit k)
      rw [unit_succ] at large ⊢
      have upper : unit k ≤ n / unit k := (Nat.le_div_iff_mul_le positive).2 large
      have whole : unit k ≤ n := Nat.le_trans upper (Nat.div_le_self _ _)
      rw [ih n whole, ih (n / unit k) upper, Nat.div_div_eq_div_mul, List.append_assoc]
      congr 1
      simp only [padded]
      rw [Nat.mod_mul_right_div_self, Nat.mod_mul_left_mod]
      exact (padded_append k _ _).symm

theorem leading_eq (k n : Nat) (rest : List Char) (small : n < unit k) :
    leading k n rest = Nat.toDigits 10 n ++ rest := by
  induction k generalizing n rest with
  | zero =>
      have digit : n < 10 := small
      rw [Nat.toDigits_of_lt_base digit]
      rfl
  | succ k ih =>
      rw [leading]
      split
      · next below => exact ih n rest below
      · next above =>
          have upper : n / unit k < unit k := Nat.div_lt_of_lt_mul small
          rw [ih _ _ upper, padded_append, ← List.append_assoc,
            ← toDigits_split k n (Nat.le_of_not_lt above)]

/-- The digits are those of the core library. -/
theorem ofNat_eq (n : Nat) : ofNat n = Nat.toDigits 10 n := by
  have small : n < unit (0 + n) := by
    rw [Nat.zero_add]
    exact Nat.lt_of_le_of_lt (Nat.le_add_right n 9) (lt_unit n)
  rw [ofNat, leading_eq _ _ _ (lt_unit_levelFrom n 0 n small), List.append_nil]

end ObjectLisp.Digits
