import Mathlib.Data.Int.Bitwise
import Mathlib.Data.Nat.Digits.Defs
import ObjectLisp.Arithmetic
import ObjectLisp.Library.Call
import ObjectLisp.Proofs.Reading.Tokens

/-!
# Integer arithmetic is exact

Integers have two representations, and equality as values compares them.  So a
result must not only be the right number but also have the representation that
goes with its size: a bignum that fits a word would be a number that differs from
itself.

Fixnums are combined as words where this gives a word.  It is shown here that such
a word is the exact result, for sums because overflow is noticed, and for bits
because a word is the two's complement of its number cut off where all further bits
repeat its sign.  Everything else is computed on numbers of any size and represented
anew.
-/

namespace ObjectLisp

namespace Integer

/-! ## Words -/

/-- Where the operation on words gives a word, it is that of the exact result. -/
def Agrees (words? : Int64 → Int64 → Option Int64) (numbers : Int → Int → Int) : Prop :=
  ∀ x y word, words? x y = some word → word.toInt = numbers x.toInt y.toInt

/-- Words are only a shorter way to the representation of the exact result. -/
theorem combine_eq {words? : Int64 → Int64 → Option Int64} {numbers : Int → Int → Int}
    (agrees : Agrees words? numbers) (a b : Integer) :
    combine words? numbers a b = ofInt (numbers a.toInt b.toInt) := by
  cases a with
  | bignum value => rfl
  | fixnum x =>
      cases b with
      | bignum value => rfl
      | fixnum y =>
          unfold combine
          dsimp only
          split
          · next word given =>
              have precise : word.toInt = numbers x.toInt y.toInt := agrees x y word given
              calc
                fixnum word = ofInt (fixnum word).toInt :=
                  (ofInt_toInt (n := fixnum word) trivial).symm
                _ = ofInt (numbers x.toInt y.toInt) := congrArg ofInt precise
          · rfl

theorem checkedAdd?_agrees : Agrees checkedAdd? (· + ·) := by
  intro x y word given
  unfold checkedAdd? at given
  split at given
  · cases given
  · next fits =>
      cases given
      exact BitVec.toInt_add_of_not_saddOverflow fits

theorem checkedSub?_agrees : Agrees checkedSub? (· - ·) := by
  intro x y word given
  unfold checkedSub? at given
  split at given
  · cases given
  · next fits =>
      cases given
      exact BitVec.toInt_sub_of_not_ssubOverflow fits

theorem checkedMul?_agrees : Agrees checkedMul? (· * ·) := by
  intro x y word given
  unfold checkedMul? at given
  split at given
  · cases given
  · next fits =>
      cases given
      exact BitVec.toInt_mul_of_not_smulOverflow fits

/-! ## Bits -/

theorem eq_of_testBit_eq {m n : Int} (same : ∀ i, m.testBit i = n.testBit i) : m = n := by
  -- Far up, all bits of a number are its sign.
  have far : ∀ k l : Nat, ∃ i, k.testBit i = false ∧ l.testBit i = false := fun k l =>
    ⟨k + l, Nat.testBit_lt_two_pow (Nat.lt_of_le_of_lt (Nat.le_add_right k l) Nat.lt_two_pow_self),
      Nat.testBit_lt_two_pow (Nat.lt_of_le_of_lt (Nat.le_add_left l k) Nat.lt_two_pow_self)⟩
  cases m with
  | ofNat k =>
      cases n with
      | ofNat l => exact congrArg Int.ofNat (Nat.eq_of_testBit_eq same)
      | negSucc l =>
          obtain ⟨i, low, low'⟩ := far k l
          have differs := same i
          simp [Int.testBit, low, low'] at differs
  | negSucc k =>
      cases n with
      | ofNat l =>
          obtain ⟨i, low, low'⟩ := far k l
          have differs := same i
          simp [Int.testBit, low, low'] at differs
      | negSucc l =>
          have sameBits : ∀ i, k.testBit i = l.testBit i := fun i =>
            Bool.not_inj (same i)
          exact congrArg Int.negSucc (Nat.eq_of_testBit_eq sameBits)

theorem testBit_clearBits (m n i : Nat) :
    (clearBits m n).testBit i = (m.testBit i && !n.testBit i) := by
  rw [clearBits, Nat.testBit_xor, Nat.testBit_and]
  cases m.testBit i <;> cases n.testBit i <;> rfl

theorem testBit_andInt (m n : Int) (i : Nat) :
    (andInt m n).testBit i = (m.testBit i && n.testBit i) := by
  cases m <;> cases n <;>
    simp [andInt, Int.testBit, testBit_clearBits, Bool.and_comm]

theorem testBit_orInt (m n : Int) (i : Nat) :
    (orInt m n).testBit i = (m.testBit i || n.testBit i) := by
  cases m <;> cases n <;>
    simp [orInt, Int.testBit, testBit_clearBits, Bool.or_comm]

theorem testBit_xorInt (m n : Int) (i : Nat) :
    (xorInt m n).testBit i = (m.testBit i ^^ n.testBit i) := by
  cases m <;> cases n <;> simp [xorInt, Int.testBit]

/-- The bits of the number that a word stands for are those of the word, and its sign from there
on. -/
theorem testBit_toInt {width : Nat} (word : BitVec width) (i : Nat) :
    word.toInt.testBit i = if i < width then word.getLsbD i else word.msb := by
  have bounded : word.toNat < 2 ^ width := word.isLt
  rw [BitVec.toInt_eq_toNat_cond]
  cases sign : word.msb with
  | false =>
      have small : 2 * word.toNat < 2 ^ width := BitVec.msb_eq_false_iff_two_mul_lt.mp sign
      rw [if_pos small]
      change word.toNat.testBit i = _
      rw [BitVec.testBit_toNat]
      split
      · rfl
      · next beyond => exact BitVec.getLsbD_of_ge word i (by omega)
  | true =>
      have large : 2 * word.toNat ≥ 2 ^ width := BitVec.msb_eq_true_iff_two_mul_ge.mp sign
      have negative : (word.toNat : Int) - (2 ^ width : Nat) =
          Int.negSucc (2 ^ width - (word.toNat + 1)) := by omega
      rw [if_neg (by omega), negative]
      change (!(2 ^ width - (word.toNat + 1)).testBit i) = _
      rw [Nat.testBit_two_pow_sub_succ bounded, BitVec.testBit_toNat]
      split
      · next inside => simp [inside]
      · next beyond => simp [beyond]

/-- An operation on words that acts on each bit agrees with one on numbers that acts on each bit in
the same way. -/
theorem agrees_of_bits {words : Int64 → Int64 → Int64} {numbers : Int → Int → Int}
    {bit : Bool → Bool → Bool}
    (inWords : ∀ x y i, (words x y).toInt.testBit i = bit (x.toInt.testBit i) (y.toInt.testBit i))
    (inNumbers : ∀ m n i, (numbers m n).testBit i = bit (m.testBit i) (n.testBit i)) :
    Agrees (fun x y => some (words x y)) numbers := by
  intro x y word given
  cases given
  exact eq_of_testBit_eq fun i => (inWords x y i).trans (inNumbers x.toInt y.toInt i).symm

theorem bitAnd_eq (a b : Integer) : a.bitAnd b = ofInt (andInt a.toInt b.toInt) := by
  refine combine_eq (agrees_of_bits (fun x y i => ?_) testBit_andInt) a b
  simp only [← Int64.toInt_toBitVec, Int64.toBitVec_and, testBit_toInt, BitVec.getLsbD_and,
    BitVec.msb_and]
  split <;> rfl

theorem bitOr_eq (a b : Integer) : a.bitOr b = ofInt (orInt a.toInt b.toInt) := by
  refine combine_eq (agrees_of_bits (fun x y i => ?_) testBit_orInt) a b
  simp only [← Int64.toInt_toBitVec, Int64.toBitVec_or, testBit_toInt, BitVec.getLsbD_or,
    BitVec.msb_or]
  split <;> rfl

theorem bitXor_eq (a b : Integer) : a.bitXor b = ofInt (xorInt a.toInt b.toInt) := by
  refine combine_eq (agrees_of_bits (fun x y i => ?_) testBit_xorInt) a b
  simp only [← Int64.toInt_toBitVec, Int64.toBitVec_xor, testBit_toInt, BitVec.getLsbD_xor,
    BitVec.msb_xor]
  split <;> rfl

/-! ## Division and shifts -/

/-- A truncated remainder, moved by the divisor and reduced once more, is the floored one. -/
theorem tmod_add_tmod (m : Int) {n : Int} (nonzero : n ≠ 0) :
    (m.tmod n + n).tmod n = m.fmod n := by
  have positive : ∀ m n : Int, 0 < n → (m.tmod n + n).tmod n = m.fmod n := by
    intro m n pos
    have above : 0 ≤ m.tmod n + n := by
      have := Int.lt_tmod_of_pos m pos
      omega
    have reduced : m.tmod n % n = m % n := by
      rw [Int.tmod_def, Int.sub_mul_emod_self_left]
    calc
      (m.tmod n + n).tmod n = (m.tmod n + n) % n := Int.tmod_eq_emod_of_nonneg above
      _ = m % n := by rw [Int.add_emod_right, reduced]
      _ = m.fmod n := (Int.fmod_eq_emod_of_nonneg m pos.le).symm
  rcases Int.lt_or_gt_of_ne nonzero with neg | pos
  · -- Both remainders change their sign with that of the two numbers.
    have mirrored := positive (-m) (-n) (by omega)
    rw [Int.neg_fmod_neg, Int.neg_tmod, Int.tmod_neg, Int.tmod_neg, ← Int.neg_add,
      Int.neg_tmod] at mirrored
    exact Int.neg_inj.mp mirrored
  · exact positive m n pos

theorem floorMod_eq (a : Integer) {b : Integer} (nonzero : b.toInt ≠ 0) :
    a.floorMod b = ofInt (a.toInt.fmod b.toInt) := by
  rw [floorMod, tmod_add_tmod a.toInt nonzero]

theorem divExact?_eq {a b : Integer} {quotient : Int} (nonzero : b.toInt ≠ 0)
    (divides : a.toInt = quotient * b.toInt) : a.divExact? b = some (ofInt quotient) := by
  rw [divExact?, divides, if_pos (Int.mul_tmod_left quotient b.toInt),
    Int.mul_tdiv_cancel quotient nonzero]

theorem shiftLeft_eq (a : Integer) (amount : Nat) :
    a.shiftLeft amount = ofInt (a.toInt * 2 ^ amount) := by
  have power : Int.ofNat (Nat.pow 2 amount) = 2 ^ amount := Int.natCast_pow 2 amount
  rw [shiftLeft, power]

theorem shiftRight_eq (a : Integer) (amount : Nat) :
    a.shiftRight amount = ofInt (a.toInt.fdiv (2 ^ amount)) := by
  have power : ((2 ^ amount : Nat) : Int) = 2 ^ amount := Int.natCast_pow 2 amount
  have nonneg : (0 : Int) ≤ 2 ^ amount := Int.pow_nonneg (by decide)
  rw [shiftRight, Int.shiftRight_eq_div_pow, power, Int.fdiv_eq_ediv_of_nonneg _ nonneg]

/-! ## Numerals -/

/-- The text has at least one character, and all of them are decimal digits. -/
def AllDigits (text : List Char) : Prop := text ≠ [] ∧ ∀ c ∈ text, isDigit c = true

/-- The value of digits in base ten, of which the last counts ones. -/
def positional (digits : List Char) : Nat := Nat.ofDigits 10 (digits.reverse.map digitValue)

/-- The text writes the number in decimal digits, with or without a sign in front of them. -/
inductive Numeral : List Char → Int → Prop where
  | plain {digits : List Char} : AllDigits digits → Numeral digits (positional digits)
  | plus {digits : List Char} : AllDigits digits → Numeral ('+' :: digits) (positional digits)
  | minus {digits : List Char} : AllDigits digits → Numeral ('-' :: digits) (-positional digits)

theorem ofDigits_eq (digits : List Char) : ofDigits digits = positional digits := by
  rw [positional, Nat.ofDigits_eq_foldr, List.foldr_map, List.foldr_reverse]
  simp only [ofDigits, Nat.cast_id, Nat.add_comm]

theorem allDigits_of_ofToken? {token digits : List Char} {negative : Bool} {integer : Integer}
    (split : splitSign token = (negative, digits)) (given : ofToken? token = some integer) :
    AllDigits digits := by
  unfold ofToken? at given
  simp only [split] at given
  split at given
  · cases given
  · next fit => simpa [AllDigits] using fit

theorem ofToken?_of_allDigits {token digits : List Char} (negative : Bool)
    (split : splitSign token = (negative, digits)) (here : AllDigits digits) :
    ofToken? token =
      some (ofInt (if negative then -(positional digits : Int) else positional digits)) := by
  rw [ofToken?_of_split negative here.1 here.2 split, ofDigits_eq]

/-- Exactly the numerals are read as integers. -/
theorem ofToken?_eq_some_iff {token : List Char} {integer : Integer} :
    ofToken? token = some integer ↔ ∃ number, Numeral token number ∧ integer = ofInt number := by
  constructor
  · intro given
    cases split : splitSign token with
    | mk negative digits =>
        have here : AllDigits digits := allDigits_of_ofToken? split given
        rw [ofToken?_of_allDigits negative split here] at given
        cases given
        unfold splitSign at split
        split at split <;> cases split
        · exact ⟨_, .minus here, rfl⟩
        · exact ⟨_, .plus here, rfl⟩
        · exact ⟨_, .plain here, rfl⟩
  · rintro ⟨number, numeral, rfl⟩
    cases numeral with
    | plain here =>
        obtain ⟨first, rest, rfl⟩ := List.exists_cons_of_ne_nil here.1
        exact ofToken?_of_allDigits false
          (splitSign_of_digit (here.2 first List.mem_cons_self)) here
    | plus here => exact ofToken?_of_allDigits false rfl here
    | minus here => exact ofToken?_of_allDigits true rfl here

end Integer

/-! ## The methods of the operators -/

namespace Arithmetic

/-- The method makes of two integers the canonical integer of the number, whatever is stored. -/
def Gives (method : NativeMethod) (a b : Integer) (number : Int) : Prop :=
  ∀ heap, ∃ result : Integer, result.Canonical ∧ result.toInt = number ∧
    run heap method (.int a) (.int b) = .ok (.int result, heap)

theorem gives_of_run {method : NativeMethod} {a b : Integer} {number : Int}
    (given : ∀ heap, run heap method (.int a) (.int b) = .ok (.int (.ofInt number), heap)) :
    Gives method a b number := fun heap =>
  ⟨.ofInt number, Integer.canonical_ofInt number, Integer.toInt_ofInt number, given heap⟩

/-- The method makes of two integers the canonical integer that has at each place the bit made of
the bits at this place. -/
def GivesBits (method : NativeMethod) (a b : Integer) (bit : Bool → Bool → Bool) : Prop :=
  ∃ number : Int, Gives method a b number ∧
    ∀ place, number.testBit place = bit (a.toInt.testBit place) (b.toInt.testBit place)

/-- The built-in methods on two integers are exact. -/
structure ExactOn (a b : Integer) : Prop where
  sum : Gives (.integers .add) a b (a.toInt + b.toInt)
  difference : Gives (.integers .sub) a b (a.toInt - b.toInt)
  product : Gives (.integers .mul) a b (a.toInt * b.toInt)
  conjunction : GivesBits (.bits .and) a b (· && ·)
  disjunction : GivesBits (.bits .or) a b (· || ·)
  exclusion : GivesBits (.bits .xor) a b (· ^^ ·)
  remainder : b.toInt ≠ 0 → Gives (.integers .mod) a b (a.toInt.fmod b.toInt)
  quotient : b.toInt ≠ 0 → ∀ number, a.toInt = number * b.toInt →
    Gives (.integers .div) a b number
  byZero : b.toInt = 0 → ∀ heap,
    run heap (.integers .div) (.int a) (.int b) = .error .divisionByZero ∧
      run heap (.integers .mod) (.int a) (.int b) = .error .divisionByZero
  shifts : b.isFixnum = true → ∀ amount : Nat, b.toInt = amount → amount ≤ 2 ^ 20 →
    Gives .shiftLeft a b (a.toInt * 2 ^ amount) ∧
      Gives .shiftRight a b (a.toInt.fdiv (2 ^ amount))

theorem run_integers (heap : Heap) (op : ArithOp) (a b : Integer) :
    run heap (.integers op) (.int a) (.int b) = (do return (← integers op a b, heap)) := rfl

theorem shiftAmount_eq {b : Integer} {amount : Nat} (small : b.isFixnum = true)
    (here : b.toInt = amount) (within : amount ≤ 2 ^ 20) :
    shiftAmount (.int b) = .ok amount := by
  cases b with
  | bignum value => cases small
  | fixnum word =>
      have value : word.toInt = amount := here
      have limited : amount ≤ shiftLimit := within
      simp [shiftAmount, Integer.toIndex?, value, limited]

theorem exactOn (a b : Integer) : ExactOn a b where
  sum := gives_of_run fun heap => by
    rw [← Integer.combine_eq Integer.checkedAdd?_agrees]
    rfl
  difference := gives_of_run fun heap => by
    rw [← Integer.combine_eq Integer.checkedSub?_agrees]
    rfl
  product := gives_of_run fun heap => by
    rw [← Integer.combine_eq Integer.checkedMul?_agrees]
    rfl
  conjunction := by
    refine ⟨_, gives_of_run fun heap => ?_, Integer.testBit_andInt a.toInt b.toInt⟩
    rw [← Integer.bitAnd_eq]
    rfl
  disjunction := by
    refine ⟨_, gives_of_run fun heap => ?_, Integer.testBit_orInt a.toInt b.toInt⟩
    rw [← Integer.bitOr_eq]
    rfl
  exclusion := by
    refine ⟨_, gives_of_run fun heap => ?_, Integer.testBit_xorInt a.toInt b.toInt⟩
    rw [← Integer.bitXor_eq]
    rfl
  remainder nonzero := gives_of_run fun heap => by
    have remains : integers .mod a b = .ok (.int (a.floorMod b)) := if_neg nonzero
    rw [run_integers, remains, Integer.floorMod_eq a nonzero]
    rfl
  quotient nonzero number divides := gives_of_run fun heap => by
    have exactly : integers .div a b = .ok (divide a b) := if_neg nonzero
    rw [run_integers, exactly, divide, Integer.divExact?_eq nonzero divides]
    rfl
  byZero zero heap := by
    have refused : integers .div a b = .error .divisionByZero ∧
        integers .mod a b = .error .divisionByZero := ⟨if_pos zero, if_pos zero⟩
    rw [run_integers, run_integers, refused.1, refused.2]
    exact ⟨rfl, rfl⟩
  shifts small amount here within := by
    have found := shiftAmount_eq small here within
    refine ⟨gives_of_run fun heap => ?_, gives_of_run fun heap => ?_⟩
    · rw [← Integer.shiftLeft_eq]
      simp only [run, found, integer]
      rfl
    · rw [← Integer.shiftRight_eq]
      simp only [run, found, integer]
      rfl

/-! ## Equality -/

theorem eq_iff_toInt_eq {a b : Integer} (canonicalA : a.Canonical) (canonicalB : b.Canonical) :
    a = b ↔ a.toInt = b.toInt := by
  constructor
  · exact congrArg Integer.toInt
  · intro same
    rw [← Integer.ofInt_toInt canonicalA, same, Integer.ofInt_toInt canonicalB]

/-- The three tests of equality all ask whether two integers are the same number. -/
structure SameNumberAsked (a b : Integer) : Prop where
  identity : ∀ engine interp, Library.call engine .isSame [.int a, .int b] interp =
    .ok (.bool (a.toInt = b.toInt)) interp
  structural : ∀ engine interp, Library.call engine .isEqual [.int a, .int b] interp =
    .ok (.bool (a.toInt = b.toInt)) interp
  numeric : ∀ heap, run heap .equalNumbers (.int a) (.int b) =
    .ok (.bool (a.toInt = b.toInt), heap)

theorem sameNumberAsked {a b : Integer} (canonicalA : a.Canonical) (canonicalB : b.Canonical) :
    SameNumberAsked a b where
  identity engine interp := by
    have same : Value.same (.int a) (.int b) = decide (a.toInt = b.toInt) :=
      decide_eq_decide.mpr (eq_iff_toInt_eq canonicalA canonicalB)
    rw [← same]
    rfl
  structural engine interp := rfl
  numeric heap := by
    have compared : (compareNumbers? (.int a) (.int b) = some .eq) = (a.toInt = b.toInt) := by
      simp [compareNumbers?]
    simp only [run, number, ← compared]
    rfl

/-- Integer arithmetic is exact, and each of its results has the representation that goes with its
size, as has each integer that is read.  So the tests of equality do not differ on integers. -/
theorem integers_exact :
    (∀ a b : Integer, ExactOn a b) ∧
      (∀ token integer, Integer.ofToken? token = some integer ↔
        integer.Canonical ∧ Integer.Numeral token integer.toInt) ∧
      ∀ a b : Integer, a.Canonical → b.Canonical → SameNumberAsked a b := by
  refine ⟨exactOn, fun token integer => ?_, fun a b => sameNumberAsked⟩
  rw [Integer.ofToken?_eq_some_iff]
  constructor
  · rintro ⟨number, numeral, rfl⟩
    exact ⟨Integer.canonical_ofInt number, (Integer.toInt_ofInt number).symm ▸ numeral⟩
  · rintro ⟨canonical, numeral⟩
    exact ⟨integer.toInt, numeral, (Integer.ofInt_toInt canonical).symm⟩

/-- The least fixnum: its quotient by `-1` is a bignum, while remainders and shifts stay small. -/
theorem integers_exact_at_least_fixnum :
    Gives (.integers .div) (.fixnum Int64.minValue) (.fixnum (-1)) 9223372036854775808 ∧
      Gives (.integers .mod) (.fixnum Int64.minValue) (.fixnum 10) 2 ∧
      Gives .shiftRight (.fixnum Int64.minValue) (.fixnum 64) (-1) ∧
      Integer.ofToken? "-9223372036854775808".toList = some (.fixnum Int64.minValue) ∧
      SameNumberAsked (.bignum 9223372036854775808) (.fixnum Int64.minValue) := by
  obtain ⟨onIntegers, reading, equality⟩ := integers_exact
  refine ⟨?_, ?_, ?_, ?_, ?_⟩
  · exact (onIntegers _ _).quotient (by decide) _ (by decide)
  · exact (onIntegers (.fixnum Int64.minValue) (.fixnum 10)).remainder (by decide)
  · exact ((onIntegers (.fixnum Int64.minValue) (.fixnum 64)).shifts rfl 64 rfl (by decide)).2
  · exact (reading _ _).mpr ⟨trivial, .minus ⟨by decide, List.all_eq_true.mp (by decide)⟩⟩
  · exact equality _ _ (by decide) trivial

end Arithmetic

end ObjectLisp
