import ObjectLisp.Number.Digits

/-!
# Integers in two representations

An integer that fits a signed 64-bit word is a fixnum, every other one a
bignum.  The split shows: only fixnums are accepted as indices, shift amounts
and coordinates of host objects.  Two fixnums are combined as machine words if
the result fits one.  Everything else is computed on numbers of any size, and
the result goes through `ofInt`, which picks the representation by size.

The bit operations act on the two's complement of unbounded width.
-/

namespace ObjectLisp

/-- An exact integer: a machine word, or a number of any size. -/
inductive Integer where
  | fixnum (value : Int64)
  | bignum (value : Int)
deriving Repr, DecidableEq, Inhabited

namespace Integer

/-- The least fixnum, as an integer. -/
def least : Int := -9223372036854775808

/-- The greatest fixnum, as an integer. -/
def greatest : Int := 9223372036854775807

/-- Does the number fit a fixnum? -/
def Fits (n : Int) : Prop := least ≤ n ∧ n ≤ greatest

instance (n : Int) : Decidable (Fits n) := inferInstanceAs (Decidable (_ ∧ _))

/-- The number that is represented. -/
def toInt : Integer → Int
  | fixnum value => value.toInt
  | bignum value => value

/-- The representation of a number: a fixnum where it fits. -/
def ofInt (n : Int) : Integer :=
  if Fits n then fixnum (Int64.ofInt n) else bignum n

/-- Bignums are kept for numbers that do not fit a fixnum. -/
def Canonical : Integer → Prop
  | fixnum _ => True
  | bignum value => ¬ Fits value

instance : (n : Integer) → Decidable n.Canonical
  | fixnum _ => isTrue trivial
  | bignum value => inferInstanceAs (Decidable (¬ Fits value))

/-- Is this the fixnum representation? -/
def isFixnum : Integer → Bool
  | fixnum _ => true
  | bignum _ => false

/-- The value of a fixnum that is not negative. -/
def toIndex? : Integer → Option Nat
  | fixnum value => if 0 ≤ value.toInt then some value.toInt.toNat else none
  | bignum _ => none

/-! ## Arithmetic -/

/-- The sum of two words, unless it overflows. -/
def checkedAdd? (x y : Int64) : Option Int64 :=
  if x.toBitVec.saddOverflow y.toBitVec then none else some (x + y)

/-- The difference of two words, unless it overflows. -/
def checkedSub? (x y : Int64) : Option Int64 :=
  if x.toBitVec.ssubOverflow y.toBitVec then none else some (x - y)

/-- The product of two words, unless it overflows. -/
def checkedMul? (x y : Int64) : Option Int64 :=
  if x.toBitVec.smulOverflow y.toBitVec then none else some (x * y)

/-- Combine two integers: fixnums by an operation on words where that gives one, all others by an
operation on numbers of any size. -/
def combine (words? : Int64 → Int64 → Option Int64) (numbers : Int → Int → Int) :
    Integer → Integer → Integer
  | fixnum x, fixnum y =>
      match words? x y with
      | some word => fixnum word
      | none => ofInt (numbers x.toInt y.toInt)
  | a, b => ofInt (numbers a.toInt b.toInt)

/-- Exact sum. -/
def add : Integer → Integer → Integer := combine checkedAdd? (· + ·)

/-- Exact difference. -/
def sub : Integer → Integer → Integer := combine checkedSub? (· - ·)

/-- Exact product. -/
def mul : Integer → Integer → Integer := combine checkedMul? (· * ·)

/-- The quotient, where the divisor divides the number without rest. -/
def divExact? (a b : Integer) : Option Integer :=
  if a.toInt.tmod b.toInt = 0 then some (ofInt (a.toInt.tdiv b.toInt)) else none

/-- The remainder with the sign of the divisor. -/
def floorMod (a b : Integer) : Integer :=
  ofInt (((a.toInt.tmod b.toInt) + b.toInt).tmod b.toInt)

/-- `a * 2 ^ amount`. -/
def shiftLeft (a : Integer) (amount : Nat) : Integer :=
  ofInt (a.toInt * Int.ofNat (Nat.pow 2 amount))

/-- The greatest integer that is at most `a / 2 ^ amount`. -/
def shiftRight (a : Integer) (amount : Nat) : Integer := ofInt (a.toInt >>> amount)

/-! ## Bit operations -/

/-- The bits of `m` outside `n`. -/
def clearBits (m n : Nat) : Nat := m ^^^ (m &&& n)

/-- Bitwise conjunction of two's complements. -/
def andInt : Int → Int → Int
  | .ofNat m, .ofNat n => .ofNat (m &&& n)
  | .ofNat m, .negSucc n => .ofNat (clearBits m n)
  | .negSucc m, .ofNat n => .ofNat (clearBits n m)
  | .negSucc m, .negSucc n => .negSucc (m ||| n)

/-- Bitwise disjunction of two's complements. -/
def orInt : Int → Int → Int
  | .ofNat m, .ofNat n => .ofNat (m ||| n)
  | .ofNat m, .negSucc n => .negSucc (clearBits n m)
  | .negSucc m, .ofNat n => .negSucc (clearBits m n)
  | .negSucc m, .negSucc n => .negSucc (m &&& n)

/-- Bitwise exclusive disjunction of two's complements. -/
def xorInt : Int → Int → Int
  | .ofNat m, .ofNat n => .ofNat (m ^^^ n)
  | .ofNat m, .negSucc n => .negSucc (m ^^^ n)
  | .negSucc m, .ofNat n => .negSucc (m ^^^ n)
  | .negSucc m, .negSucc n => .ofNat (m ^^^ n)

/-- Bitwise conjunction. -/
def bitAnd : Integer → Integer → Integer := combine (fun x y => some (x &&& y)) andInt

/-- Bitwise disjunction. -/
def bitOr : Integer → Integer → Integer := combine (fun x y => some (x ||| y)) orInt

/-- Bitwise exclusive disjunction. -/
def bitXor : Integer → Integer → Integer := combine (fun x y => some (x ^^^ y)) xorInt

/-! ## Decimal text -/

/-- Is `c` one of `0` to `9`? -/
def isDigit (c : Char) : Bool := '0' ≤ c && c ≤ '9'

/-- The value of a decimal digit. -/
def digitValue (c : Char) : Nat := c.toNat - '0'.toNat

/-- The number written by a list of decimal digits. -/
def ofDigits (digits : List Char) : Nat :=
  digits.foldl (fun value digit => 10 * value + digitValue digit) 0

/-- A token's sign, `true` for minus, and what follows it.  At most one sign is taken. -/
def splitSign : List Char → Bool × List Char
  | '-' :: rest => (true, rest)
  | '+' :: rest => (false, rest)
  | token => (false, token)

/-- The integer written by a token: an optional sign and at least one digit. -/
def ofToken? (token : List Char) : Option Integer :=
  let (negative, digits) := splitSign token
  if digits.isEmpty || !digits.all isDigit then none
  else some (ofInt (if negative then -(ofDigits digits : Int) else (ofDigits digits : Int)))

/-- The decimal text of a number, with a minus sign where it is negative. -/
def decimal : Int → List Char
  | .ofNat n => Digits.ofNat n
  | .negSucc n => '-' :: Digits.ofNat (n + 1)

/-- The decimal text of an integer. -/
def toChars (n : Integer) : List Char := decimal n.toInt

/-! ## The number behind a representation -/

@[simp]
theorem toInt_ofInt (n : Int) : (ofInt n).toInt = n := by
  unfold ofInt
  split
  · next fits =>
      obtain ⟨low, high⟩ := fits
      simp only [least, greatest] at low high
      exact Int64.toInt_ofInt_of_le (by simpa using low) (by omega)
  · rfl

theorem canonical_ofInt (n : Int) : (ofInt n).Canonical := by
  unfold ofInt
  split
  · exact trivial
  · next large => exact large

end Integer

end ObjectLisp
