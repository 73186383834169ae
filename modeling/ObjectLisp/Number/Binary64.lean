/-!
# The exact value of a binary64 number

A finite number is `± mantissa * 2 ^ exponent`.  This module takes that form
apart and uses it where exact arithmetic is needed: for the float nearest to a
fraction or an integer and for the remainder of two floats.
-/

namespace ObjectLisp.Binary64

/-- A finite binary64 number: `mantissa * 2 ^ exponent`, negated if `negative`. -/
structure Parts where
  negative : Bool
  mantissa : Nat
  exponent : Int
deriving Repr, DecidableEq

/-- The exponent of the subnormal numbers, the least one. -/
def leastExponent : Int := -1074

/-- The mantissa at which the exponent changes: `2 ^ 52`. -/
def hiddenBit : Nat := Nat.pow 2 52

/-- Take a bit pattern apart.  `none` stands for infinities and for what is not a number. -/
def decode (bits : UInt64) : Option Parts :=
  let word : Nat := bits.toNat
  let negative : Bool := word / Nat.pow 2 63 = 1
  let biased : Nat := word / Nat.pow 2 52 % Nat.pow 2 11
  let fraction : Nat := word % Nat.pow 2 52
  if biased = Nat.pow 2 11 - 1 then none
  else if biased = 0 then some ⟨negative, fraction, leastExponent⟩
  else some ⟨negative, fraction + hiddenBit, (biased : Int) - 1075⟩

/-- The float `± mantissa * 2 ^ exponent`, for parts that have an exact float. -/
def encode (parts : Parts) : Float :=
  let magnitude := (Float.ofNat parts.mantissa).scaleB parts.exponent
  if parts.negative then -magnitude else magnitude

/-- The float nearest to a natural number, ties to even. -/
def ofNat (n : Nat) : Float :=
  if n < Nat.pow 2 53 then Float.ofNat n
  else
    let excess : Nat := n.log2 - 52
    let quotient : Nat := n >>> excess
    let rest : Nat := n % Nat.pow 2 excess
    let half : Nat := Nat.pow 2 (excess - 1)
    let up : Bool := half < rest || (rest = half && quotient % 2 = 1)
    (Float.ofNat (if up then quotient + 1 else quotient)).scaleB excess

/-- The float nearest to an integer, ties to even. -/
def ofInt : Int → Float
  | .ofNat n => ofNat n
  | .negSucc n => -ofNat (n + 1)

/-! ## The float nearest to a fraction -/

/-- A fraction in units of `2 ^ exponent`, as numerator and denominator. -/
def inUnits (numerator denominator : Nat) (exponent : Int) : Nat × Nat :=
  (numerator * Nat.pow 2 (-exponent).toNat, denominator * Nat.pow 2 exponent.toNat)

/-- The natural number nearest to a fraction, ties to even. -/
def roundEven (numerator denominator : Nat) : Nat :=
  let quotient := numerator / denominator
  let twice := 2 * (numerator % denominator)
  if denominator < twice ∨ denominator = twice ∧ quotient % 2 = 1 then quotient + 1 else quotient

/-- The exponent of the last place of the floats around a fraction. -/
def lastPlace (numerator denominator : Nat) : Int :=
  let low : Int := (numerator.log2 : Int) - denominator.log2 - 53
  let (scaled, unit) := inUnits numerator denominator low
  max leastExponent (if scaled < 2 * hiddenBit * unit then low else low + 1)

/-- The bit pattern of infinity. -/
def infinityWord : Nat := 2047 * hiddenBit

/-- The bit pattern of the float nearest to a positive fraction, ties to even.  A mantissa that is
rounded up to a power of two carries into the exponent. -/
def nearestWord (numerator denominator : Nat) : Nat :=
  let exponent := lastPlace numerator denominator
  let (scaled, unit) := inUnits numerator denominator exponent
  min infinityWord ((exponent - leastExponent).toNat * hiddenBit + roundEven scaled unit)

/-- The float with a bit pattern for its magnitude. -/
def ofWord (negative : Bool) (magnitude : Nat) : Float :=
  Float.ofBits (UInt64.ofNat (if negative then Nat.pow 2 63 + magnitude else magnitude))

/-! ## Comparison and remainder -/

/-- The order of two floats; none if one of them is not a number. -/
def compare? (x y : Float) : Option Ordering :=
  if x < y then some .lt else if y < x then some .gt else if x == y then some .eq else none

/-- Not a number. -/
def nan : Float := 0.0 / 0.0

/-- Exact remainder of two finite numbers, the divisor not zero: what is left of `x` after
taking away `y` as often as possible, with the sign of `x`. -/
def remParts (x y : Parts) : Parts :=
  let unit := min x.exponent y.exponent
  let dividend := x.mantissa * Nat.pow 2 (x.exponent - unit).toNat
  let divisor := y.mantissa * Nat.pow 2 (y.exponent - unit).toNat
  ⟨x.negative, dividend % divisor, unit⟩

/-- Remainder with the sign of the dividend.  It is not a number where the dividend is infinite
or the divisor zero, and the dividend where the divisor is infinite. -/
def rem (x y : Float) : Float :=
  if x.isNaN || y.isNaN then nan
  else match decode x.toBits, decode y.toBits with
    | none, _ => nan
    | some _, none => x
    | some parts, some divisor =>
        if divisor.mantissa = 0 then nan else encode (remParts parts divisor)

/-- Remainder with the sign of the divisor. -/
def floorMod (x y : Float) : Float := rem (rem x y + y) y

end ObjectLisp.Binary64
