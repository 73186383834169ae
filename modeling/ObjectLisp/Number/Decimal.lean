import ObjectLisp.Number.Integer
import ObjectLisp.Number.Binary64

/-!
# Decimal text of floats

Writing uses the fewest digits that read back as the same float.  For one,
two, … seventeen digits the two neighbours of the value on that decimal grid
are tested against the interval of reals that round to it; the first grid with
a hit wins.  All of it is exact arithmetic on natural numbers.

Reading takes a token apart into digits and a power of ten; the conversion
rounds to nearest, ties to even.
-/

namespace ObjectLisp.Decimal

open Binary64

/-! ## Shortest digits -/

/-- A positive decimal `0.d₁d₂… * 10 ^ point`, its digits as one number. -/
structure Digits where
  value : Nat
  count : Nat
  point : Int
deriving Repr, DecidableEq

/-- Twice-scaled ends of the interval of reals that round to `mantissa * 2 ^ exponent`: in units
of `2 ^ (exponent - 2)` the value is `4 * mantissa`. -/
structure Interval where
  low : Nat
  value : Nat
  high : Nat
  /-- An even mantissa also owns the ends of its interval. -/
  closed : Bool
  unit : Int
deriving Repr, DecidableEq

/-- The interval that rounds to a number.  Below a power of two the floats lie twice as dense. -/
def interval (mantissa : Nat) (exponent : Int) : Interval where
  low := if mantissa = hiddenBit ∧ leastExponent < exponent then 4 * mantissa - 1
    else 4 * mantissa - 2
  value := 4 * mantissa
  high := 4 * mantissa + 2
  closed := mantissa % 2 = 0
  unit := exponent - 2

/-- Numerator and denominator of `2 ^ two * 10 ^ ten`. -/
def scale (two ten : Int) : Nat × Nat :=
  (Nat.pow 2 two.toNat * Nat.pow 10 ten.toNat, Nat.pow 2 (-two).toNat * Nat.pow 10 (-ten).toNat)

/-- Compare `a` units of `2 ^ unit` with `b` units of `10 ^ ten`. -/
def compareScaled (a : Nat) (unit : Int) (b : Nat) (ten : Int) : Ordering :=
  let (up, down) := scale unit (-ten)
  compare (a * up) (b * down)

/-- Does `candidate * 10 ^ ten` lie in the interval? -/
def Interval.holds (range : Interval) (candidate : Nat) (ten : Int) : Bool :=
  let low := compareScaled range.low range.unit candidate ten
  let high := compareScaled range.high range.unit candidate ten
  if range.closed then low != .gt && high != .lt else low == .lt && high == .gt

/-- The greatest multiple of `10 ^ ten` that is at most the value, in units of `10 ^ ten`. -/
def Interval.floor (range : Interval) (ten : Int) : Nat :=
  let (up, down) := scale range.unit (-ten)
  range.value * up / down

/-- The decimal exponent of the value: `10 ^ (point - 1) ≤ value < 10 ^ point`. -/
def Interval.point (range : Interval) : Int :=
  let estimate : Int := ((Nat.log2 range.value : Int) + range.unit) * 30103 / 100000
  if range.floor estimate = 0 then estimate
  else if range.floor (estimate + 1) = 0 then estimate + 1
  else estimate + 2

/-- The neighbour of the value on the grid of `10 ^ ten` that rounds back to it: the nearer one of
two, the upper one of two equally near. -/
def Interval.onGrid? (range : Interval) (ten : Int) : Option Nat :=
  let lower := range.floor ten
  let upper := lower + 1
  match range.holds lower ten, range.holds upper ten with
  | false, false => none
  | true, false => some lower
  | false, true => some upper
  | true, true =>
      if compareScaled (2 * range.value) range.unit (lower + upper) ten == .lt then some lower
      else some upper

/-- Try grids with more and more digits. -/
def searchGrids (range : Interval) (point : Int) : (attempts count : Nat) → Digits
  | 0, count => ⟨range.floor (point - count), count, point⟩
  | attempts + 1, count =>
      match range.onGrid? (point - count) with
      | some value => ⟨value, count, point⟩
      | none => searchGrids range point attempts (count + 1)

/-- The shortest decimal that reads back as `mantissa * 2 ^ exponent`. -/
def shortest (mantissa : Nat) (exponent : Int) : Digits :=
  let range := interval mantissa exponent
  searchGrids range range.point 17 1

/-! ## Layout -/

/-- How a float is laid out: the decimal points that are written positionally. -/
structure Layout where
  /-- Least position of the decimal point that is written out in zeros. -/
  leastPoint : Int
  /-- Greatest position of the decimal point that is written out in zeros. -/
  greatestPoint : Int

/-- Floats of the printer: positional from `1e-4` on and below `1e16`. -/
def Layout.printer : Layout := ⟨-3, 16⟩

/-- Drop zeros at the end of a digit string. -/
def dropTrailingZeros (digits : List Char) : List Char :=
  (digits.reverse.dropWhile (· = '0')).reverse

/-- Digits with the point at `point`, at least one digit on either side. -/
def positional (digits : List Char) (point : Int) : List Char :=
  if point ≤ 0 then
    '0' :: '.' :: (List.replicate (-point).toNat '0' ++ digits)
  else
    let whole := point.toNat
    if digits.length ≤ whole then
      digits ++ List.replicate (whole - digits.length) '0' ++ ['.', '0']
    else
      digits.take whole ++ '.' :: digits.drop whole

/-- Digits in scientific form: one digit before the point, no point without further digits. -/
def scientific (digits : List Char) (point : Int) : List Char :=
  let power := 'e' :: Integer.decimal (point - 1)
  match digits with
  | [] => power
  | first :: [] => first :: power
  | first :: rest => first :: '.' :: (rest ++ power)

/-- The text of a positive decimal. -/
def layoutDigits (layout : Layout) (decimal : Digits) : List Char :=
  let written := Nat.toDigits 10 decimal.value
  let point := decimal.point + ((written.length : Int) - decimal.count)
  let digits := dropTrailingZeros written
  if layout.leastPoint ≤ point ∧ point ≤ layout.greatestPoint then positional digits point
  else scientific digits point

/-- The text of a finite float. -/
def finiteChars (layout : Layout) (parts : Parts) : List Char :=
  let magnitude :=
    if parts.mantissa = 0 then ['0', '.', '0']
    else layoutDigits layout (shortest parts.mantissa parts.exponent)
  if parts.negative then '-' :: magnitude else magnitude

/-- The text of any float. -/
def toChars (layout : Layout) (x : Float) : List Char :=
  match decode x.toBits with
  | some parts => finiteChars layout parts
  | none =>
      if x.isNaN then ['N', 'a', 'N']
      else if x < 0.0 then ['-', 'I', 'n', 'f'] else ['+', 'I', 'n', 'f']

/-! ## Reading -/

/-- A decimal token taken apart: `± digits * 10 ^ power`. -/
structure Written where
  negative : Bool
  digits : List Char
  power : Int
deriving Repr, DecidableEq

/-- An exponent part: nothing, or `e` with an optional sign and at least one digit. -/
def exponent? : List Char → Option Int
  | [] => some 0
  | mark :: rest =>
      if mark = 'e' ∨ mark = 'E' then
        let (negative, digits) := Integer.splitSign rest
        if digits.isEmpty || !digits.all Integer.isDigit then none
        else some (if negative then -(Integer.ofDigits digits : Int) else Integer.ofDigits digits)
      else none

/-- Take a token apart: an optional sign, digits with at most one point and at least one digit,
an optional exponent. -/
def scan? (token : List Char) : Option Written :=
  let (negative, unsigned) := Integer.splitSign token
  let whole := unsigned.takeWhile Integer.isDigit
  let afterWhole := unsigned.dropWhile Integer.isDigit
  let (fraction, rest) := match afterWhole with
    | '.' :: tail => (tail.takeWhile Integer.isDigit, tail.dropWhile Integer.isDigit)
    | other => ([], other)
  if whole.isEmpty && fraction.isEmpty then none
  else (exponent? rest).map fun power =>
    ⟨negative, whole ++ fraction, power - (fraction.length : Int)⟩

/-- Decimal exponents beyond which every float is infinite or zero. -/
def powerLimit : Int := 400

/-- The float nearest to a decimal.  Powers far outside the range of floats are not computed. -/
def Written.toFloat (written : Written) : Float :=
  let value := Integer.ofDigits written.digits
  let point := written.power + (Nat.toDigits 10 value).length
  let magnitude :=
    if value = 0 ∨ point < -powerLimit then 0
    else if powerLimit < point then infinityWord
    else nearestWord (value * Nat.pow 10 written.power.toNat) (Nat.pow 10 (-written.power).toNat)
  ofWord written.negative magnitude

/-- Is this one of the characters of a decimal number? -/
def isNumeric (c : Char) : Bool :=
  Integer.isDigit c || c = '+' || c = '-' || c = '.' || c = 'e' || c = 'E'

/-- The float written by a token: decimal characters only, at least one digit, and the form of a
decimal number. -/
def ofToken? (token : List Char) : Option Float :=
  if token.any Integer.isDigit && token.all isNumeric then (scan? token).map Written.toFloat
  else none

end ObjectLisp.Decimal
