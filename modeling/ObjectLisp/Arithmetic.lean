import ObjectLisp.Number.Binary64
import ObjectLisp.Failure
import ObjectLisp.Value.Equality

/-!
# Arithmetic

The methods that operators have from the start.  Integers stay exact; as soon
as a float takes part, both operands are turned into floats.  A quotient of
integers is an integer where the division leaves no rest and a float otherwise.
-/

namespace ObjectLisp

universe u

/-- An arithmetic operation. -/
inductive ArithOp where
  | add
  | sub
  | mul
  | div
  | mod
deriving Repr, DecidableEq

/-- A comparison. -/
inductive Comparison where
  | less
  | greater
  | atMost
  | atLeast
deriving Repr, DecidableEq

/-- An operation on the bits of integers. -/
inductive BitOp where
  | and
  | or
  | xor
deriving Repr, DecidableEq

/-- A method that an operator has from the start. -/
inductive NativeMethod where
  | integers (op : ArithOp)
  | numbers (op : ArithOp)
  | concat
  | compareNumbers (test : Comparison)
  | compareStrings (test : Comparison)
  | equalNumbers
  | equalValues
  | bits (op : BitOp)
  | shiftLeft
  | shiftRight
deriving Repr, DecidableEq

/-- A method of an operator: built in, or a function given by a program. -/
inductive OperatorMethod (ν : Type u) where
  | native (method : NativeMethod)
  | function (value : ν)
deriving Inhabited

/-! ## The operators at the start -/

/-- An operator at the start: its name, shape and methods. -/
structure OperatorSpec where
  name : String
  shape : OperatorShape
  methods : List (TypeTag × NativeMethod)

/-- Methods for integers and for numbers in general. -/
def arithMethods (op : ArithOp) : List (TypeTag × NativeMethod) :=
  [(.integer, .integers op), (.number, .numbers op)]

/-- Methods for numbers and for strings. -/
def orderMethods (test : Comparison) : List (TypeTag × NativeMethod) :=
  [(.number, .compareNumbers test), (.string, .compareStrings test)]

/-- The operators at the start.  Both operands of each method have the same type. -/
def operatorSpecs : List OperatorSpec :=
  [⟨"+", .fold (some 0) none, arithMethods .add ++ [(.string, .concat)]⟩,
    ⟨"-", .fold none (some 0), arithMethods .sub⟩,
    ⟨"*", .fold (some 1) none, arithMethods .mul⟩,
    ⟨"/", .fold none (some 1), arithMethods .div⟩,
    ⟨"mod", .binary, arithMethods .mod⟩,
    ⟨"<", .chain, orderMethods .less⟩,
    ⟨">", .chain, orderMethods .greater⟩,
    ⟨"<=", .chain, orderMethods .atMost⟩,
    ⟨">=", .chain, orderMethods .atLeast⟩,
    ⟨"=", .chain, [(.number, .equalNumbers), (.object, .equalValues)]⟩,
    ⟨"bit-and", .fold none none, [(.integer, .bits .and)]⟩,
    ⟨"bit-or", .fold none none, [(.integer, .bits .or)]⟩,
    ⟨"bit-xor", .fold none none, [(.integer, .bits .xor)]⟩,
    ⟨"shl", .binary, [(.integer, .shiftLeft)]⟩,
    ⟨"shr", .binary, [(.integer, .shiftRight)]⟩]

/-- The operator described by a specification. -/
def OperatorSpec.operator {ν : Type u} (spec : OperatorSpec) :
    GenericOperator (OperatorMethod ν) :=
  spec.methods.foldl (fun operator entry => operator.addMethod entry.1 entry.1 (.native entry.2))
    { name := spec.name, shape := spec.shape }

/-- The operators that every interpreter starts with. -/
def OperatorTable.builtin {ν : Type u} : OperatorTable (OperatorMethod ν) :=
  ⟨(operatorSpecs.map OperatorSpec.operator).toArray⟩

namespace Arithmetic

/-! ## Numbers -/

/-- A number: an integer or a float. -/
inductive Number where
  | int (value : Integer)
  | float (value : Float)
deriving Repr

/-- The number that a value is. -/
def number (value : Value) : Except Cause Number :=
  match value with
  | .int n => .ok (.int n)
  | .float x => .ok (.float x)
  | other => .error (.typeError "number" other)

/-- The float nearest to a number. -/
def Number.toFloat : Number → Float
  | .int n => Binary64.ofInt n.toInt
  | .float x => x

/-- The integer that a value is. -/
def integer (value : Value) : Except Cause Integer :=
  match value with
  | .int n => .ok n
  | other => .error (.typeError "number" other)

/-- Division of integers: exact if there is no rest. -/
def divide (a b : Integer) : Value :=
  match a.divExact? b with
  | some quotient => .int quotient
  | none => .float (Binary64.ofInt a.toInt / Binary64.ofInt b.toInt)

/-- An operation on integers. -/
def integers (op : ArithOp) (a b : Integer) : Except Cause Value :=
  match op with
  | .add => .ok (.int (a.add b))
  | .sub => .ok (.int (a.sub b))
  | .mul => .ok (.int (a.mul b))
  | .div => if b.toInt = 0 then .error .divisionByZero else .ok (divide a b)
  | .mod => if b.toInt = 0 then .error .divisionByZero else .ok (.int (a.floorMod b))

/-- An operation on floats.  Only a remainder by zero is refused. -/
def floats (op : ArithOp) (x y : Float) : Except Cause Value :=
  match op with
  | .add => .ok (.float (x + y))
  | .sub => .ok (.float (x - y))
  | .mul => .ok (.float (x * y))
  | .div => .ok (.float (x / y))
  | .mod => if y == 0.0 then .error .divisionByZero else .ok (.float (Binary64.floorMod x y))

/-! ## Comparisons -/

/-- Does an order pass a comparison? -/
def Comparison.holds : Comparison → Ordering → Bool
  | .less, order => order = .lt
  | .greater, order => order = .gt
  | .atMost, order => order ≠ .gt
  | .atLeast, order => order ≠ .lt

/-- The order of two numbers.  Two integers are compared exactly. -/
def compareNumbers? : Number → Number → Option Ordering
  | .int a, .int b => some (compare a.toInt b.toInt)
  | a, b => Binary64.compare? a.toFloat b.toFloat

/-- Does an order that may be missing pass a comparison? -/
def passes (test : Comparison) : Option Ordering → Bool
  | some order => Comparison.holds test order
  | none => false

/-- The two texts of a string operation. -/
def texts (a b : Value) : Except Cause (String × String) :=
  match a, b with
  | .str _ x, .str _ y => .ok (x, y)
  | .str .., other => .error (.typeError "string" other)
  | other, _ => .error (.typeError "string" other)

/-! ## Bits -/

/-- An operation on the bits of integers. -/
def bits (op : BitOp) (a b : Integer) : Integer :=
  match op with
  | .and => a.bitAnd b
  | .or => a.bitOr b
  | .xor => a.bitXor b

/-- The greatest shift. -/
def shiftLimit : Nat := Nat.pow 2 20

/-- The number of places of a shift. -/
def shiftAmount (value : Value) : Except Cause Nat :=
  match value with
  | .int n =>
      match n.toIndex? with
      | some amount =>
          if amount ≤ shiftLimit then .ok amount else .error (.shiftTooLarge amount shiftLimit)
      | none => .error (.typeError "non-negative shift amount" value)
  | other => .error (.typeError "non-negative shift amount" other)

/-! ## The methods -/

/-- Apply a built-in method to two operands. -/
def run (heap : Heap) (method : NativeMethod) (a b : Value) : Except Cause (Value × Heap) :=
  match method with
  | .integers op => do
      let x ← integer a
      let y ← integer b
      let result ← integers op x y
      return (result, heap)
  | .numbers op => do
      let x ← number a
      let y ← number b
      let result ← floats op x.toFloat y.toFloat
      return (result, heap)
  | .concat => do
      let (x, y) ← texts a b
      return heap.str (x ++ y)
  | .compareNumbers test => do
      let x ← number a
      let y ← number b
      return (.bool (passes test (compareNumbers? x y)), heap)
  | .compareStrings test => do
      let (x, y) ← texts a b
      return (.bool (Comparison.holds test (compare x y)), heap)
  | .equalNumbers => do
      let x ← number a
      let y ← number b
      return (.bool (compareNumbers? x y = some .eq), heap)
  | .equalValues => return (.bool (Value.equal heap a b), heap)
  | .bits op => do
      let x ← integer a
      let y ← integer b
      return (.int (bits op x y), heap)
  | .shiftLeft => do
      let amount ← shiftAmount b
      let x ← integer a
      return (.int (x.shiftLeft amount), heap)
  | .shiftRight => do
      let amount ← shiftAmount b
      let x ← integer a
      return (.int (x.shiftRight amount), heap)

end Arithmetic

end ObjectLisp
