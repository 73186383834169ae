import ObjectLisp.Number.Integer
import ObjectLisp.Symbol.Basic
import ObjectLisp.Operator
import ObjectLisp.ClassSpace
import ObjectLisp.Primitive

/-!
# Values

The values of a running program.  Lists and strings are values in themselves
but have an identity that a program can see, so each cell and each string
carries a number that no other one has.  Vectors, closures, instances and the
like can change or refer to code; they are known by their number in the heap.
-/

namespace ObjectLisp

/-- Number that tells a cell or a string from all others. -/
abbrev Identity := Nat

/-- A value of a running program. -/
inductive Value where
  | null
  | bool (value : Bool)
  | int (value : Integer)
  | float (value : Float)
  | str (id : Identity) (text : String)
  | symbol (symbol : SymbolId)
  | cons (id : Identity) (car cdr : Value)
  | vector (index : Nat)
  | closure (index : Nat)
  /-- A closure that turns forms into other forms before they are evaluated. -/
  | expander (index : Nat)
  | primitive (function : Primitive)
  | operator (operator : OperatorId)
  /-- What a method receives to call the next one. -/
  | nextMethod (index : Nat)
  | class_ (id : ClassId)
  | object (index : Nat)
  /-- An object of the host. -/
  | native (index : Nat)
deriving Repr, Inhabited

namespace Value

/-- Everything counts as true but `null` and `false`. -/
def isTrue : Value → Bool
  | null | bool false => false
  | _ => true

/-- An integer value. -/
def ofNat (n : Nat) : Value := int (.ofInt n)

/-- The short name of a value's type in messages. -/
def typeName : Value → String
  | null => "null"
  | bool _ => "boolean"
  | int _ => "integer"
  | float _ => "float"
  | str .. => "string"
  | symbol _ => "symbol"
  | cons .. => "cons"
  | vector _ => "vector"
  | closure _ => "closure"
  | expander _ => "macro"
  | primitive _ => "primitive"
  | operator _ => "operator"
  | nextMethod _ => "next-method"
  | class_ _ => "class"
  | object _ => "instance"
  | native _ => "native"

/-- The type by which operators choose their methods. -/
def tag : Value → TypeTag
  | null => .null
  | bool _ => .boolean
  | int _ => .integer
  | float _ => .float
  | str .. => .string
  | symbol _ => .symbol
  | cons .. => .cons
  | vector _ => .vector
  | closure _ | expander _ | primitive _ | operator _ | nextMethod _ => .function
  | class_ _ => .class_
  | object _ => .instance_
  | native _ => .native

/-- The elements of a proper list, behind those already collected in reverse. -/
def collect (taken : List Value) : Value → Option (List Value)
  | null => some taken.reverse
  | cons _ car cdr => collect (car :: taken) cdr
  | _ => none

/-- The elements of a proper list. -/
def toList? (value : Value) : Option (List Value) := collect [] value

/-- Can the value be used as a method of an operator? -/
def isFunction : Value → Bool
  | closure _ | primitive _ | operator _ => true
  | _ => false

/-- Are two values the same?  Numbers are compared by value, floats by their bits, everything
else that has an identity by that. -/
def same : Value → Value → Bool
  | null, null => true
  | bool a, bool b => a = b
  | int a, int b => a = b
  | float a, float b => a.toBits = b.toBits
  | str a _, str b _ => a = b
  | symbol a, symbol b => a = b
  | cons a _ _, cons b _ _ => a = b
  | vector a, vector b => a = b
  | closure a, closure b => a = b
  | expander a, expander b => a = b
  | primitive a, primitive b => a = b
  | operator a, operator b => a = b
  | nextMethod a, nextMethod b => a = b
  | class_ a, class_ b => a = b
  | object a, object b => a = b
  | native a, native b => a = b
  | _, _ => false

theorem eq_ofNat_of_same {value : Value} {number : Nat}
    (isSame : same (.ofNat number) value = true) : value = .ofNat number := by
  cases value with
  | int integer =>
      have equal : Integer.ofInt number = integer := by
        simpa [same, ofNat] using isSame
      rw [← equal]
      rfl
  | _ => cases isSame

end Value

end ObjectLisp
