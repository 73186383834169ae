import ObjectLisp.Assoc

/-!
# Operators

An operator chooses its method by the types of both operands.  Types form a
small tree, and a method applies to operands whose types lie at or below the
types it was registered for.  Of the methods that apply, the one with the more
specific first type wins, and among those the one with the more specific second
type.

The choice for a pair of operand types is remembered until a method is added.
-/

namespace ObjectLisp

universe u

/-- Types of operands. -/
inductive TypeTag where
  | object
  | number
  | integer
  | float
  | string
  | symbol
  | boolean
  | null
  | cons
  | vector
  | function
  | class_
  | instance_
  | native
deriving Repr, DecidableEq, Inhabited

namespace TypeTag

/-- The type above a type. -/
def parent? : TypeTag → Option TypeTag
  | object => none
  | integer | float => some number
  | _ => some object

/-- A type and the types above it, most specific first. -/
def ancestors : TypeTag → List TypeTag
  | object => [object]
  | integer => [integer, number, object]
  | float => [float, number, object]
  | tag => [tag, object]

/-- Is every value of type `other` also of type `tag`? -/
def includes (tag other : TypeTag) : Bool := tag ∈ other.ancestors

/-- The name of a type. -/
def name : TypeTag → String
  | object => "object"
  | number => "number"
  | integer => "integer"
  | float => "float"
  | string => "string"
  | symbol => "symbol"
  | boolean => "boolean"
  | null => "null"
  | cons => "cons"
  | vector => "vector"
  | function => "function"
  | class_ => "class"
  | instance_ => "instance"
  | native => "native"

/-- All types. -/
def all : List TypeTag :=
  [object, number, integer, float, string, symbol, boolean, null, cons, vector, function,
    class_, instance_, native]

/-- The type of a given name. -/
def ofName? (name : String) : Option TypeTag := all.find? (·.name == name)

/-- The types above a type are its parent and what lies above that. -/
theorem ancestors_eq (tag : TypeTag) :
    tag.ancestors = tag :: (tag.parent?.map ancestors).getD [] := by
  cases tag <;> rfl

end TypeTag

/-- Number of an operator. -/
abbrev OperatorId := Nat

/-- How an operator treats argument counts other than two. -/
inductive OperatorShape where
  /-- Combine from the left.  `empty` is the result for no arguments; a single argument is
  combined with `unary` if there is one, and else it is the result. -/
  | fold (empty unary : Option Int)
  /-- Compare neighbours; true if all comparisons hold. -/
  | chain
  /-- Exactly two arguments. -/
  | binary
deriving Repr, DecidableEq, Inhabited

/-- A pair of operand types. -/
abbrev TypePair := TypeTag × TypeTag

/-- An operator with methods of type `μ`. -/
structure GenericOperator (μ : Type u) where
  name : String
  shape : OperatorShape
  /-- Methods by first and second type, in the order in which the types were first used. -/
  table : Assoc TypeTag (Assoc TypeTag μ) := {}
  /-- For operand types that came up before, the pair whose method was chosen. -/
  cache : Assoc TypePair (Option TypePair) := {}
  /-- Number of searches of the table. -/
  scans : Nat := 0
deriving Inhabited

namespace GenericOperator

variable {μ : Type u}

/-- The methods registered for a first type. -/
def row (operator : GenericOperator μ) (first : TypeTag) : Assoc TypeTag μ :=
  match operator.table.find? first with
  | some methods => methods
  | none => {}

/-- The method registered for a pair of types. -/
def method? (operator : GenericOperator μ) (pair : TypePair) : Option μ :=
  (operator.row pair.1).find? pair.2

/-- Register a method, in place of an earlier one for the same types. -/
def addMethod (operator : GenericOperator μ) (first second : TypeTag) (method : μ) :
    GenericOperator μ :=
  { operator with
    table := operator.table.insert first ((operator.row first).insert second method)
    cache := {} }

/-- All pairs of types that have a method. -/
def pairs (operator : GenericOperator μ) : List TypePair :=
  operator.table.entries.flatMap fun row => row.2.keys.map fun second => (row.1, second)

/-- Does a method for the pair apply to operands of these types? -/
def applies (pair : TypePair) (a b : TypeTag) : Bool := pair.1.includes a && pair.2.includes b

/-- Is one pair more specific than another?  A difference in the first type decides. -/
def moreSpecific (candidate best : TypePair) : Bool :=
  if candidate.1 = best.1 then candidate.2 ≠ best.2 && best.2.includes candidate.2
  else best.1.includes candidate.1

/-- The better of the best pair so far and a candidate. -/
def better (best : Option TypePair) (candidate : TypePair) : Option TypePair :=
  match best with
  | none => some candidate
  | some held => if moreSpecific candidate held then some candidate else some held

/-- The most specific pair that applies, found by going through the table. -/
def scan (operator : GenericOperator μ) (a b : TypeTag) : Option TypePair :=
  (operator.pairs.filter (applies · a b)).foldl better none

/-- Choose the pair for two operand types, from the cache where it is known. -/
def choose (operator : GenericOperator μ) (a b : TypeTag) :
    Option TypePair × GenericOperator μ :=
  match operator.cache.find? (a, b) with
  | some known => (known, operator)
  | none =>
      let found := operator.scan a b
      (found,
        { operator with
          cache := operator.cache.insert (a, b) found, scans := operator.scans + 1 })

/-- Choose the method for two operand types. -/
def select (operator : GenericOperator μ) (a b : TypeTag) : Option μ × GenericOperator μ :=
  let (pair, operator) := operator.choose a b
  (pair.bind operator.method?, operator)

/-- Number of methods. -/
def methodCount (operator : GenericOperator μ) : Nat := operator.pairs.length

end GenericOperator

/-- The operators of an interpreter, by number. -/
structure OperatorTable (μ : Type u) where
  operators : Array (GenericOperator μ) := #[]
deriving Inhabited

namespace OperatorTable

variable {μ : Type u}

/-- Add an operator without methods. -/
def define (table : OperatorTable μ) (name : String) (shape : OperatorShape) :
    OperatorId × OperatorTable μ :=
  (table.operators.size, ⟨table.operators.push { name, shape }⟩)

/-- The operator of a given number. -/
def get? (table : OperatorTable μ) (id : OperatorId) : Option (GenericOperator μ) :=
  table.operators[id]?

/-- The name of an operator. -/
def name? (table : OperatorTable μ) (id : OperatorId) : Option String :=
  (table.get? id).map (·.name)

/-- The first operator of a given name. -/
def find? (table : OperatorTable μ) (name : String) : Option OperatorId :=
  table.operators.findIdx? (·.name == name)

/-- Register a method of an operator. -/
def addMethod (table : OperatorTable μ) (id : OperatorId) (first second : TypeTag)
    (method : μ) : OperatorTable μ :=
  ⟨table.operators.modify id (·.addMethod first second method)⟩

/-- Choose a method of an operator. -/
def select (table : OperatorTable μ) (id : OperatorId) (a b : TypeTag) :
    Option μ × OperatorTable μ :=
  match table.operators[id]? with
  | none => (none, table)
  | some operator =>
      let (method, operator) := operator.select a b
      (method, ⟨table.operators.setIfInBounds id operator⟩)

end OperatorTable

end ObjectLisp
