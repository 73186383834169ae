import ObjectLisp.Interp.Engine
import ObjectLisp.Library.Argument

/-!
# Built-in functions on lists and vectors
-/

namespace ObjectLisp.Library

/-- First element; that of the empty list is null. -/
def first (value : Value) : Eval Value :=
  match value with
  | .null => pure .null
  | .cons _ car _ => pure car
  | other => Eval.typeError "list" other

/-- All but the first element; of the empty list this is the empty list. -/
def rest (value : Value) : Eval Value :=
  match value with
  | .null => pure .null
  | .cons _ _ cdr => pure cdr
  | other => Eval.typeError "list" other

/-- The elements of several lists. -/
def elements : List Value → Eval (List Value)
  | [] => pure []
  | value :: values => do
      let items ← Argument.list value
      return items ++ (← elements values)

/-- Join lists.  All but the last are copied; the last may be anything. -/
def join (values : List Value) : Eval Value :=
  match values with
  | [] => pure .null
  | first :: others => do
      Eval.listWithTail (← elements (first :: others).dropLast) (others.getLastD first)

/-- Number of elements of a list or vector, or of characters of a string. -/
def size (value : Value) : Eval Value :=
  match value with
  | .str _ text => pure (.ofNat text.toList.length)
  | .vector index => do return .ofNat ((← get).heap.items index).size
  | other => do return .ofNat (← Argument.list other).length

/-- The element at a position, or null. -/
def element (position list : Value) : Eval Value := do
  let position ← Argument.index position
  let items ← Argument.list list
  return items.getD position .null

/-- The values of a function at the elements of a list. -/
def mapped (engine : Engine) (function : Value) : List Value → Eval (List Value)
  | [] => pure []
  | item :: items => do
      let value ← engine.apply function [item] none
      return value :: (← mapped engine function items)

/-- Call a function for each element of a list. -/
def visited (engine : Engine) (function : Value) : List Value → Eval Unit
  | [] => pure ()
  | item :: items => do
      let _ ← engine.apply function [item] none
      visited engine function items

/-- The elements of a list at which a function is true. -/
def kept (engine : Engine) (function : Value) : List Value → Eval (List Value)
  | [] => pure []
  | item :: items => do
      if (← engine.apply function [item] none).isTrue then
        return item :: (← kept engine function items)
      else
        kept engine function items

/-- Combine the elements of a list from the left. -/
def folded (engine : Engine) (function value : Value) : List Value → Eval Value
  | [] => pure value
  | item :: items => do
      let value ← engine.apply function [value, item] none
      folded engine function value items

/-! ## Vectors -/

/-- Fail because a position is outside of a vector. -/
def outOfRange {α : Type} (position size : Nat) : Eval α :=
  Eval.fail (.user
    ("index " ++ toString position ++ " out of range for length " ++ toString size))

/-- The item of a vector at a position. -/
def vectorItem (vector position : Value) : Eval Value := do
  let index ← Argument.vector vector
  let position ← Argument.index position
  let items := (← get).heap.items index
  match items[position]? with
  | some value => return value
  | none => outOfRange position items.size

/-- Change the item of a vector at a position. -/
def setVectorItem (vector position value : Value) : Eval Value := do
  let index ← Argument.vector vector
  let position ← Argument.index position
  let size := ((← get).heap.items index).size
  if position < size then
    modify fun interp =>
      { interp with
        heap.vectors := interp.heap.vectors.modify index (·.setIfInBounds position value) }
    return value
  else
    outOfRange position size

/-- Number of items of a vector. -/
def vectorSize (vector : Value) : Eval Value := do
  let index ← Argument.vector vector
  return .ofNat ((← get).heap.items index).size

/-- The items of a vector as a list. -/
def vectorItems (vector : Value) : Eval Value := do
  let index ← Argument.vector vector
  Eval.list ((← get).heap.items index).toList

end ObjectLisp.Library
