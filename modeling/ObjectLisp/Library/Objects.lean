import ObjectLisp.Interp.Object
import ObjectLisp.Library.Argument

/-!
# Built-in functions on classes, instances and operators
-/

namespace ObjectLisp.Library

/-- The class that an instance was made from. -/
def nominalClass (value : Value) : Eval Value := do
  match value with
  | .object index => return .class_ (← Eval.instance_ index).membership.nominal
  | _ => return .null

/-- The name of a class. -/
def nameOfClass (value : Value) : Eval Value := do
  let id ← Argument.class_ value
  Eval.str ((← get).classes.nameOf id)

/-- A class and its ancestors in the order of precedence. -/
def precedence (value : Value) : Eval Value := do
  let id ← Argument.class_ value
  let order ← fun interp =>
    let (order, classes) := interp.classes.linearization id
    EStateM.Result.ok order { interp with classes }
  Eval.list (order.map Value.class_)

/-- The names of the slots that a class defines, own and inherited. -/
def definedSlots (id : ClassId) : Eval (List String) := fun interp =>
  let (names, classes) := interp.classes.slotNames id
  .ok names { interp with classes }

/-- Names without repetition, in the order of their characters. -/
def sortedNames (names : List String) : List String :=
  names.eraseDups.mergeSort fun a b => decide (a ≤ b)

/-- New strings. -/
def strings : List String → Eval (List Value)
  | [] => pure []
  | text :: texts => do
      let value ← Eval.str text
      return value :: (← strings texts)

/-- The names of the slots of a class or an instance, stored ones included. -/
def visibleSlots (value : Value) : Eval (List String) := do
  match value with
  | .class_ id => definedSlots id
  | .object index =>
      let object ← Eval.instance_ index
      return object.slots.keys ++ (← definedSlots object.membership.effective)
  | other => Eval.typeError "class or instance" other

/-- The names of the slots of a class or an instance as strings. -/
def slotNameList (value : Value) : Eval Value := do
  Eval.list (← strings (sortedNames (← visibleSlots value)))

/-- Define a slot with a constant default. -/
def defineSlot (target name : Value) (init : Value) : Eval Value := do
  let id ← Object.target target
  let name ← Object.slotName name
  modify fun interp =>
    { interp with classes := interp.classes.addSlot id name (.constant init) }
  return .null

/-- Remove the definition of a slot; was there one? -/
def forgetSlot (target name : Value) : Eval Value := do
  let id ← Object.target target
  let name ← Object.slotName name
  fun interp =>
    let (found, classes) := interp.classes.removeSlot id name
    .ok (.bool found) { interp with classes }

/-- The classes among arguments that must all be classes. -/
def classList : List Value → Eval (List ClassId)
  | [] => pure []
  | value :: values => do
      let id ← Argument.class_ value
      return id :: (← classList values)

/-- Add parents to a class. -/
def addParents (target : Value) (parents : List Value) : Eval Value := do
  let id ← Argument.class_ target
  let parents ← classList parents
  fun interp =>
    let (result, classes) := interp.classes.extend id parents
    let interp := { interp with classes }
    match result with
    | .ok _ => .ok target interp
    | .error problem => Eval.fail (.user problem.message) interp

/-- Call a behavior by its name. -/
def sendTo (engine : Engine) (receiver name : Value) (arguments : List Value) : Eval Value := do
  let name ← Argument.name name
  Behavior.invoke engine name (receiver :: arguments) none

/-- Has a value a behavior? -/
def respondsTo (receiver name : Value) : Eval Value := do
  let name ← Argument.name name
  return .bool (← Behavior.has receiver name)

/-- The operand type that a value names. -/
def operandType (value : Value) : Eval TypeTag := do
  let name ← Argument.name value
  match TypeTag.ofName? name with
  | some tag => return tag
  | none => Eval.fail (.user ("unknown operand type " ++ name))

/-- Give an operator a method. -/
def extendOperator (operator first second function : Value) : Eval Value := do
  match operator with
  | .operator id =>
      let first ← operandType first
      let second ← operandType second
      if function.isFunction then
        modify fun interp =>
          { interp with
            operators := interp.operators.addMethod id first second (.function function) }
        return operator
      else
        Eval.typeError "function" function
  | other => Eval.typeError "operator" other

end ObjectLisp.Library
