import ObjectLisp.Interp.Behavior

/-!
# Instances and slots

An instance stores the slots that were written or read.  Reading a slot that is
not stored takes the default of its definition, computed if need be, and stores
it.  Any name can be written.  Behaviors named `get_slot` and `set_slot` stand
in front of the plain access, if an instance has them.
-/

namespace ObjectLisp.Object

/-- The name of a slot, given as a string or a symbol. -/
def slotName (value : Value) : Eval String :=
  match value with
  | .str _ text => pure text
  | .symbol symbol => Eval.nameOf symbol
  | other => Eval.typeError "slot name" other

/-- The number of the instance that a value is. -/
def index (value : Value) : Eval Nat :=
  match value with
  | .object index => pure index
  | other => Eval.typeError "instance" other

/-- Store a slot of an instance. -/
def store (index : Nat) (name : String) (value : Value) : Eval Unit :=
  modify fun interp =>
    { interp with
      heap.objects := interp.heap.objects.modify index fun object =>
        { object with slots := object.slots.insert name value } }

/-- Store slots given as pairs of names and values. -/
def slotsOf (slots : Assoc String Value) : List Value → Eval (Assoc String Value)
  | name :: value :: rest => do
      let name ← slotName name
      slotsOf (slots.insert name value) rest
  | _ => pure slots

/-- Make an instance of a class and call its behavior `initialize`, if it has one. -/
def make (engine : Engine) (class_ : ClassId) (arguments : List Value) : Eval Value := do
  if arguments.length % 2 ≠ 0 then
    Eval.fail (.unpairedKeyword arguments.length)
  else
    let slots ← slotsOf {} arguments
    let object ← Eval.heap (·.newObject { membership := { nominal := class_ }, slots })
    if (← Behavior.find class_ "initialize").isSome then
      let _ ← Behavior.invoke engine "initialize" [object] none
    return object

/-! ## Plain access -/

/-- The definition that gives a slot of a class its default. -/
def definition (class_ : ClassId) (name : String) : Eval (Slot SlotDefault) := fun interp =>
  let (slot?, classes) := interp.classes.effectiveSlot? class_ name
  let interp := { interp with classes }
  match slot? with
  | some slot => .ok slot interp
  | none => Eval.fail (.unknownSlot name (interp.classes.nameOf class_)) interp

/-- The default of a slot, computed if need be. -/
def defaultValue (engine : Engine) : SlotDefault → Eval Value
  | .constant value => pure value
  | .computed function => engine.apply function [] none

/-- Read a slot: the stored value, or else the default, which is stored. -/
def slotValue (engine : Engine) (object : Value) (name : String) : Eval Value := do
  let index ← index object
  let instance_ ← Eval.instance_ index
  match instance_.slots.find? name with
  | some value => return value
  | none =>
      let slot ← definition instance_.membership.effective name
      let value ← defaultValue engine slot.default
      store index slot.name value
      return value

/-- Write a slot. -/
def setSlotValue (object : Value) (name : String) (value : Value) : Eval Value := do
  let index ← index object
  store index name value
  return value

/-! ## Access through behaviors -/

/-- The class that decides about an instance. -/
def effectiveClass (object : Value) : Eval ClassId := do
  return (← Eval.instance_ (← index object)).membership.effective

/-- Read a slot through its behavior, if there is one. -/
def getSlot (engine : Engine) (object : Value) (name : String) : Eval Value := do
  let class_ ← effectiveClass object
  match ← Behavior.find class_ ("get_" ++ name) with
  | some chain => Behavior.run engine chain (some 0) [object] none
  | none => slotValue engine object name

/-- Write a slot through its behavior, if there is one.  The value is the one written. -/
def setSlot (engine : Engine) (object : Value) (name : String) (value : Value) : Eval Value := do
  let class_ ← effectiveClass object
  match ← Behavior.find class_ ("set_" ++ name) with
  | some chain =>
      let _ ← Behavior.run engine chain (some 0) [object, value] none
      return value
  | none => setSlotValue object name value

/-! ## Classes -/

/-- The class to change: a class itself, or the class made for an instance alone. -/
def target (value : Value) : Eval ClassId :=
  match value with
  | .class_ id => pure id
  | .object index => fun interp =>
      let object := interp.heap.objects.getD index default
      let (own, membership, classes) := interp.classes.customize object.membership
      .ok own
        { interp with
          classes
          heap.objects := interp.heap.objects.modify index fun object =>
            { object with membership } }
  | other => Eval.typeError "class or instance" other

/-- Is a value an instance of a class? -/
def isInstance (value : Value) (class_ : ClassId) : Eval Bool :=
  match value with
  | .object index => fun interp =>
      let object := interp.heap.objects.getD index default
      let (below, classes) := interp.classes.isSubclass object.membership.effective class_
      .ok below { interp with classes }
  | _ => pure false

end ObjectLisp.Object
