import ObjectLisp.Interp.Object

/-!
# Members

`object.name` and `(.name object …)` mean behaviors and slots where the object
is an instance or a class.  Members of other values are answered by the host,
which knows the coordinates of its points, how to scale them, and the length of
strings.
-/

namespace ObjectLisp.Member

/-- A member that the host knows. -/
inductive HostMember where
  | x
  | y
  | scale
  | length
deriving Repr, DecidableEq

/-- The name of the type by which the host finds members. -/
def hostType : Value → String
  | .native _ => "point"
  | other => other.typeName

/-- The member of a name that the host knows for a type. -/
def resolve? (type name : String) : Option HostMember :=
  match type, name with
  | "point", "x" => some .x
  | "point", "y" => some .y
  | "point", "scale" => some .scale
  | "string", "length" => some .length
  | _, _ => none

/-- The member of a value, if there is a host that knows it. -/
def resolve (object : Value) (name : String) : Eval HostMember := fun interp =>
  match if interp.host then resolve? (hostType object) name else none with
  | some member => .ok member interp
  | none =>
      Eval.fail (.host ("no member '" ++ name ++ "' on " ++ hostType object)) interp

/-- A point of the host. -/
def point (object : Value) : Eval HostPoint := fun interp =>
  match object with
  | .native index => .ok (interp.heap.points.getD index default) interp
  | _ => .ok default interp

/-- Change a point of the host. -/
def modifyPoint (object : Value) (change : HostPoint → HostPoint) : Eval Unit :=
  match object with
  | .native index =>
      modify fun interp =>
        { interp with heap.points := interp.heap.points.modify index change }
  | _ => pure ()

/-- The fixnum that the host takes. -/
def word (value : Value) : Eval Int64 :=
  match value with
  | .int (.fixnum n) => pure n
  | other => Eval.typeError "integer" other

/-- Read a member. -/
def get (object : Value) : HostMember → Eval Value
  | .x => do return .int (.fixnum (← point object).x)
  | .y => do return .int (.fixnum (← point object).y)
  | .length =>
      match object with
      | .str _ text => pure (.ofNat text.toList.length)
      | _ => pure .null
  | .scale => Eval.fail (.host "member is not readable")

/-- Write a member. -/
def set (object value : Value) : HostMember → Eval Unit
  | .x => do
      let n ← word value
      modifyPoint object ({ · with x := n })
  | .y => do
      let n ← word value
      modifyPoint object ({ · with y := n })
  | _ => Eval.fail (.host "member is not writable")

/-- Call a member.  Scaling multiplies both coordinates, which wrap around. -/
def invoke (object : Value) (arguments : List Value) : HostMember → Eval Value
  | .scale =>
      match arguments with
      | [factor] => do
          let n ← word factor
          let old ← point object
          Eval.heap (·.newPoint { x := old.x * n, y := old.y * n })
      | _ => Eval.fail (.host "scale takes one factor")
  | _ => Eval.fail (.host "member is not callable")

/-- Read or call a member of a value that is neither instance nor class. -/
def hostAccess (object : Value) (name : String) (arguments : List Value) : Eval Value := do
  let member ← resolve object name
  if arguments.isEmpty then get object member else invoke object arguments member

/-- Read or call a member.  An instance without the behavior is read as a slot if there are no
arguments. -/
def access (engine : Engine) (object : Value) (name : String) (arguments : List Value)
    (loc : Option SourceLoc) : Eval Value := do
  match object with
  | .object _ =>
      if arguments.isEmpty then
        if ← Behavior.has object name then Behavior.invoke engine name [object] loc
        else Object.getSlot engine object name
      else
        Behavior.invoke engine name (object :: arguments) loc
  | .class_ _ => Behavior.invoke engine name (object :: arguments) loc
  | _ => hostAccess object name arguments

/-- Write a member. -/
def assign (engine : Engine) (object : Value) (name : String) (value : Value) : Eval Value := do
  match object with
  | .object _ => Object.setSlot engine object name value
  | _ =>
      let member ← resolve object name
      set object value member
      return value

end ObjectLisp.Member
