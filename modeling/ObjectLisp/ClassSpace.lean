import ObjectLisp.Assoc
import ObjectLisp.Graph.Preorder
import ObjectLisp.MethodChain

/-!
# Classes

Classes are known by their number and list the classes they extend.  A class
sees the slots and methods of its linearization: itself and the classes it
extends, depth first, each where it is met first, and the root class `object`
at the end.

Each class remembers its linearization and the method chains that were asked
of it.  A change drops what the class and all classes extending it remember;
these are found through a table that is kept from parents to extenders.

Every change is logged as an event.
-/

namespace ObjectLisp

universe u v

/-- Number of a class. -/
abbrev ClassId := Nat

/-- The root class. -/
def ClassId.object : ClassId := 0

/-- A slot with the class that declares it and its default. -/
structure Slot (δ : Type u) where
  name : String
  owner : ClassId
  default : δ
deriving Repr, Inhabited

/-- A class with slot defaults of type `δ` and methods of type `μ`. -/
structure ClassDef (δ : Type u) (μ : Type v) where
  name : String
  /-- One more than the version of the class that had this name before. -/
  version : Nat := 1
  /-- The classes it extends, in order of precedence. -/
  extensions : List ClassId := []
  /-- The slots it declares itself. -/
  slots : List (Slot δ) := []
  /-- Made for a single instance. -/
  synthetic : Bool := false
  behaviors : Assoc String (MethodSet μ) := {}
  /-- The linearization, if it was asked for since the last change. -/
  order? : Option (List ClassId) := none
  /-- The method chains that were asked for since the last change. -/
  chains : Assoc String (Option (MethodChain μ)) := {}
deriving Inhabited

/-- A change of a class space. -/
inductive ClassEvent where
  | defined (class_ : ClassId) (version : Nat)
  | extended (class_ : ClassId) (parents : List ClassId)
  | slotAdded (class_ : ClassId) (slot : String)
  | slotRemoved (class_ : ClassId) (slot : String)
  | behaviorAdded (class_ : ClassId) (name : String)
  /-- What the class remembered was dropped. -/
  | invalidated (class_ : ClassId)
deriving Repr, DecidableEq

/-- The wording of an event. -/
def ClassEvent.text : ClassEvent → String
  | defined c version => s!"defined {c} v{version}"
  | extended c parents => s!"extended {c} by " ++ ",".intercalate (parents.map toString)
  | slotAdded c slot => s!"slot-added {c} {slot}"
  | slotRemoved c slot => s!"slot-removed {c} {slot}"
  | behaviorAdded c name => s!"behavior-added {c} {name}"
  | invalidated c => s!"invalidated {c}"

/-- Why a class cannot be extended. -/
inductive ClassProblem where
  | unknown (class_ : ClassId)
  /-- The parent already has the class among its ancestors. -/
  | circular (name parent : String)
deriving Repr, DecidableEq

/-- The wording of a problem. -/
def ClassProblem.message : ClassProblem → String
  | unknown c => s!"no class with index {c}"
  | circular name parent => name ++ " cannot extend " ++ parent ++ ": circular extension"

/-- The classes of an instance: the one it was made from and the one made for it alone. -/
structure Membership where
  nominal : ClassId
  own? : Option ClassId := none
deriving Repr, DecidableEq, Inhabited

/-- The class that decides about slots and methods of an instance. -/
def Membership.effective (membership : Membership) : ClassId :=
  membership.own?.getD membership.nominal

/-- All classes, by number. -/
structure ClassSpace (δ : Type u) (μ : Type v) where
  classes : Array (ClassDef δ μ) := #[{ name := "object" }]
  /-- The latest class of each name. -/
  byName : Assoc String ClassId := ⟨[("object", ClassId.object)]⟩
  /-- For each class the classes that list it among their extensions, in order of entry. -/
  extenders : Assoc ClassId (List ClassId) := {}
  /-- Events, latest first. -/
  log : List ClassEvent := []
deriving Inhabited

namespace ClassSpace

variable {δ : Type u} {μ : Type v}

/-- The class of a number. -/
def get? (space : ClassSpace δ μ) (id : ClassId) : Option (ClassDef δ μ) := space.classes[id]?

/-- The name of a class. -/
def nameOf (space : ClassSpace δ μ) (id : ClassId) : String :=
  match space.get? id with
  | some found => found.name
  | none => "#<invalid-class>"

/-- The latest class of a name. -/
def find? (space : ClassSpace δ μ) (name : String) : Option ClassId := space.byName.find? name

/-- Number of classes. -/
def size (space : ClassSpace δ μ) : Nat := space.classes.size

/-- Log an event. -/
def record (space : ClassSpace δ μ) (event : ClassEvent) : ClassSpace δ μ :=
  { space with log := event :: space.log }

/-- The logged events in order, and the space with an empty log. -/
def takeEvents (space : ClassSpace δ μ) : List ClassEvent × ClassSpace δ μ :=
  (space.log.reverse, { space with log := [] })

/-- Change a class. -/
def modify (space : ClassSpace δ μ) (id : ClassId) (change : ClassDef δ μ → ClassDef δ μ) :
    ClassSpace δ μ :=
  { space with classes := space.classes.modify id change }

/-! ## Linearization -/

/-- The classes that a class extends, the root class apart. -/
def parents (space : ClassSpace δ μ) (id : ClassId) : List ClassId :=
  match space.get? id with
  | some found => found.extensions.filter (· ≠ ClassId.object)
  | none => []

/-- Number of entries of all extension lists. -/
def extensionCount (space : ClassSpace δ μ) : Nat :=
  (space.classes.toList.flatMap (·.extensions)).length

/-- The linearization that the extension lists give a class. -/
def freshOrder (space : ClassSpace δ μ) (id : ClassId) : List ClassId :=
  if id = ClassId.object then [ClassId.object]
  else Graph.preorder space.parents space.extensionCount id ++ [ClassId.object]

/-- The linearization of a class, remembered from now on. -/
def linearization (space : ClassSpace δ μ) (id : ClassId) : List ClassId × ClassSpace δ μ :=
  match (space.get? id).bind (·.order?) with
  | some order => (order, space)
  | none =>
      let order := space.freshOrder id
      (order, space.modify id ({ · with order? := some order }))

/-- Is `ancestor` in the linearization of a class? -/
def isSubclass (space : ClassSpace δ μ) (id ancestor : ClassId) : Bool × ClassSpace δ μ :=
  let (order, space) := space.linearization id
  (ancestor ∈ order, space)

/-! ## Invalidation -/

/-- The classes registered as extending a class, latest first. -/
def children (space : ClassSpace δ μ) (id : ClassId) : List ClassId :=
  ((space.extenders.find? id).getD []).reverse

/-- Number of registered extenders. -/
def extenderCount (space : ClassSpace δ μ) : Nat :=
  space.extenders.values.flatten.length

/-- Drop what one class remembers. -/
def forget (space : ClassSpace δ μ) (id : ClassId) : ClassSpace δ μ :=
  (space.modify id ({ · with order? := none, chains := {} })).record (.invalidated id)

/-- Drop what a class and all classes extending it remember. -/
def invalidate (space : ClassSpace δ μ) (id : ClassId) : ClassSpace δ μ :=
  (Graph.preorder space.children space.extenderCount id).foldl forget space

/-- Register a class as extending another. -/
def register (space : ClassSpace δ μ) (parent child : ClassId) : ClassSpace δ μ :=
  { space with
    extenders := space.extenders.insert parent
      ((space.extenders.find? parent).getD [] ++ [child]) }

/-! ## Extension and definition -/

/-- Check parents from left to right and keep those that are new.  The root class and classes
that are extended already are passed over. -/
def checkParents (space : ClassSpace δ μ) (id : ClassId) (existing added : List ClassId) :
    List ClassId → Except ClassProblem (List ClassId) × ClassSpace δ μ
  | [] => (.ok added, space)
  | parent :: rest =>
      if parent = ClassId.object ∨ parent ∈ existing ∨ parent ∈ added then
        checkParents space id existing added rest
      else if (space.get? parent).isNone then (.error (.unknown parent), space)
      else if parent = id then
        (.error (.circular (space.nameOf id) (space.nameOf parent)), space)
      else
        let (below, space) := space.isSubclass parent id
        if below then (.error (.circular (space.nameOf id) (space.nameOf parent)), space)
        else checkParents space id existing (added ++ [parent]) rest

/-- Let a class extend further classes, behind those it extends already. -/
def extend (space : ClassSpace δ μ) (id : ClassId) (parents : List ClassId) :
    Except ClassProblem Unit × ClassSpace δ μ :=
  match space.get? id with
  | none => (.error (.unknown id), space)
  | some found =>
      match space.checkParents id found.extensions [] parents with
      | (.error problem, space) => (.error problem, space)
      | (.ok [], space) => (.ok (), space)
      | (.ok (first :: more), space) =>
          let added := first :: more
          let space := space.modify id fun old =>
            { old with extensions := old.extensions ++ added }
          let space := added.foldl (fun space parent => space.register parent id) space
          (.ok (), (space.invalidate id).record (.extended id added))

/-- The version of the next class of a name. -/
def nextVersion (space : ClassSpace δ μ) (name : String) : Nat :=
  match space.find? name with
  | none => 1
  | some old =>
      match space.get? old with
      | some found => found.version + 1
      | none => 1

/-- Define a class.  It takes over its name at once, also where a parent is then refused. -/
def define (space : ClassSpace δ μ) (name : String) (parents : List ClassId)
    (slots : List (String × δ)) : Except ClassProblem ClassId × ClassSpace δ μ :=
  let id := space.size
  let version := space.nextVersion name
  let slots := slots.map fun slot => { name := slot.1, owner := id, default := slot.2 }
  let space : ClassSpace δ μ :=
    { space with
      classes := space.classes.push { name, version, slots }
      byName := space.byName.insert name id }
  match space.extend id parents with
  | (.error problem, space) => (.error problem, space)
  | (.ok (), space) => (.ok id, space.record (.defined id version))

/-- Give an instance a class of its own, made when it is first asked for. -/
def customize (space : ClassSpace δ μ) (membership : Membership) :
    ClassId × Membership × ClassSpace δ μ :=
  match membership.own? with
  | some own => (own, membership, space)
  | none =>
      let base := membership.nominal
      let id := space.size
      let made : ClassDef δ μ :=
        { name := space.nameOf base ++ "*", extensions := [base], synthetic := true }
      (id, { membership with own? := some id },
        { space with classes := space.classes.push made }.register base id)

/-! ## Slots -/

/-- Put a slot in place of the first one of the same name, or at the end. -/
def putSlot (slot : Slot δ) : List (Slot δ) → List (Slot δ)
  | [] => [slot]
  | first :: rest => if first.name = slot.name then slot :: rest else first :: putSlot slot rest

/-- Add a slot to a class, or replace it. -/
def addSlot (space : ClassSpace δ μ) (id : ClassId) (name : String) (default : δ) :
    ClassSpace δ μ :=
  match space.get? id with
  | none => space
  | some _ =>
      (space.modify id fun found =>
        { found with slots := putSlot { name, owner := id, default } found.slots }).record
        (.slotAdded id name)

/-- Remove the slots of a name that a class declares; tells whether there were any. -/
def removeSlot (space : ClassSpace δ μ) (id : ClassId) (name : String) : Bool × ClassSpace δ μ :=
  match space.get? id with
  | none => (false, space)
  | some found =>
      if found.slots.any (·.name == name) then
        (true,
          (space.modify id fun old =>
            { old with slots := old.slots.filter (·.name != name) }).record
            (.slotRemoved id name))
      else (false, space)

/-- The slots that a class declares. -/
def slotsOf (space : ClassSpace δ μ) (id : ClassId) : List (Slot δ) :=
  match space.get? id with
  | some found => found.slots
  | none => []

/-- The slot that a name denotes in a class: the first one along the linearization. -/
def effectiveSlot? (space : ClassSpace δ μ) (id : ClassId) (name : String) :
    Option (Slot δ) × ClassSpace δ μ :=
  let (order, space) := space.linearization id
  (order.findSome? fun owner => (space.slotsOf owner).find? (·.name == name), space)

/-- Names of all slots along the linearization, each where it comes first. -/
def slotNames (space : ClassSpace δ μ) (id : ClassId) : List String × ClassSpace δ μ :=
  let (order, space) := space.linearization id
  let names := order.flatMap fun owner => (space.slotsOf owner).map (·.name)
  (names.foldl (fun seen name => if name ∈ seen then seen else seen ++ [name]) [], space)

/-! ## Behaviors -/

/-- Install a method in a class. -/
def addBehavior (space : ClassSpace δ μ) (id : ClassId) (name : String) (qualifier : Qualifier)
    (method : μ) : ClassSpace δ μ :=
  match space.get? id with
  | none => space
  | some found =>
      let methods := ((found.behaviors.find? name).getD {}).set qualifier method
      let space := space.modify id fun old =>
        { old with behaviors := old.behaviors.insert name methods }
      (space.invalidate id).record (.behaviorAdded id name)

/-- The methods that a class defines for a behavior. -/
def methodsOf? (space : ClassSpace δ μ) (name : String) (id : ClassId) : Option (MethodSet μ) :=
  (space.get? id).bind (·.behaviors.find? name)

/-- The method chain of a behavior for a class, remembered from now on.  The flag tells whether
it was built by this call. -/
def chain (space : ClassSpace δ μ) (id : ClassId) (name : String) :
    Option (MethodChain μ) × Bool × ClassSpace δ μ :=
  match (space.get? id).bind (·.chains.find? name) with
  | some known => (known, false, space)
  | none =>
      let (order, space) := space.linearization id
      let built := MethodChain.build? name (order.filterMap (space.methodsOf? name))
      (built, true, space.modify id fun found =>
        { found with chains := found.chains.insert name built })

end ClassSpace

end ObjectLisp
