/-!
# Method combination

A behavior collects, along the linearization of a class, the methods that its
classes define under one name.  They combine to a chain: the around methods,
then the primary methods, each from the most derived class on.  Where the
primary methods begin stands the core, at which the before methods run first
and the after methods last.
-/

namespace ObjectLisp

universe u

/-- The role of a method. -/
inductive Qualifier where
  | primary
  | before
  | after
  | around
deriving Repr, DecidableEq, Inhabited

/-- The methods that one class defines for one behavior. -/
structure MethodSet (μ : Type u) where
  primary : Option μ := none
  before : Option μ := none
  after : Option μ := none
  around : Option μ := none
deriving Repr, Inhabited

namespace MethodSet

variable {μ : Type u}

/-- Install a method, in place of an earlier one in the same role. -/
def set (methods : MethodSet μ) (qualifier : Qualifier) (method : μ) : MethodSet μ :=
  match qualifier with
  | .primary => { methods with primary := some method }
  | .before => { methods with before := some method }
  | .after => { methods with after := some method }
  | .around => { methods with around := some method }

/-- Is there no method at all? -/
def isEmpty (methods : MethodSet μ) : Bool :=
  methods.primary.isNone && methods.before.isNone && methods.after.isNone && methods.around.isNone

end MethodSet

/-- The combined methods of a behavior for one class. -/
structure MethodChain (μ : Type u) where
  name : String
  /-- Around methods, then primary methods. -/
  entries : List μ
  /-- Position of the core: the number of around methods. -/
  core : Nat
  befores : List μ
  /-- After methods in the order in which they run. -/
  afters : List μ
deriving Repr, Inhabited

namespace MethodChain

variable {μ : Type u}

/-- Combine method sets given in linearization order.  Without a primary or an around method
there is nothing to call. -/
def build? (name : String) (sets : List (MethodSet μ)) : Option (MethodChain μ) :=
  let arounds := sets.filterMap (·.around)
  let primaries := sets.filterMap (·.primary)
  if arounds.isEmpty && primaries.isEmpty then none
  else
    some
      { name
        entries := arounds ++ primaries
        core := arounds.length
        befores := sets.filterMap (·.before)
        afters := (sets.filterMap (·.after)).reverse }

/-- Number of around and primary methods. -/
def length (chain : MethodChain μ) : Nat := chain.entries.length

/-- Is there neither an around nor a primary method? -/
def isEmpty (chain : MethodChain μ) : Bool := chain.entries.isEmpty

/-- Is there a primary method? -/
def hasPrimary (chain : MethodChain μ) : Bool := chain.core < chain.entries.length

end MethodChain

/-- What a method receives to call the next one: the chain, the position of the next call, and
the arguments of this one. -/
structure Continuation (μ : Type u) where
  chain : MethodChain μ
  /-- Position of the next call; before and after methods have none. -/
  cursor : Option Nat
  arguments : List μ
deriving Repr, Inhabited

namespace Continuation

variable {μ : Type u}

/-- Would calling the next method enter another around or primary method? -/
def hasNext (next : Continuation μ) : Bool :=
  match next.cursor with
  | some position => position < next.chain.entries.length
  | none => false

end Continuation

end ObjectLisp
