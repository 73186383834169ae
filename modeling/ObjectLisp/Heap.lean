import ObjectLisp.Datum
import ObjectLisp.Expr
import ObjectLisp.Frame

/-!
# The heap

Everything that values refer to by number: vectors, closures, instances, the
continuations that methods receive, and objects of the host.  The heap also
gives out the identities of cells and strings.

`embed` turns a datum into a value.  The cells it makes have consecutive
identities, so the lines of the datum are kept as an array beside it.
-/

namespace ObjectLisp

/-- A function with the frame it was made in. -/
structure Closure where
  template : Template Expr
  env : Option FrameId
deriving Inhabited

/-- An instance: its classes and the slots that have a value. -/
structure Instance where
  membership : Membership
  slots : Assoc String Value := {}
deriving Inhabited

/-- The host's object: a point with coordinates that can be changed. -/
structure HostPoint where
  x : Int64
  y : Int64
deriving Repr, DecidableEq, Inhabited

/-- All that values refer to. -/
structure Heap where
  /-- Identity of the next cell or string. -/
  nextId : Identity := 0
  vectors : Array (Array Value) := #[]
  closures : Array Closure := #[]
  objects : Array Instance := #[]
  continuations : Array (Continuation Value) := #[]
  points : Array HostPoint := #[]
deriving Inhabited

namespace Heap

/-- A new cell. -/
def cons (heap : Heap) (car cdr : Value) : Value × Heap :=
  (.cons heap.nextId car cdr, { heap with nextId := heap.nextId + 1 })

/-- A new string. -/
def str (heap : Heap) (text : String) : Value × Heap :=
  (.str heap.nextId text, { heap with nextId := heap.nextId + 1 })

/-- New cells that put values, given in reverse order, in front of a tail. -/
def consReversed (heap : Heap) (tail : Value) : List Value → Value × Heap
  | [] => (tail, heap)
  | item :: items =>
      let (cell, heap) := heap.cons item tail
      consReversed heap cell items

/-- A new list of values in front of a tail. -/
def listWithTail (heap : Heap) (items : List Value) (tail : Value) : Value × Heap :=
  heap.consReversed tail items.reverse

/-- A new vector. -/
def newVector (heap : Heap) (items : Array Value) : Value × Heap :=
  (.vector heap.vectors.size, { heap with vectors := heap.vectors.push items })

/-- A new closure; its number. -/
def newClosure (heap : Heap) (closure : Closure) : Nat × Heap :=
  (heap.closures.size, { heap with closures := heap.closures.push closure })

/-- A new instance. -/
def newObject (heap : Heap) (object : Instance) : Value × Heap :=
  (.object heap.objects.size, { heap with objects := heap.objects.push object })

/-- A new continuation. -/
def newContinuation (heap : Heap) (next : Continuation Value) : Value × Heap :=
  (.nextMethod heap.continuations.size,
    { heap with continuations := heap.continuations.push next })

/-- A new object of the host. -/
def newPoint (heap : Heap) (point : HostPoint) : Value × Heap :=
  (.native heap.points.size, { heap with points := heap.points.push point })

/-- The items of a vector. -/
def items (heap : Heap) (index : Nat) : Array Value := heap.vectors.getD index #[]

end Heap

/-- The lines of a form: for consecutive identities from `base` on, the line of that cell. -/
structure SourceMap where
  file : String := ""
  base : Identity := 0
  lines : Array (Option Nat) := #[]
deriving Repr, Inhabited

namespace SourceMap

/-- The place where a form was read, if it is a cell that this map knows. -/
def find? (map : SourceMap) : Value → Option SourceLoc
  | .cons id _ _ =>
      if map.base ≤ id then
        match map.lines[id - map.base]? with
        | some (some line) => some ⟨map.file, line⟩
        | _ => none
      else none
  | _ => none

end SourceMap

namespace Heap

/-- A heap together with the lines recorded for the identities it gave out. -/
structure Embedding where
  heap : Heap
  lines : Array (Option Nat) := #[]

mutual

/-- Turn a datum into a value. -/
def embedInto (state : Embedding) : Datum → Value × Embedding
  | .null => (.null, state)
  | .int value => (.int value, state)
  | .float value => (.float value, state)
  | .str text =>
      let (value, heap) := state.heap.str text
      (value, { heap, lines := state.lines.push none })
  | .symbol id => (.symbol id, state)
  | .cons line car cdr =>
      let (car, state) := embedInto state car
      let (cdr, state) := embedInto state cdr
      let (value, heap) := state.heap.cons car cdr
      (value, { heap, lines := state.lines.push line })
  | .vec _ items =>
      let (items, state) := embedAll state items
      let (value, heap) := state.heap.newVector items.toArray
      (value, { state with heap })

/-- Turn several data into values. -/
def embedAll (state : Embedding) : List Datum → List Value × Embedding
  | [] => ([], state)
  | item :: items =>
      let (value, state) := embedInto state item
      let (values, state) := embedAll state items
      (value :: values, state)

end

/-- Turn a datum read from a file into a value, with the lines of its cells. -/
def embed (heap : Heap) (file : String) (datum : Datum) : Value × SourceMap × Heap :=
  let base := heap.nextId
  let (value, state) := embedInto { heap } datum
  (value, { file, base, lines := state.lines }, state.heap)

end Heap

end ObjectLisp
