/-!
# Lexical frames

Frames live in a store and are known by their number.  A frame holds the values
of one call or binding form and a link to the frame around it, so a variable is
addressed by the number of links to follow and a position.

A frame is active while its call runs.  A closure pins the frame it was made in
together with all frames around it.  A frame that is neither active nor pinned
is given back, and its number is used again, latest first.  Dropping a pin only
queues it; the queue is worked off before the next allocation and after the
next release.
-/

namespace ObjectLisp

universe u

/-- Number of a frame. -/
abbrev FrameId := Nat

/-- One lexical frame. -/
structure Frame (α : Type u) where
  slots : Array α
  /-- The frame around this one. -/
  parent : Option FrameId
  /-- How many pins hold this frame or a frame inside it. -/
  pins : Nat
  active : Bool
  live : Bool
deriving Repr, Inhabited

/-- May the frame be given back? -/
def Frame.unused {α : Type u} (frame : Frame α) : Bool :=
  frame.live && !frame.active && frame.pins = 0

/-- All frames of an interpreter. -/
structure FrameStore (α : Type u) where
  frames : Array (Frame α) := #[]
  /-- Numbers of frames that were given back, latest first. -/
  free : List FrameId := []
  /-- Dropped pins that are not worked off yet, oldest first. -/
  queue : List FrameId := []
deriving Repr, Inhabited

namespace FrameStore

variable {α : Type u}

/-! ## Addresses -/

/-- The frame around a frame. -/
def parent? (store : FrameStore α) (frame : FrameId) : Option FrameId :=
  store.frames[frame]?.bind (·.parent)

/-- The frame that lies `level` links outwards. -/
def ancestor? (store : FrameStore α) : (level : Nat) → FrameId → Option FrameId
  | 0, frame => some frame
  | level + 1, frame =>
      match store.parent? frame with
      | some outer => ancestor? store level outer
      | none => none

/-- The value at an address, seen from a frame. -/
def get? (store : FrameStore α) (frame : Option FrameId) (level index : Nat) : Option α :=
  match frame with
  | none => none
  | some frame =>
      match store.ancestor? level frame with
      | some target => store.frames[target]?.bind (·.slots[index]?)
      | none => none

/-- Is there a slot at an address, seen from a frame? -/
def hasSlot (store : FrameStore α) (target : FrameId) (index : Nat) : Bool :=
  match store.frames[target]? with
  | some found => index < found.slots.size
  | none => false

/-- Write the value at an address.  Nothing is written where there is no slot; the flag tells. -/
def set (store : FrameStore α) (frame : Option FrameId) (level index : Nat) (value : α) :
    Bool × FrameStore α :=
  match frame.bind (store.ancestor? level) with
  | none => (false, store)
  | some target =>
      if store.hasSlot target index then
        (true,
          { store with
            frames := store.frames.modify target fun found =>
              { found with slots := found.slots.setIfInBounds index value } })
      else (false, store)

/-! ## Pins -/

/-- A frame and the frames around it, innermost first, at most `bound` of them. -/
def chainFrom (store : FrameStore α) : (bound : Nat) → Option FrameId → List FrameId
  | 0, _ => []
  | _ + 1, none => []
  | bound + 1, some frame =>
      if frame < store.frames.size then frame :: chainFrom store bound (store.parent? frame)
      else []

/-- A frame and all frames around it, innermost first. -/
def chain (store : FrameStore α) (frame : FrameId) : List FrameId :=
  store.chainFrom store.frames.size (some frame)

/-- Count one more pin on a frame. -/
def addPin (store : FrameStore α) (frame : FrameId) : FrameStore α :=
  { store with
    frames := store.frames.modify frame fun found => { found with pins := found.pins + 1 } }

/-- Pin a frame and all frames around it. -/
def pin (store : FrameStore α) (frame : FrameId) : FrameStore α :=
  (store.chain frame).foldl addPin store

/-- Queue a dropped pin. -/
def unpin (store : FrameStore α) (frame : FrameId) : FrameStore α :=
  { store with queue := store.queue ++ [frame] }

/-- Give a frame back if nothing needs it. -/
def freeIfUnused (store : FrameStore α) (frame : FrameId) : FrameStore α :=
  match store.frames[frame]? with
  | none => store
  | some found =>
      if found.unused then
        { store with
          frames := store.frames.modify frame fun old =>
            { old with slots := #[], parent := none, live := false }
          free := frame :: store.free }
      else store

/-- Count one pin less on a frame and give it back if that was the last need. -/
def dropPin (store : FrameStore α) (frame : FrameId) : FrameStore α :=
  { store with
    frames := store.frames.modify frame fun found => { found with pins := found.pins - 1 } }
  |>.freeIfUnused frame

/-- Take back one pin from a frame and all frames around it. -/
def dropChain (store : FrameStore α) (frame : FrameId) : FrameStore α :=
  (store.chain frame).foldl dropPin store

/-- Work off the queue of dropped pins. -/
def collect (store : FrameStore α) : FrameStore α :=
  store.queue.foldl dropChain { store with queue := [] }

/-! ## Allocation -/

/-- A new active frame. -/
def alloc (store : FrameStore α) (slots : Array α) (parent : Option FrameId) :
    FrameId × FrameStore α :=
  let store := store.collect
  let frame : Frame α := { slots, parent, pins := 0, active := true, live := true }
  match store.free with
  | index :: free =>
      (index, { store with frames := store.frames.setIfInBounds index frame, free })
  | [] => (store.frames.size, { store with frames := store.frames.push frame })

/-- End the activity of a frame. -/
def release (store : FrameStore α) (frame : FrameId) : FrameStore α :=
  { store with
    frames := store.frames.modify frame fun found => { found with active := false } }
  |>.freeIfUnused frame
  |>.collect

/-- Number of frames in use, after working off the queue. -/
def liveCount (store : FrameStore α) : Nat × FrameStore α :=
  let store := store.collect
  (store.frames.size - store.free.length, store)

end FrameStore

end ObjectLisp
