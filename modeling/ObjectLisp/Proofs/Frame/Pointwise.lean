import ObjectLisp.Frame

/-!
# Frame operations, one frame at a time

What each operation of a frame store does to the frame of one number, to the list
of free numbers and to the queue.  Nothing here asks for a well-formed store;
proofs about stores rest on these equations and do not open the operations.
-/

namespace ObjectLisp

universe u

variable {α : Type u}

namespace Frame

/-- The frame after a check whether it may be given back. -/
def settled (frame : Frame α) : Frame α :=
  if frame.unused then { frame with slots := #[], parent := none, live := false } else frame

/-- The frame with one pin less. -/
def unpinned (frame : Frame α) : Frame α := { frame with pins := frame.pins - 1 }

/-- The frame after its call. -/
def released (frame : Frame α) : Frame α := { frame with active := false }

/-- Something needs the frame. -/
def InUse (frame : Frame α) : Prop := frame.active = true ∨ 0 < frame.pins

@[simp]
theorem settled_active (frame : Frame α) : frame.settled.active = frame.active := by
  unfold settled
  split <;> rfl

@[simp]
theorem settled_pins (frame : Frame α) : frame.settled.pins = frame.pins := by
  unfold settled
  split <;> rfl

theorem not_unused_of_inUse {frame : Frame α} (inUse : frame.InUse) : frame.unused = false := by
  rcases inUse with active | pinned
  · simp [unused, active]
  · have notZero : frame.pins ≠ 0 := by omega
    simp [unused, notZero]

theorem settled_of_inUse {frame : Frame α} (inUse : frame.InUse) : frame.settled = frame := by
  simp [settled, not_unused_of_inUse inUse]

end Frame

namespace FrameStore

variable (store : FrameStore α)

/-! ## Pins -/

theorem getElem?_addPin (frame id : FrameId) :
    (store.addPin frame).frames[id]? =
      if frame = id then store.frames[id]?.map fun found => { found with pins := found.pins + 1 }
      else store.frames[id]? :=
  Array.getElem?_modify

/-- Adding pins one by one counts how often a number occurs. -/
theorem getElem?_foldl_addPin (ids : List FrameId) (id : FrameId) :
    (ids.foldl addPin store).frames[id]? =
      store.frames[id]?.map fun found => { found with pins := found.pins + ids.count id } := by
  induction ids generalizing store with
  | nil => simp
  | cons first rest ih =>
      rw [List.foldl_cons, ih, getElem?_addPin]
      by_cases same : first = id
      · subst same
        simp [Option.map_map, Function.comp_def, Nat.add_assoc, Nat.add_comm 1]
      · simp [same]

@[simp]
theorem free_foldl_addPin (ids : List FrameId) : (ids.foldl addPin store).free = store.free := by
  induction ids generalizing store with
  | nil => rfl
  | cons first rest ih => exact ih (store.addPin first)

@[simp]
theorem queue_foldl_addPin (ids : List FrameId) :
    (ids.foldl addPin store).queue = store.queue := by
  induction ids generalizing store with
  | nil => rfl
  | cons first rest ih => exact ih (store.addPin first)

theorem getElem?_pin (frame id : FrameId) :
    (store.pin frame).frames[id]? = store.frames[id]?.map fun found =>
      { found with pins := found.pins + (store.chain frame).count id } :=
  store.getElem?_foldl_addPin _ id

@[simp]
theorem free_pin (frame : FrameId) : (store.pin frame).free = store.free :=
  store.free_foldl_addPin _

@[simp]
theorem queue_pin (frame : FrameId) : (store.pin frame).queue = store.queue :=
  store.queue_foldl_addPin _

/-! ## Giving frames back -/

theorem getElem?_freeIfUnused (frame id : FrameId) :
    (store.freeIfUnused frame).frames[id]? =
      if frame = id then store.frames[id]?.map Frame.settled else store.frames[id]? := by
  unfold freeIfUnused
  split
  · next absent =>
      by_cases same : frame = id
      · subst same
        simp [absent]
      · simp [same]
  · next found present =>
      by_cases same : frame = id
      · subst same
        by_cases unused : found.unused = true
        · simp [unused, present, Array.getElem?_modify, Frame.settled]
        · simp [unused, present, Frame.settled]
      · simp only [same, if_false]
        split
        · simp [Array.getElem?_modify, same]
        · rfl

theorem free_freeIfUnused (frame : FrameId) :
    (store.freeIfUnused frame).free =
      if store.frames[frame]?.any Frame.unused then frame :: store.free else store.free := by
  unfold freeIfUnused
  split
  · next absent => simp [absent]
  · next found present =>
      by_cases unused : found.unused = true
      · simp [unused, present]
      · simp [unused, present]

@[simp]
theorem queue_freeIfUnused (frame : FrameId) :
    (store.freeIfUnused frame).queue = store.queue := by
  unfold freeIfUnused
  split
  · rfl
  · split <;> rfl

theorem getElem?_dropPin (frame id : FrameId) :
    (store.dropPin frame).frames[id]? =
      if frame = id then store.frames[id]?.map fun found => found.unpinned.settled
      else store.frames[id]? := by
  unfold dropPin
  rw [getElem?_freeIfUnused]
  by_cases same : frame = id
  · simp [same, Array.getElem?_modify, Frame.unpinned, Function.comp_def]
  · simp [same, Array.getElem?_modify]

theorem free_dropPin (frame : FrameId) :
    (store.dropPin frame).free =
      if store.frames[frame]?.any fun found => found.unpinned.unused then frame :: store.free
      else store.free := by
  unfold dropPin
  rw [free_freeIfUnused]
  cases found : store.frames[frame]? with
  | none => simp [Array.getElem?_modify, found]
  | some old =>
      simp only [Array.getElem?_modify, found, if_true, Option.map_some]
      rfl

@[simp]
theorem queue_dropPin (frame : FrameId) : (store.dropPin frame).queue = store.queue :=
  queue_freeIfUnused _ frame

@[simp]
theorem queue_dropChain (frame : FrameId) : (store.dropChain frame).queue = store.queue := by
  unfold dropChain
  induction store.chain frame generalizing store with
  | nil => rfl
  | cons first rest ih =>
      rw [List.foldl_cons, ih]
      exact store.queue_dropPin first

@[simp]
theorem queue_foldl_dropChain (ids : List FrameId) :
    (ids.foldl dropChain store).queue = store.queue := by
  induction ids generalizing store with
  | nil => rfl
  | cons first rest ih =>
      rw [List.foldl_cons, ih]
      exact store.queue_dropChain first

@[simp]
theorem queue_collect : store.collect.queue = [] :=
  queue_foldl_dropChain _ _

theorem collect_of_queue_nil (empty : store.queue = []) : store.collect = store := by
  obtain ⟨frames, free, queue⟩ := store
  cases empty
  rfl

/-! ## Allocation and release -/

/-- The frame that an allocation makes. -/
def fresh (slots : Array α) (parent : Option FrameId) : Frame α :=
  { slots, parent, pins := 0, active := true, live := true }

theorem alloc_of_free_nil (slots : Array α) (parent : Option FrameId)
    (empty : store.collect.free = []) :
    store.alloc slots parent = (store.collect.frames.size,
      { store.collect with frames := store.collect.frames.push (fresh slots parent) }) := by
  simp [alloc, empty, fresh]

theorem alloc_of_free_cons (slots : Array α) (parent : Option FrameId) {index : FrameId}
    {rest : List FrameId} (available : store.collect.free = index :: rest) :
    store.alloc slots parent = (index,
      { store.collect with
        frames := store.collect.frames.setIfInBounds index (fresh slots parent)
        free := rest }) := by
  simp [alloc, available, fresh]

theorem free_alloc (slots : Array α) (parent : Option FrameId) :
    (store.alloc slots parent).2.free = store.collect.free.tail := by
  cases available : store.collect.free with
  | nil => simp [store.alloc_of_free_nil slots parent available, available]
  | cons index rest => simp [store.alloc_of_free_cons slots parent available]

@[simp]
theorem queue_alloc (slots : Array α) (parent : Option FrameId) :
    (store.alloc slots parent).2.queue = [] := by
  cases available : store.collect.free with
  | nil => simp [store.alloc_of_free_nil slots parent available]
  | cons index rest => simp [store.alloc_of_free_cons slots parent available]

theorem alloc_fst_not_mem_tail (slots : Array α) (parent : Option FrameId)
    (nodup : store.collect.free.Nodup) :
    (store.alloc slots parent).1 ∉ store.collect.free.tail := by
  cases available : store.collect.free with
  | nil => simp
  | cons index rest =>
      rw [available] at nodup
      rw [store.alloc_of_free_cons slots parent available]
      exact (List.nodup_cons.mp nodup).1

theorem mem_tail_of_ne_alloc (slots : Array α) (parent : Option FrameId) {id : FrameId}
    (member : id ∈ store.collect.free) (other : id ≠ (store.alloc slots parent).1) :
    id ∈ store.collect.free.tail := by
  cases available : store.collect.free with
  | nil => simp [available] at member
  | cons index rest =>
      rw [store.alloc_of_free_cons slots parent available] at other
      rw [available] at member
      exact (List.mem_cons.mp member).resolve_left other

/-- The store after a frame was released, before the queue is worked off. -/
def retire (frame : FrameId) : FrameStore α :=
  { store with frames := store.frames.modify frame Frame.released } |>.freeIfUnused frame

theorem release_eq (frame : FrameId) : store.release frame = (store.retire frame).collect :=
  rfl

theorem getElem?_retire (frame id : FrameId) :
    (store.retire frame).frames[id]? =
      if frame = id then store.frames[id]?.map fun found => found.released.settled
      else store.frames[id]? := by
  unfold retire
  rw [getElem?_freeIfUnused]
  by_cases same : frame = id
  · simp [same, Array.getElem?_modify, Function.comp_def]
  · simp [same, Array.getElem?_modify]

theorem free_retire (frame : FrameId) :
    (store.retire frame).free =
      if store.frames[frame]?.any fun found => found.released.unused then frame :: store.free
      else store.free := by
  unfold retire
  rw [free_freeIfUnused]
  cases found : store.frames[frame]? <;> simp [Array.getElem?_modify, found]

@[simp]
theorem queue_retire (frame : FrameId) : (store.retire frame).queue = store.queue :=
  queue_freeIfUnused _ frame

/-! ## Slots -/

/-- Writing changes at most the slots of the addressed frame. -/
theorem getElem?_set (env : Option FrameId) (level index : Nat) (value : α) (id : FrameId) :
    (store.set env level index value).2.frames[id]? = store.frames[id]?.map fun found =>
      { found with
        slots := if env.bind (store.ancestor? level) = some id then
            found.slots.setIfInBounds index value
          else found.slots } := by
  unfold set
  split
  · next absent => simp [absent]
  · next target present =>
      rw [present]
      by_cases same : target = id
      · subst same
        unfold hasSlot
        cases found : store.frames[target]? with
        | none => simp [found]
        | some frame =>
            by_cases inside : index < frame.slots.size
            · simp [inside, found, Array.getElem?_modify]
            · simp [inside, found, Array.setIfInBounds_eq_of_size_le (Nat.le_of_not_lt inside)]
      · split
        · simp [Array.getElem?_modify, same]
        · simp [same]

@[simp]
theorem free_set (env : Option FrameId) (level index : Nat) (value : α) :
    (store.set env level index value).2.free = store.free := by
  unfold set
  split
  · rfl
  · split <;> rfl

@[simp]
theorem queue_set (env : Option FrameId) (level index : Nat) (value : α) :
    (store.set env level index value).2.queue = store.queue := by
  unfold set
  split
  · rfl
  · split <;> rfl

/-- A write is done exactly where there is something to read. -/
theorem set_fst (env : Option FrameId) (level index : Nat) (value : α) :
    (store.set env level index value).1 = (store.get? env level index).isSome := by
  cases env with
  | none => rfl
  | some frame =>
      unfold set get? hasSlot
      simp only [Option.bind_some]
      cases store.ancestor? level frame with
      | none => rfl
      | some target =>
          cases found : store.frames[target]? with
          | none => simp [found]
          | some frame =>
              by_cases inside : index < frame.slots.size
              · simp [inside, found]
              · simp [inside, found]

end FrameStore

end ObjectLisp
