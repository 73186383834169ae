import Mathlib.Data.List.Nodup
import ObjectLisp.Proofs.Frame.Recycling

/-!
# Frames are given back exactly when nothing needs them

The pins of a frame count the pins that cover it, held or still in the queue, so a
pin is never taken off a frame that has none.  A number is free if and only if its
frame was given back, and it is free once.  When the queue is worked off, the frames
that are left are the active ones and those that a held pin covers, and no other
frame leaks.

A value in a frame that is given back may hold pins of its own.  To drop them is a
use of frames as any other, and working them off is the next one.
-/

namespace ObjectLisp

universe u

variable {α : Type u}

namespace FrameStore

/-! ## Counting with a check -/

/-- Count one pin less on a frame, which has to have one. -/
def dropPin? (store : FrameStore α) (frame : FrameId) : Option (FrameStore α) :=
  if store.frames[frame]?.any (0 < ·.pins) then some (store.dropPin frame) else none

/-- Take back one pin from a frame and all frames around it, which have to have one. -/
def dropChain? (store : FrameStore α) (frame : FrameId) : Option (FrameStore α) :=
  (store.chain frame).foldlM dropPin? store

/-- Work off the queue; fail if a pin is missing. -/
def collect? (store : FrameStore α) : Option (FrameStore α) :=
  store.queue.foldlM dropChain? { store with queue := [] }

/-- Is there a frame of this number that was not given back? -/
def isLive (store : FrameStore α) (id : FrameId) : Bool := store.frames[id]?.any (·.live)

theorem isLive_iff {store : FrameStore α} {id : FrameId} :
    store.isLive id = true ↔ ∃ found, store.frames[id]? = some found ∧ found.live = true := by
  rw [isLive, Option.any_eq_true]

theorem isLive_eq_false_iff {store : FrameStore α} {id : FrameId} (inside : id < store.frames.size) :
    store.isLive id = false ↔ ∃ found, store.frames[id]? = some found ∧ found.live = false := by
  simp [isLive, Array.getElem?_eq_getElem inside]

theorem lt_size_of_isLive {store : FrameStore α} {id : FrameId} (live : store.isLive id = true) :
    id < store.frames.size := by
  obtain ⟨found, present, _⟩ := isLive_iff.mp live
  exact (Array.getElem?_eq_some_iff.mp present).1

namespace Stores

section Pins

variable {store : FrameStore α} {records : Array (FrameRecord α)} {number : Nat → FrameId}
  {usages : Nat → Usage}

theorem dropPin?_eq (stores : store.Stores records number usages) {name : Nat}
    (pinned : 0 < (usages name).pins) :
    store.dropPin? (number name) = some (store.dropPin (number name)) := by
  obtain ⟨record, _, held⟩ := stores.present name (.inr pinned)
  simp [FrameStore.dropPin?, held, FrameRecord.image, pinned]

theorem foldlM_dropPin? (stores : store.Stores records number usages) {names : List Nat}
    (enough : ∀ name, names.count name ≤ (usages name).pins) :
    (names.map number).foldlM FrameStore.dropPin? store =
      some ((names.map number).foldl FrameStore.dropPin store) := by
  induction names generalizing store usages with
  | nil => rfl
  | cons first rest ih =>
      have pinned : 0 < (usages first).pins :=
        Nat.lt_of_lt_of_le (by rw [List.count_cons_self]; exact Nat.succ_pos _) (enough first)
      rw [List.map_cons, List.foldlM_cons, stores.dropPin?_eq pinned, Option.bind_eq_bind,
        Option.bind_some, List.foldl_cons]
      exact ih (stores.dropPin (.inr pinned)) (Usage.count_le_update_unpin enough)

end Pins

section Queue

variable {store : FrameStore α} {archive : Archive α} {number : Nat → FrameId} {pin : Nat}
  {pins : List Nat}

theorem dropChain?_eq (stores : store.Stores archive.records number (archive.usage (pin :: pins)))
    (archived : archive.WellFormed) (inside : pin < archive.records.size) :
    store.dropChain? (number pin) = some (store.dropChain (number pin)) := by
  have chain := stores.chain_eq archived inside fun _ =>
    Archive.needed_of_mem_lineage List.mem_cons_self
  unfold FrameStore.dropChain? FrameStore.dropChain
  rw [chain]
  exact stores.foldlM_dropPin? (Archive.count_lineage_le archived)

theorem foldlM_dropChain? {pending : List Nat}
    (stores : store.Stores archive.records number (archive.usage (pins ++ pending)))
    (archived : archive.WellFormed) (known : ∀ pin ∈ pending, pin < archive.records.size) :
    (pending.map number).foldlM FrameStore.dropChain? store =
      some ((pending.map number).foldl FrameStore.dropChain store) := by
  induction pending generalizing store with
  | nil => rfl
  | cons first rest ih =>
      rw [Archive.usage_perm List.perm_middle] at stores
      have firstKnown := known first List.mem_cons_self
      rw [List.map_cons, List.foldlM_cons, stores.dropChain?_eq archived firstKnown,
        Option.bind_eq_bind, Option.bind_some, List.foldl_cons]
      apply ih
      · exact stores.dropChain archived firstKnown
      · exact fun pin member => known pin (List.mem_cons_of_mem first member)

/-- No pin is missing while the queue is worked off. -/
theorem collect?_eq {pending : List Nat}
    (stores : store.Stores archive.records number (archive.usage (pins ++ pending)))
    (archived : archive.WellFormed) (queue : store.queue = pending.map number)
    (known : ∀ pin ∈ pending, pin < archive.records.size) :
    store.collect? = some store.collect := by
  unfold FrameStore.collect? FrameStore.collect
  rw [queue]
  exact stores.emptied.foldlM_dropChain? archived known

end Queue

/-! ## Numbers of frames -/

section Numbers

variable {store : FrameStore α} {records : Array (FrameRecord α)} {number : Nat → FrameId}
  {usages : Nat → Usage}

/-- The free numbers and the live ones are all numbers. -/
theorem size_sub_length_free (stores : store.Stores records number usages) :
    store.frames.size - store.free.length = (List.range store.frames.size).countP store.isLive := by
  have dead : store.free.Perm
      ((List.range store.frames.size).filter fun id => !store.isLive id) := by
    rw [List.perm_ext_iff_of_nodup stores.nodup (List.nodup_range.filter _)]
    intro id
    rw [List.mem_filter, List.mem_range, stores.mem_free_iff, Bool.not_eq_true']
    constructor
    · rintro ⟨found, present, notLive⟩
      have inside := (Array.getElem?_eq_some_iff.mp present).1
      exact ⟨inside, (isLive_eq_false_iff inside).mpr ⟨found, present, notLive⟩⟩
    · rintro ⟨inside, notLive⟩
      exact (isLive_eq_false_iff inside).mp notLive
  have parts := (List.range store.frames.size).length_eq_countP_add_countP store.isLive
  rw [List.length_range] at parts
  rw [dead.length_eq, ← List.countP_eq_length_filter]
  simp only [Bool.not_eq_true, Bool.decide_eq_false] at parts
  omega

/-- There are as many live frames as names with a need. -/
theorem countP_isLive (stores : store.Stores records number usages) {needs : Nat → Bool}
    (needs_iff : ∀ name, needs name = true ↔ (usages name).Needed) :
    (List.range store.frames.size).countP store.isLive =
      (List.range records.size).countP needs := by
  have distinct : (((List.range records.size).filter needs).map number).Nodup := by
    apply (List.nodup_range.filter needs).map_on
    intro first firstIn second secondIn equal
    have firstNeeded := (needs_iff first).mp (List.mem_filter.mp firstIn).2
    have secondNeeded := (needs_iff second).mp (List.mem_filter.mp secondIn).2
    exact stores.injective first second firstNeeded secondNeeded equal
  have same : ((List.range store.frames.size).filter store.isLive).Perm
      (((List.range records.size).filter needs).map number) := by
    rw [List.perm_ext_iff_of_nodup (List.nodup_range.filter _) distinct]
    intro id
    rw [List.mem_filter, List.mem_range, List.mem_map]
    constructor
    · rintro ⟨_, live⟩
      obtain ⟨name, needed, number⟩ := (stores.live_iff id).mp (isLive_iff.mp live)
      obtain ⟨record, known, _⟩ := stores.present name needed
      have inside := List.mem_range.mpr (Array.getElem?_eq_some_iff.mp known).1
      exact ⟨name, List.mem_filter.mpr ⟨inside, (needs_iff name).mpr needed⟩, number⟩
    · rintro ⟨name, member, number⟩
      have needed := (needs_iff name).mp (List.mem_filter.mp member).2
      have live := isLive_iff.mpr ((stores.live_iff id).mpr ⟨name, needed, number⟩)
      exact ⟨lt_size_of_isLive live, live⟩
  rw [List.countP_eq_length_filter, same.length_eq, List.length_map, List.countP_eq_length_filter]

end Numbers

end Stores

end FrameStore

/-! ## Reclamation -/

namespace Archive

variable {archive : Archive α} {name : Nat}

/-- When no dropped pin is left, the frames in need are those in use. -/
theorem needed_usage_held_iff : (archive.usage archive.held name).Needed ↔ archive.InUse name :=
  needed_usage_iff

end Archive

namespace Recycler

namespace Agrees

variable {recycler : Recycler α} {archive : Archive α} {pending : List Nat} {pin name : Nat}

theorem pin_chain (agrees : recycler.Agrees archive pending) (member : pin ∈ archive.held ++ pending) :
    recycler.store.chain (recycler.number pin) = (archive.lineage pin).map recycler.number :=
  agrees.stores.chain_eq agrees.archived (agrees.known pin member) fun _ =>
    Archive.needed_of_mem_lineage member

theorem mem_chain_iff (agrees : recycler.Agrees archive pending)
    (member : pin ∈ archive.held ++ pending)
    (needed : (archive.usage (archive.held ++ pending) name).Needed) :
    recycler.number name ∈ recycler.store.chain (recycler.number pin) ↔
      name ∈ archive.lineage pin := by
  rw [agrees.pin_chain member, List.mem_map]
  constructor
  · rintro ⟨outer, covered, same⟩
    have outerNeeded := Archive.needed_of_mem_lineage member covered
    rwa [← agrees.stores.injective outer name outerNeeded needed same]
  · exact fun covered => ⟨name, covered, rfl⟩

/-- The pins of a frame are those that cover it. -/
theorem pins_eq (agrees : recycler.Agrees archive pending) {id : FrameId} {found : Frame α}
    (present : recycler.store.frames[id]? = some found) :
    found.pins = (archive.held.map recycler.number ++ recycler.store.queue).countP
      (id ∈ recycler.store.chain ·) := by
  rw [agrees.queue, ← List.map_append, List.countP_map]
  rcases agrees.stores.covered id found present with inFree | ⟨name, needed, rfl⟩
  · obtain ⟨idleFrame, presentToo, idle⟩ := agrees.stores.free id inFree
    rw [present] at presentToo
    cases presentToo
    rw [idle.pins, eq_comm, List.countP_eq_zero]
    intro pin member
    simp only [Function.comp_apply, decide_eq_true_eq, agrees.pin_chain member, List.mem_map]
    rintro ⟨outer, covered, rfl⟩
    exact agrees.stores.number_not_free (Archive.needed_of_mem_lineage member covered) inFree
  · obtain ⟨record, _, held⟩ := agrees.stores.present name needed
    rw [held] at present
    cases present
    apply List.countP_congr
    intro pin member
    simp only [Function.comp_apply, decide_eq_true_eq]
    exact (agrees.mem_chain_iff member needed).symm

/-- After the queue is worked off, the chains of held pins are still whole. -/
theorem chain_collect (agrees : recycler.Agrees archive pending) (member : pin ∈ archive.held) :
    recycler.store.collect.chain (recycler.number pin) =
      (archive.lineage pin).map recycler.number :=
  agrees.collect.chain_eq agrees.archived
    (agrees.known pin (List.mem_append_left pending member)) fun _ =>
      Archive.needed_of_mem_lineage member

theorem isLive_collect_iff (agrees : recycler.Agrees archive pending) (id : FrameId) :
    recycler.store.collect.isLive id = true ↔
      (∃ name ∈ archive.active, recycler.number name = id) ∨
        ∃ pin ∈ archive.held, id ∈ recycler.store.collect.chain (recycler.number pin) := by
  rw [FrameStore.isLive_iff, agrees.collect.live_iff]
  simp only [Archive.needed_usage_held_iff]
  constructor
  · rintro ⟨name, active | ⟨pin, held, covered⟩, number⟩
    · exact .inl ⟨name, active, number⟩
    · right
      refine ⟨pin, held, ?_⟩
      rw [agrees.chain_collect held, List.mem_map]
      exact ⟨name, covered, number⟩
  · rintro (⟨name, active, number⟩ | ⟨pin, held, covered⟩)
    · exact ⟨name, .inl active, number⟩
    · rw [agrees.chain_collect held, List.mem_map] at covered
      obtain ⟨name, covered, number⟩ := covered
      exact ⟨name, .inr ⟨pin, held, covered⟩, number⟩

theorem collect?_retire (agrees : recycler.Agrees archive pending) (active : name ∈ archive.active) :
    (recycler.store.retire (recycler.number name)).collect? =
      some (recycler.store.release (recycler.number name)) := by
  rw [FrameStore.release_eq]
  exact (agrees.retire active).collect?_eq (agrees.archived.step (.release name))
    (agrees.queue_retire name) fun pin member => agrees.known pin (List.mem_append_right _ member)

end Agrees

/-- A frame inside another one and the other one are pinned, and the inner pin is dropped. -/
private def droppingSession : List (FrameOp Nat) :=
  [.alloc #[10] none, .alloc #[20] (some 0), .pin (some 1), .pin (some 0), .release 1, .release 0,
    .alloc #[30] (some 0), .drop 1]

end Recycler

end ObjectLisp
