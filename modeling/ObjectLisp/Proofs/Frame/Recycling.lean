import ObjectLisp.Proofs.Frame.Stores

/-!
# Frame numbers are used again without a trace

A frame store gives the number of a frame that nothing needs to a later frame.
Whoever uses frames with discipline cannot tell: through every frame in use the
store answers as an archive does, which keeps all frames forever.

The pins of a frame count the pins that cover it, those that are held and those
that are dropped and still wait in the queue.
-/

namespace ObjectLisp

universe u

variable {α : Type u}

/-! ## Users of a frame store -/

/-- A frame store with the numbers that it gave to the frames. -/
structure Recycler (α : Type u) where
  store : FrameStore α := {}
  /-- The number of each frame, by name. -/
  numbers : Array FrameId := #[]
deriving Repr

namespace Recycler

/-- The number of a frame. -/
def number (recycler : Recycler α) (name : Nat) : FrameId := recycler.numbers.getD name 0

/-- The value at an address. -/
def get? (recycler : Recycler α) (frame : Option Nat) (level index : Nat) : Option α :=
  recycler.store.get? (frame.map recycler.number) level index

/-- Write the value at an address; the flag tells whether that was possible. -/
def set (recycler : Recycler α) (frame : Option Nat) (level index : Nat) (value : α) :
    Bool × FrameStore α :=
  recycler.store.set (frame.map recycler.number) level index value

/-- The store and the numbers after one use. -/
def step (recycler : Recycler α) : FrameOp α → Recycler α
  | .alloc slots parent =>
      let made := recycler.store.alloc slots (parent.map recycler.number)
      { store := made.2, numbers := recycler.numbers.push made.1 }
  | .get _ _ _ => recycler
  | .set frame level index value =>
      { recycler with store := (recycler.set frame level index value).2 }
  | .pin none => recycler
  | .pin (some frame) =>
      { recycler with store := recycler.store.pin (recycler.number frame) }
  | .drop frame => { recycler with store := recycler.store.unpin (recycler.number frame) }
  | .release frame => { recycler with store := recycler.store.release (recycler.number frame) }
  | .collect => { recycler with store := recycler.store.collect }

end Recycler

/-! ## The needs that an archive knows of -/

namespace Archive

/-- What needs a frame if these are all pins. -/
def usage (archive : Archive α) (pins : List Nat) (name : Nat) : Usage where
  active := decide (name ∈ archive.active)
  pins := pins.countP (name ∈ archive.lineage ·)

variable {archive : Archive α} {pins : List Nat} {name pin : Nat}

theorem needed_usage_iff : (archive.usage pins name).Needed ↔
    name ∈ archive.active ∨ ∃ pin ∈ pins, name ∈ archive.lineage pin := by
  simp [Usage.Needed, usage, List.countP_pos_iff]

theorem needed_of_inUse {pending : List Nat} (inUse : archive.InUse name) :
    (archive.usage (archive.held ++ pending) name).Needed := by
  rw [needed_usage_iff]
  rcases inUse with active | ⟨pin, held, covered⟩
  · exact .inl active
  · exact .inr ⟨pin, List.mem_append_left pending held, covered⟩

theorem usage_perm {pins' : List Nat} (perm : pins.Perm pins') :
    archive.usage pins = archive.usage pins' := by
  funext name
  simp only [usage, perm.countP_eq]

theorem usage_cons (archived : archive.WellFormed) :
    archive.usage (pin :: pins) name =
      (archive.usage pins name).pin ((archive.lineage pin).count name) := by
  simp only [usage, Usage.pin, List.countP_cons, (archived.nodup_lineage pin).count,
    decide_eq_true_eq]

theorem needed_of_mem_lineage (member : pin ∈ pins) (covered : name ∈ archive.lineage pin) :
    (archive.usage pins name).Needed :=
  needed_usage_iff.mpr (.inr ⟨pin, member, covered⟩)

/-- A pin is counted on each frame of its lineage. -/
theorem count_lineage_le (archived : archive.WellFormed) (name : Nat) :
    (archive.lineage pin).count name ≤ (archive.usage (pin :: pins) name).pins := by
  rw [usage_cons archived]
  exact Nat.le_add_left _ _

@[simp]
theorem usage_set (frame : Option Nat) (level index : Nat) (value : α) (pins : List Nat) :
    (archive.set frame level index value).usage pins = archive.usage pins := by
  funext name
  simp [usage]

/-- A new frame is active and has no pin yet. -/
theorem usage_alloc (archived : archive.WellFormed) (slots : Array α) (parent : Option Nat)
    (known : ∀ pin ∈ pins, pin < archive.records.size) :
    (archive.step (.alloc slots parent)).usage pins =
      Function.update (archive.usage pins) archive.records.size ⟨true, 0⟩ := by
  have sameLineage : ∀ pin ∈ pins,
      (archive.step (.alloc slots parent)).lineage pin = archive.lineage pin :=
    fun pin member => lineage_alloc slots parent (known pin member)
  funext name
  have sameCount : pins.countP (name ∈ (archive.step (.alloc slots parent)).lineage ·) =
      pins.countP (name ∈ archive.lineage ·) := by
    apply List.countP_congr
    intro pin member
    rw [sameLineage pin member]
  by_cases last : name = archive.records.size
  · have none : pins.countP (name ∈ archive.lineage ·) = 0 := by
      rw [List.countP_eq_zero]
      intro pin member
      simp only [decide_eq_true_eq]
      intro covered
      have := archived.le_of_mem_lineage covered
      have := known pin member
      omega
    rw [last] at none sameCount
    rw [last, Function.update_self, usage, sameCount, none]
    simp [step]
  · rw [Function.update_of_ne last, usage, sameCount]
    simp [usage, step, last]

theorem usage_release (frame : Nat) :
    (archive.step (.release frame)).usage pins =
      Function.update (archive.usage pins) frame
        { archive.usage pins frame with active := false } := by
  funext name
  have sameLineage : (archive.step (.release frame)).lineage = archive.lineage := rfl
  have active : (archive.step (.release frame)).active = archive.active.filter (· ≠ frame) := rfl
  by_cases same : name = frame
  · rw [same, Function.update_self]
    simp [usage, sameLineage, active]
  · rw [Function.update_of_ne same]
    simp [usage, sameLineage, active, same]

end Archive

namespace FrameStore.Stores

variable {store : FrameStore α} {archive : Archive α} {number : Nat → FrameId} {pin : Nat}
  {pins : List Nat}

/-- Working off one dropped pin. -/
theorem dropChain (stores : store.Stores archive.records number (archive.usage (pin :: pins)))
    (archived : archive.WellFormed) (inside : pin < archive.records.size) :
    (store.dropChain (number pin)).Stores archive.records number (archive.usage pins) := by
  have dropped := stores.foldl_dropPin (Archive.count_lineage_le archived)
  have undone : ∀ name, (archive.usage (pin :: pins) name).unpin ((archive.lineage pin).count name) =
      archive.usage pins name := by
    intro name
    rw [Archive.usage_cons archived]
    simp [Usage.pin, Usage.unpin]
  simp only [undone] at dropped
  unfold FrameStore.dropChain
  rwa [stores.chain_eq archived inside fun _ => Archive.needed_of_mem_lineage List.mem_cons_self]

theorem foldl_dropChain {pending : List Nat}
    (stores : store.Stores archive.records number (archive.usage (pins ++ pending)))
    (archived : archive.WellFormed) (known : ∀ pin ∈ pending, pin < archive.records.size) :
    ((pending.map number).foldl FrameStore.dropChain store).Stores archive.records number
      (archive.usage pins) := by
  induction pending generalizing store with
  | nil => simpa using stores
  | cons first rest ih =>
      rw [Archive.usage_perm List.perm_middle] at stores
      rw [List.map_cons, List.foldl_cons]
      apply ih
      · exact stores.dropChain archived (known first List.mem_cons_self)
      · exact fun pin member => known pin (List.mem_cons_of_mem first member)

theorem emptied (stores : store.Stores archive.records number (archive.usage pins)) :
    { store with queue := [] }.Stores archive.records number (archive.usage pins) :=
  ⟨stores.present, stores.injective, stores.nodup, stores.free, stores.covered⟩

/-- When the queue is worked off, only the pins that are held count. -/
theorem collect {pending : List Nat}
    (stores : store.Stores archive.records number (archive.usage (pins ++ pending)))
    (archived : archive.WellFormed) (queue : store.queue = pending.map number)
    (known : ∀ pin ∈ pending, pin < archive.records.size) :
    store.collect.Stores archive.records number (archive.usage pins) := by
  unfold FrameStore.collect
  rw [queue]
  exact stores.emptied.foldl_dropChain archived known

end FrameStore.Stores

/-! ## Agreement -/

/-- The store of a recycler holds what is in use in an archive. -/
structure Recycler.Agrees (recycler : Recycler α) (archive : Archive α) (pending : List Nat) :
    Prop where
  archived : archive.WellFormed
  size : recycler.numbers.size = archive.records.size
  queue : recycler.store.queue = pending.map recycler.number
  known : ∀ pin ∈ archive.held ++ pending, pin < archive.records.size
  stores : recycler.store.Stores archive.records recycler.number
    (archive.usage (archive.held ++ pending))

namespace Recycler

theorem agrees_empty : ({} : Recycler α).Agrees {} [] where
  archived := Archive.wellFormed_empty
  size := rfl
  queue := rfl
  known := by simp
  stores := .empty

theorem number_push (recycler : Recycler α) (store : FrameStore α) (id : FrameId) {name : Nat}
    (inside : name < recycler.numbers.size) :
    ({ store, numbers := recycler.numbers.push id } : Recycler α).number name =
      recycler.number name := by
  simp [number, Array.getElem?_push, Nat.ne_of_lt inside]

namespace Agrees

variable {recycler : Recycler α} {archive : Archive α} {pending : List Nat} {name : Nat}

theorem lt_size_of_inUse (agrees : recycler.Agrees archive pending) (inUse : archive.InUse name) :
    name < archive.records.size := by
  obtain ⟨record, known, _⟩ := agrees.stores.present name (Archive.needed_of_inUse inUse)
  exact (Array.getElem?_eq_some_iff.mp known).1

theorem needed_of_mem_lineage (agrees : recycler.Agrees archive pending)
    (sheltered : archive.Sheltered) (inUse : archive.InUse name) :
    ∀ outer ∈ archive.lineage name,
      (archive.usage (archive.held ++ pending) outer).Needed :=
  fun _ member =>
    Archive.needed_of_inUse (agrees.archived.inUse_of_mem_lineage sheltered inUse member)

theorem collect (agrees : recycler.Agrees archive pending) :
    recycler.store.collect.Stores archive.records recycler.number (archive.usage archive.held) :=
  agrees.stores.collect agrees.archived agrees.queue
    fun pin member => agrees.known pin (List.mem_append_right _ member)

theorem alloc (agrees : recycler.Agrees archive pending) (slots : Array α) (parent : Option Nat)
    (inUse : ∀ name ∈ parent, archive.InUse name) :
    (recycler.step (.alloc slots parent)).Agrees (archive.step (.alloc slots parent)) [] := by
  have pinsKnown : ∀ pin ∈ archive.held, pin < archive.records.size :=
    fun pin member => agrees.known pin (List.mem_append_left _ member)
  have sameNumber : ∀ name < archive.records.size,
      (recycler.step (.alloc slots parent)).number name = recycler.number name := by
    intro name inside
    exact recycler.number_push _ _ (agrees.size ▸ inside)
  have older : ∀ (name : Nat) (record : FrameRecord α), archive.records[name]? = some record →
      ∀ outer ∈ record.outer, outer < name := by
    intro name record known outer member
    rcases agrees.archived name record known with none | ⟨next, before, same⟩
    · simp [none] at member
    · rw [same] at member
      exact Nat.lt_of_le_of_lt (agrees.archived.le_of_mem_lineage member) before
  have newFrame : FrameStore.fresh slots (parent.map recycler.number) =
      (archive.newRecord slots parent).image (recycler.step (.alloc slots parent)).number
        ⟨true, 0⟩ := by
    cases parent with
    | none => rfl
    | some around =>
        have inside := agrees.lt_size_of_inUse (inUse around rfl)
        have lineage := Archive.lineage_of_some (Array.getElem?_eq_getElem inside)
        simp [FrameStore.fresh, FrameRecord.image, Archive.newRecord, lineage,
          sameNumber around inside]
  constructor
  · exact agrees.archived.step _
  · simp [Recycler.step, Archive.step, agrees.size]
  · simp [Recycler.step]
  · intro pin member
    have := pinsKnown pin (by simpa [Archive.step] using member)
    simp only [Archive.step, Array.size_push]
    omega
  · have sameHeld : (archive.step (.alloc slots parent)).held = archive.held := rfl
    rw [List.append_nil, sameHeld, Archive.usage_alloc agrees.archived slots parent pinsKnown]
    apply agrees.collect.alloc agrees.stores.wellFormed older sameNumber _ newFrame
    simp [number, Recycler.step, ← agrees.size]

theorem set (agrees : recycler.Agrees archive pending) (sheltered : archive.Sheltered)
    (frame : Option Nat) (level index : Nat) (value : α)
    (inUse : ∀ name ∈ frame, archive.InUse name) :
    (recycler.step (.set frame level index value)).Agrees
      (archive.step (.set frame level index value)) pending := by
  constructor
  · exact agrees.archived.step _
  · simpa [Recycler.step, Archive.step] using agrees.size
  · exact (FrameStore.queue_set _ _ _ _ _).trans agrees.queue
  · simpa [Archive.step] using agrees.known
  · simp only [Archive.step, Archive.usage_set, Archive.held_set]
    cases frame with
    | none => exact agrees.stores
    | some name =>
        exact agrees.stores.set agrees.archived level index value
          (agrees.lt_size_of_inUse (inUse name rfl))
          (agrees.needed_of_mem_lineage sheltered (inUse name rfl))

theorem pin (agrees : recycler.Agrees archive pending) (sheltered : archive.Sheltered)
    (inUse : archive.InUse name) :
    (recycler.step (.pin (some name))).Agrees (archive.step (.pin (some name))) pending := by
  have inside := agrees.lt_size_of_inUse inUse
  have needed := agrees.needed_of_mem_lineage sheltered inUse
  constructor
  · exact agrees.archived.step _
  · exact agrees.size
  · exact (FrameStore.queue_pin _ _).trans agrees.queue
  · intro pin member
    rcases List.mem_cons.mp member with rfl | before
    · exact inside
    · exact agrees.known pin before
  · have pinned := agrees.stores.foldl_addPin needed
    simp only [← Archive.usage_cons agrees.archived] at pinned
    simp only [Recycler.step, FrameStore.pin, agrees.stores.chain_eq agrees.archived inside needed]
    exact pinned

theorem drop (agrees : recycler.Agrees archive pending) (held : name ∈ archive.held) :
    (recycler.step (.drop name)).Agrees (archive.step (.drop name)) (pending ++ [name]) := by
  -- The pin moves from those that are held to those in the queue.
  have moved : (archive.held.erase name ++ (pending ++ [name])).Perm (archive.held ++ pending) := by
    rw [← List.append_assoc]
    calc
      (archive.held.erase name ++ pending) ++ [name]
      _ |>.Perm (name :: (archive.held.erase name ++ pending)) := List.perm_append_singleton _ _
      _ |>.Perm (archive.held ++ pending) :=
        (List.perm_cons_erase held).symm.append_right pending
  constructor
  · exact agrees.archived.step _
  · exact agrees.size
  · simp [Recycler.step, FrameStore.unpin, agrees.queue, number]
  · intro pin member
    exact agrees.known pin (moved.mem_iff.mp member)
  · have stores := agrees.stores
    rw [← Archive.usage_perm moved] at stores
    exact ⟨stores.present, stores.injective, stores.nodup, stores.free, stores.covered⟩

/-- The store between the end of a frame's activity and the work on the queue. -/
theorem retire (agrees : recycler.Agrees archive pending) (active : name ∈ archive.active) :
    (recycler.store.retire (recycler.number name)).Stores
      (archive.step (.release name)).records recycler.number
      ((archive.step (.release name)).usage (archive.held ++ pending)) := by
  rw [Archive.usage_release]
  exact agrees.stores.retire (Archive.needed_of_inUse (.inl active))

theorem queue_retire (agrees : recycler.Agrees archive pending) (name : Nat) :
    (recycler.store.retire (recycler.number name)).queue = pending.map recycler.number := by
  rw [FrameStore.queue_retire, agrees.queue]

theorem release (agrees : recycler.Agrees archive pending) (active : name ∈ archive.active) :
    (recycler.step (.release name)).Agrees (archive.step (.release name)) [] := by
  have collected := (agrees.retire active).collect (agrees.archived.step (.release name))
    (agrees.queue_retire name) fun pin member => agrees.known pin (List.mem_append_right _ member)
  constructor
  · exact agrees.archived.step _
  · exact agrees.size
  · simp [Recycler.step, FrameStore.release_eq]
  · intro pin member
    rw [List.append_nil] at member
    exact agrees.known pin (List.mem_append_left _ member)
  · rw [List.append_nil]
    exact collected

/-- One use that is allowed keeps the agreement. -/
theorem step (agrees : recycler.Agrees archive pending) (sheltered : archive.Sheltered)
    {op : FrameOp α} (allowed : archive.Allows op) :
    ∃ pending', (recycler.step op).Agrees (archive.step op) pending' := by
  cases op with
  | alloc slots parent => exact ⟨[], agrees.alloc slots parent allowed⟩
  | get => exact ⟨pending, agrees⟩
  | set frame level index value =>
      exact ⟨pending, agrees.set sheltered frame level index value allowed⟩
  | pin frame =>
      cases frame with
      | none => exact ⟨pending, agrees⟩
      | some name => exact ⟨pending, agrees.pin sheltered (allowed name rfl)⟩
  | drop name => exact ⟨pending ++ [name], agrees.drop allowed⟩
  | release name => exact ⟨[], agrees.release allowed⟩
  | collect =>
      have held : ∀ pin ∈ archive.held ++ [], pin < archive.records.size := by
        intro pin member
        rw [List.append_nil] at member
        exact agrees.known pin (List.mem_append_left _ member)
      have stores := agrees.collect
      rw [← List.append_nil archive.held] at stores
      exact ⟨[], agrees.archived, agrees.size, FrameStore.queue_collect _, held, stores⟩

/-- All uses in order keep the agreement. -/
theorem foldl (agrees : recycler.Agrees archive pending) (sheltered : archive.Sheltered)
    {ops : List (FrameOp α)} (admitted : archive.Admits ops) :
    (ops.foldl Archive.step archive).Sheltered ∧
      ∃ pending', (ops.foldl Recycler.step recycler).Agrees (ops.foldl Archive.step archive)
        pending' := by
  induction ops generalizing recycler archive pending with
  | nil => exact ⟨sheltered, pending, agrees⟩
  | cons op rest ih =>
      obtain ⟨allowed, shelteredLater, admittedRest⟩ := admitted
      obtain ⟨pending', agreesLater⟩ := agrees.step sheltered allowed
      exact ih agreesLater shelteredLater admittedRest

theorem get?_eq (agrees : recycler.Agrees archive pending) (sheltered : archive.Sheltered)
    {frame : Option Nat} (inUse : ∀ name ∈ frame, archive.InUse name) (level index : Nat) :
    recycler.get? frame level index = archive.get? frame level index := by
  cases frame with
  | none => rfl
  | some name =>
      exact agrees.stores.get?_eq agrees.archived level index
        (agrees.lt_size_of_inUse (inUse name rfl))
        (agrees.needed_of_mem_lineage sheltered (inUse name rfl))

end Agrees

/-- Frame numbers are used again, but from frames in use nobody can tell.  However frames were
used with discipline before, reading and writing through a frame in use give the answers of an
archive, where every frame is kept: each frame in use is still there under a number of its own,
with the slots and the surrounding frame that it should have. -/
theorem recycling_unobservable (ops : List (FrameOp α)) (admitted : ({} : Archive α).Admits ops) :
    let archive := ops.foldl Archive.step ({} : Archive α)
    let recycler := ops.foldl step ({} : Recycler α)
    (∀ frame : Option Nat, (∀ name ∈ frame, archive.InUse name) → ∀ level index : Nat,
      recycler.get? frame level index = archive.get? frame level index ∧
      ∀ value, (recycler.set frame level index value).1 =
        (archive.get? frame level index).isSome) ∧
    ∀ name, archive.InUse name → ∃ record found, archive.records[name]? = some record ∧
      recycler.store.frames[recycler.number name]? = some found ∧ found.live = true ∧
      found.slots = record.slots ∧ found.parent = record.outer.head?.map recycler.number ∧
      recycler.number name ∉ recycler.store.free ∧
      ∀ other, archive.InUse other → recycler.number other = recycler.number name →
        other = name := by
  intro archive recycler
  have shelteredEmpty : ({} : Archive α).Sheltered := by simp [Archive.Sheltered]
  obtain ⟨sheltered, pending, agrees⟩ := agrees_empty.foldl shelteredEmpty admitted
  constructor
  · intro frame inUse level index
    have read := agrees.get?_eq sheltered inUse level index
    constructor
    · exact read
    · intro value
      rw [← read]
      exact recycler.store.set_fst _ level index value
  · intro name inUse
    have needed : (archive.usage (archive.held ++ pending) name).Needed :=
      Archive.needed_of_inUse inUse
    obtain ⟨record, known, held⟩ := agrees.stores.present name needed
    refine ⟨record, _, known, held, rfl, rfl, rfl, agrees.stores.number_not_free needed, ?_⟩
    intro other otherInUse same
    exact agrees.stores.injective other name (Archive.needed_of_inUse otherInUse) needed same

/-- Two frames are pinned, released and dropped, and a later frame gets the number of the first. -/
private def reusingSession : List (FrameOp Nat) :=
  [.alloc #[10, 11] none, .alloc #[20] (some 0), .pin (some 1), .release 1, .release 0,
    .alloc #[30] none, .drop 1, .alloc #[40] (some 2), .set (some 3) 1 0 99]

theorem recycling_unobservable_after_reuse :
    ({} : Archive Nat).Admits reusingSession ∧
    (reusingSession.foldl step {}).number 3 = (reusingSession.foldl step {}).number 0 ∧
    (reusingSession.foldl step {}).get? (some 3) 1 0 = some 99 ∧
    (reusingSession.foldl Archive.step {}).get? (some 3) 1 0 = some 99 := by
  have admitted : ({} : Archive Nat).Admits reusingSession := by decide
  have inUse : ∀ name ∈ some 3, (reusingSession.foldl Archive.step {}).InUse name := by decide
  have archived : (reusingSession.foldl Archive.step {}).get? (some 3) 1 0 = some 99 := by decide
  have same := ((recycling_unobservable reusingSession admitted).1 (some 3) inUse 1 0).1
  exact ⟨admitted, by decide, same.trans archived, archived⟩

end Recycler

end ObjectLisp
