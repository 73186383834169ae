import ObjectLisp.Proofs.Frame.Archive
import ObjectLisp.Proofs.Frame.Chain

/-!
# Stores that hold the frames in need

What needs a frame is its usage: it may be active, and it may have pins.  A store
holds the frames of an archive for given usages if each frame that is needed is
there under a number of its own, with the slots that the archive records and with
the number of the frame around it, and if every other number is free.

The operations of a store take needs away and bring new ones, one frame at a time.
They are followed here through arbitrary usages, so that nothing is asked of the
steps between two states that an archive knows of.
-/

namespace ObjectLisp

universe u

variable {α : Type u}

/-! ## Usages -/

/-- What needs a frame. -/
structure Usage where
  active : Bool
  pins : Nat

namespace Usage

/-- Something needs the frame. -/
def Needed (usage : Usage) : Prop := usage.active = true ∨ 0 < usage.pins

theorem eq_of_not_needed {usage : Usage} (free : ¬ usage.Needed) :
    usage.active = false ∧ usage.pins = 0 := by
  unfold Needed at free
  rw [not_or, Bool.not_eq_true, Nat.not_lt, Nat.le_zero] at free
  exact free

/-- The usage with some pins less. -/
def unpin (usage : Usage) (count : Nat) : Usage := { usage with pins := usage.pins - count }

/-- The usage with some pins more. -/
def pin (usage : Usage) (count : Nat) : Usage := { usage with pins := usage.pins + count }

theorem Needed.pin {usage : Usage} (needed : usage.Needed) (count : Nat) :
    (usage.pin count).Needed := by
  rcases needed with active | pinned
  · exact .inl active
  · exact .inr (Nat.add_pos_left pinned count)

/-- When one of the pins is dropped, there are still enough for the others. -/
theorem count_le_update_unpin {usages : Nat → Usage} {first : Nat} {rest : List Nat}
    (enough : ∀ name, (first :: rest).count name ≤ (usages name).pins) (name : Nat) :
    rest.count name ≤ (Function.update usages first ((usages first).unpin 1) name).pins := by
  have := enough name
  by_cases same : name = first
  · subst same
    rw [List.count_cons_self] at this
    rw [Function.update_self, unpin]
    exact Nat.le_sub_of_add_le this
  · rwa [Function.update_of_ne same, ← List.count_cons_of_ne (Ne.symm same)]

end Usage

/-- The frame that a store holds for a record. -/
def FrameRecord.image (record : FrameRecord α) (number : Nat → FrameId) (usage : Usage) : Frame α :=
  { slots := record.slots
    parent := record.outer.head?.map number
    pins := usage.pins
    active := usage.active
    live := true }

theorem FrameRecord.inUse_image (record : FrameRecord α) (number : Nat → FrameId) {usage : Usage}
    (needed : usage.Needed) : (record.image number usage).InUse :=
  needed

theorem FrameRecord.unused_image (record : FrameRecord α) (number : Nat → FrameId) {usage : Usage}
    (free : ¬ usage.Needed) : (record.image number usage).unused = true := by
  obtain ⟨notActive, notPinned⟩ := Usage.eq_of_not_needed free
  simp [image, Frame.unused, notActive, notPinned]

/-- The frame holds nothing that is needed. -/
structure Frame.Idle (frame : Frame α) : Prop where
  live : frame.live = false
  active : frame.active = false
  pins : frame.pins = 0

/-- A store holds all frames that are needed, each under a number of its own, and no others. -/
structure FrameStore.Stores (store : FrameStore α) (records : Array (FrameRecord α))
    (number : Nat → FrameId) (usages : Nat → Usage) : Prop where
  present : ∀ name, (usages name).Needed → ∃ record, records[name]? = some record ∧
    store.frames[number name]? = some (record.image number (usages name))
  injective : ∀ first second, (usages first).Needed → (usages second).Needed →
    number first = number second → first = second
  nodup : store.free.Nodup
  free : ∀ id ∈ store.free, ∃ found, store.frames[id]? = some found ∧ found.Idle
  covered : ∀ (id : FrameId) (found : Frame α), store.frames[id]? = some found →
    id ∈ store.free ∨ ∃ name, (usages name).Needed ∧ number name = id

namespace FrameStore.Stores

variable {store : FrameStore α} {records : Array (FrameRecord α)} {number : Nat → FrameId}
  {usages : Nat → Usage}

theorem empty : ({} : FrameStore α).Stores #[] number fun _ => ⟨false, 0⟩ where
  present := by simp [Usage.Needed]
  injective := by simp [Usage.Needed]
  nodup := List.nodup_nil
  free := by simp
  covered := by simp

/-- The number of a frame that is needed is not free. -/
theorem number_not_free (stores : store.Stores records number usages) {name : Nat}
    (needed : (usages name).Needed) : number name ∉ store.free := by
  intro member
  obtain ⟨record, _, held⟩ := stores.present name needed
  obtain ⟨found, present, idle⟩ := stores.free _ member
  rw [held] at present
  cases present
  exact Bool.noConfusion idle.live

theorem mem_free_iff (stores : store.Stores records number usages) (id : FrameId) :
    id ∈ store.free ↔ ∃ found, store.frames[id]? = some found ∧ found.live = false := by
  constructor
  · intro member
    obtain ⟨found, present, idle⟩ := stores.free id member
    exact ⟨found, present, idle.live⟩
  · rintro ⟨found, present, dead⟩
    rcases stores.covered id found present with inFree | ⟨name, needed, rfl⟩
    · exact inFree
    · obtain ⟨record, _, held⟩ := stores.present name needed
      rw [held] at present
      cases present
      exact Bool.noConfusion dead

/-- The frames that are not given back are those that something needs. -/
theorem live_iff (stores : store.Stores records number usages) (id : FrameId) :
    (∃ found, store.frames[id]? = some found ∧ found.live = true) ↔
      ∃ name, (usages name).Needed ∧ number name = id := by
  constructor
  · rintro ⟨found, present, live⟩
    rcases stores.covered id found present with inFree | needed
    · obtain ⟨idleFrame, presentToo, idle⟩ := stores.free id inFree
      rw [present] at presentToo
      cases presentToo
      rw [idle.live] at live
      exact Bool.noConfusion live
    · exact needed
  · rintro ⟨name, needed, rfl⟩
    obtain ⟨record, _, held⟩ := stores.present name needed
    exact ⟨_, held, rfl⟩

/-! ## One need less -/

/-- A frame is left in place while something needs it, and given back after that. -/
theorem settle {later : FrameStore α} {name : Nat} {usage : Usage} {change : Frame α → Frame α}
    (stores : store.Stores records number usages) (needed : (usages name).Needed)
    (frames : ∀ id, later.frames[id]? =
      if number name = id then store.frames[id]?.map fun found => (change found).settled
      else store.frames[id]?)
    (free : later.free =
      if store.frames[number name]?.any fun found => (change found).unused then
        number name :: store.free
      else store.free)
    (changed : ∀ record : FrameRecord α,
      change (record.image number (usages name)) = record.image number usage) :
    later.Stores records number (Function.update usages name usage) := by
  obtain ⟨record, known, held⟩ := stores.present name needed
  have before : ∀ other, (Function.update usages name usage other).Needed →
      (usages other).Needed := by
    intro other neededLater
    by_cases same : other = name
    · exact same ▸ needed
    · rwa [Function.update_of_ne same] at neededLater
  have apart : ∀ other, (usages other).Needed → other ≠ name →
      later.frames[number other]? = store.frames[number other]? := by
    intro other neededOther different
    have differ : number name ≠ number other := fun same =>
      different (stores.injective other name neededOther needed same.symm)
    rw [frames, if_neg differ]
  have atName : later.frames[number name]? = some (record.image number usage).settled := by
    rw [frames, if_pos rfl, held, Option.map_some, changed]
  have elsewhere : ∀ id ∈ store.free, ∃ found, later.frames[id]? = some found ∧ found.Idle := by
    intro id member
    have differ : number name ≠ id := by
      rintro rfl
      exact stores.number_not_free needed member
    rw [frames, if_neg differ]
    exact stores.free id member
  have coveredElsewhere : ∀ (id : FrameId) (found : Frame α), number name ≠ id →
      later.frames[id]? = some found → id ∈ store.free ∨
        ∃ other, (Function.update usages name usage other).Needed ∧ number other = id := by
    intro id found differ present
    rw [frames, if_neg differ] at present
    rcases stores.covered id found present with inFree | ⟨other, otherNeeded, rfl⟩
    · exact .inl inFree
    · have different : other ≠ name := fun same => differ (congrArg number same.symm)
      exact .inr ⟨other, by rwa [Function.update_of_ne different], rfl⟩
  rw [held, Option.any_some, changed] at free
  by_cases still : usage.Needed
  · have stays := Frame.settled_of_inUse (record.inUse_image number still)
    have notUnused := Frame.not_unused_of_inUse (record.inUse_image number still)
    rw [notUnused, if_neg Bool.false_ne_true] at free
    constructor
    · intro other neededLater
      by_cases same : other = name
      · subst same
        rw [Function.update_self, atName, stays]
        exact ⟨record, known, rfl⟩
      · rw [apart other (before other neededLater) same, Function.update_of_ne same]
        exact stores.present other (before other neededLater)
    · exact fun first second firstNeeded secondNeeded =>
        stores.injective first second (before first firstNeeded) (before second secondNeeded)
    · rw [free]
      exact stores.nodup
    · rw [free]
      exact elsewhere
    · rw [free]
      intro id found present
      by_cases same : number name = id
      · exact .inr ⟨name, by rwa [Function.update_self], same⟩
      · exact coveredElsewhere id found same present
  · have unused := record.unused_image number still
    rw [if_pos unused] at free
    constructor
    · intro other neededLater
      have different : other ≠ name := by
        rintro rfl
        rw [Function.update_self] at neededLater
        exact still neededLater
      rw [apart other (before other neededLater) different, Function.update_of_ne different]
      exact stores.present other (before other neededLater)
    · exact fun first second firstNeeded secondNeeded =>
        stores.injective first second (before first firstNeeded) (before second secondNeeded)
    · rw [free]
      exact List.nodup_cons.mpr ⟨stores.number_not_free needed, stores.nodup⟩
    · rw [free]
      intro id member
      rcases List.mem_cons.mp member with rfl | inFree
      · obtain ⟨notActive, notPinned⟩ := Usage.eq_of_not_needed still
        rw [Frame.settled, if_pos unused] at atName
        exact ⟨_, atName, rfl, notActive, notPinned⟩
      · exact elsewhere id inFree
    · rw [free]
      intro id found present
      by_cases same : number name = id
      · exact .inl (same ▸ List.mem_cons_self)
      · exact (coveredElsewhere id found same present).imp_left (List.mem_cons_of_mem _)

theorem dropPin (stores : store.Stores records number usages) {name : Nat}
    (needed : (usages name).Needed) :
    (store.dropPin (number name)).Stores records number
      (Function.update usages name ((usages name).unpin 1)) :=
  stores.settle needed (store.getElem?_dropPin _) (store.free_dropPin _) fun _ => rfl

theorem retire (stores : store.Stores records number usages) {name : Nat}
    (needed : (usages name).Needed) :
    (store.retire (number name)).Stores records number
      (Function.update usages name { usages name with active := false }) :=
  stores.settle needed (store.getElem?_retire _) (store.free_retire _) fun _ => rfl

/-- Dropping pins one by one counts how often each frame occurs. -/
theorem foldl_dropPin (stores : store.Stores records number usages) {names : List Nat}
    (enough : ∀ name, names.count name ≤ (usages name).pins) :
    ((names.map number).foldl FrameStore.dropPin store).Stores records number
      fun name => (usages name).unpin (names.count name) := by
  induction names generalizing store usages with
  | nil => exact stores
  | cons first rest ih =>
      have pinned : 0 < (usages first).pins := by
        have := enough first
        rw [List.count_cons_self] at this
        omega
      have dropped := stores.dropPin (.inr pinned)
      have counted : ∀ name, (Function.update usages first ((usages first).unpin 1) name).unpin
          (rest.count name) = (usages name).unpin ((first :: rest).count name) := by
        intro name
        by_cases same : name = first
        · subst same
          rw [Function.update_self, List.count_cons_self, Usage.unpin, Usage.unpin, Usage.unpin,
            Nat.sub_sub, Nat.add_comm]
        · rw [Function.update_of_ne same, List.count_cons_of_ne (Ne.symm same)]
      rw [List.map_cons, List.foldl_cons]
      have := ih dropped (Usage.count_le_update_unpin enough)
      simpa only [counted] using this

/-! ## One need more -/

theorem count_map (stores : store.Stores records number usages) {names : List Nat}
    (needed : ∀ name ∈ names, (usages name).Needed) {other : Nat} (otherNeeded : (usages other).Needed) :
    (names.map number).count (number other) = names.count other := by
  induction names with
  | nil => rfl
  | cons first rest ih =>
      have restCount := ih fun name member => needed name (List.mem_cons_of_mem first member)
      rw [List.map_cons]
      by_cases same : first = other
      · rw [same, List.count_cons_self, List.count_cons_self, restCount]
      · have differ : number first ≠ number other := fun equal =>
          same (stores.injective first other (needed first List.mem_cons_self) otherNeeded equal)
        rw [List.count_cons_of_ne differ, List.count_cons_of_ne same, restCount]

/-- Pins can be added to frames that are needed anyway. -/
theorem foldl_addPin (stores : store.Stores records number usages) {names : List Nat}
    (needed : ∀ name ∈ names, (usages name).Needed) :
    ((names.map number).foldl FrameStore.addPin store).Stores records number
      fun name => (usages name).pin (names.count name) := by
  have before : ∀ name, ((usages name).pin (names.count name)).Needed → (usages name).Needed := by
    rintro name (active | pinned)
    · exact .inl active
    · by_cases member : name ∈ names
      · exact needed name member
      · rw [List.count_eq_zero_of_not_mem member] at pinned
        exact .inr pinned
  constructor
  · intro name neededLater
    obtain ⟨record, known, held⟩ := stores.present name (before name neededLater)
    refine ⟨record, known, ?_⟩
    rw [getElem?_foldl_addPin, held, stores.count_map needed (before name neededLater)]
    rfl
  · exact fun first second firstNeeded secondNeeded =>
      stores.injective first second (before first firstNeeded) (before second secondNeeded)
  · rw [free_foldl_addPin]
    exact stores.nodup
  · rw [free_foldl_addPin]
    intro id member
    obtain ⟨found, present, idle⟩ := stores.free id member
    -- A free number is none of those that get a pin.
    have apart : id ∉ names.map number := by
      intro pinned
      obtain ⟨name, inNames, rfl⟩ := List.mem_map.mp pinned
      exact stores.number_not_free (needed name inNames) member
    refine ⟨found, ?_, idle⟩
    rw [getElem?_foldl_addPin, present, List.count_eq_zero_of_not_mem apart]
    rfl
  · rw [free_foldl_addPin]
    intro id found present
    rw [getElem?_foldl_addPin] at present
    obtain ⟨before, presentBefore, _⟩ := Option.map_eq_some_iff.mp present
    rcases stores.covered id before presentBefore with inFree | ⟨name, neededBefore, same⟩
    · exact .inl inFree
    · exact .inr ⟨name, neededBefore.pin _, same⟩

/-- A number that an allocation may take. -/
theorem number_ne_of_available (stores : store.Stores records number usages) {id : FrameId}
    (available : ∀ found, store.frames[id]? = some found → found.live = false) {name : Nat}
    (needed : (usages name).Needed) : number name ≠ id := by
  rintro rfl
  obtain ⟨record, _, held⟩ := stores.present name needed
  exact Bool.noConfusion (available _ held)

theorem wellFormed (stores : store.Stores records number usages) : store.WellFormed := by
  constructor
  · exact stores.nodup
  · intro id member
    obtain ⟨found, present, idle⟩ := stores.free id member
    exact ⟨found, present, idle.live, idle.active⟩

/-- A new frame gets a number that no frame in use has. -/
theorem alloc {slots : Array α} {parent : Option FrameId} {record : FrameRecord α}
    {number' : Nat → FrameId}
    (stores : store.collect.Stores records number usages) (wellFormed : store.WellFormed)
    (older : ∀ (name : Nat) (old : FrameRecord α), records[name]? = some old →
      ∀ outer ∈ old.outer, outer < name)
    (sameNumber : ∀ name < records.size, number' name = number name)
    (newNumber : number' records.size = (store.alloc slots parent).1)
    (newFrame : fresh slots parent = record.image number' ⟨true, 0⟩) :
    (store.alloc slots parent).2.Stores (records.push record) number'
      (Function.update usages records.size ⟨true, 0⟩) := by
  obtain ⟨available, placed⟩ := wellFormed.alloc_spec slots parent
  -- A name with a need is the new one or an old one, and an old one keeps its number.
  have cases : ∀ name, (Function.update usages records.size ⟨true, 0⟩ name).Needed →
      name = records.size ∨ name ≠ records.size ∧ (usages name).Needed ∧
        number' name = number name ∧ number name ≠ (store.alloc slots parent).1 := by
    intro name needed
    by_cases last : name = records.size
    · exact .inl last
    · rw [Function.update_of_ne last] at needed
      obtain ⟨old, known, _⟩ := stores.present name needed
      have inside := (Array.getElem?_eq_some_iff.mp known).1
      exact .inr ⟨last, needed, sameNumber name inside,
        stores.number_ne_of_available (fun found present => (available found present).1) needed⟩
  constructor
  · intro name needed
    rcases cases name needed with rfl | ⟨last, before, same, differ⟩
    · refine ⟨record, by simp, ?_⟩
      rw [newNumber, placed, if_pos rfl, newFrame, Function.update_self]
    · obtain ⟨old, known, held⟩ := stores.present name before
      have sameImage : old.image number' (usages name) = old.image number (usages name) := by
        have sameParent : old.outer.head?.map number' = old.outer.head?.map number := by
          cases around : old.outer with
          | nil => rfl
          | cons outer rest =>
              have inside := (Array.getElem?_eq_some_iff.mp known).1
              have before := older name old known outer (by simp [around])
              simp [sameNumber outer (by omega)]
        simp only [FrameRecord.image, sameParent]
      refine ⟨old, ?_, ?_⟩
      · simpa [Array.getElem?_push, last] using known
      · rw [same, placed, if_neg differ, held, Function.update_of_ne last, sameImage]
  · intro first second firstNeeded secondNeeded equal
    rcases cases first firstNeeded with rfl | ⟨_, firstBefore, firstSame, firstDiffer⟩
    · rcases cases second secondNeeded with rfl | ⟨_, _, secondSame, secondDiffer⟩
      · rfl
      · rw [newNumber, secondSame] at equal
        exact absurd equal.symm secondDiffer
    · rcases cases second secondNeeded with rfl | ⟨_, secondBefore, secondSame, _⟩
      · rw [newNumber, firstSame] at equal
        exact absurd equal firstDiffer
      · rw [firstSame, secondSame] at equal
        exact stores.injective first second firstBefore secondBefore equal
  · rw [free_alloc]
    exact stores.nodup.tail
  · intro other member
    rw [free_alloc] at member
    have differ : other ≠ (store.alloc slots parent).1 := by
      rintro rfl
      exact store.alloc_fst_not_mem_tail slots parent stores.nodup member
    rw [placed, if_neg differ]
    exact stores.free other (List.mem_of_mem_tail member)
  · intro id found present
    by_cases same : id = (store.alloc slots parent).1
    · exact .inr ⟨records.size, by simp [Usage.Needed], newNumber.trans same.symm⟩
    · rw [placed, if_neg same] at present
      rcases stores.covered id found present with inFree | ⟨name, needed, rfl⟩
      · rw [free_alloc]
        exact .inl (store.mem_tail_of_ne_alloc slots parent inFree same)
      · obtain ⟨old, known, _⟩ := stores.present name needed
        have inside := (Array.getElem?_eq_some_iff.mp known).1
        refine .inr ⟨name, ?_, sameNumber name inside⟩
        rwa [Function.update_of_ne (Nat.ne_of_lt inside)]

/-! ## Following the links of an archive -/

section Links

variable {archive : Archive α} {name : Nat} (stores : store.Stores archive.records number usages)
  (archived : archive.WellFormed)

include stores archived

/-- The store links a frame to the next one of its lineage. -/
theorem next_frame (needed : (usages name).Needed) :
    ∃ record found, archive.records[name]? = some record ∧
      store.frames[number name]? = some found ∧ found.slots = record.slots ∧
      (record.outer = [] ∧ found.parent = none ∨
        ∃ next < name, record.outer = archive.lineage next ∧ found.parent = some (number next)) := by
  obtain ⟨record, known, held⟩ := stores.present name needed
  have inside := (Array.getElem?_eq_some_iff.mp known).1
  refine ⟨record, _, known, held, rfl, ?_⟩
  rcases archived name record known with none | ⟨next, older, same⟩
  · left
    simp [none, FrameRecord.image]
  · right
    have nextKnown := Array.getElem?_eq_getElem (Nat.lt_trans older inside)
    refine ⟨next, older, same, ?_⟩
    simp [FrameRecord.image, same, Archive.lineage_of_some nextKnown]

theorem chain_of_lineage (inside : name < archive.records.size)
    (needed : ∀ outer ∈ archive.lineage name, (usages outer).Needed) :
    ∃ sizes, Chain (fun _ => True) store (some (number name)) sizes ∧
      store.chainFrom sizes.length (some (number name)) = (archive.lineage name).map number := by
  induction name using Nat.strongRecOn with
  | ind name ih =>
      obtain ⟨record, found, known, held, _, link⟩ :=
        stores.next_frame archived (needed name (Archive.mem_lineage_self inside))
      have present := (Array.getElem?_eq_some_iff.mp held).1
      rw [Archive.lineage_of_some known] at needed ⊢
      rcases link with ⟨none, top⟩ | ⟨next, older, same, around⟩
      · have outermost : Chain (fun _ => True) store found.parent [] := by
          rw [top]
          exact .top
        refine ⟨_, .frame held trivial outermost, ?_⟩
        simp [FrameStore.chainFrom, present, none]
      · rw [same] at needed ⊢
        obtain ⟨sizes, chain, listed⟩ := ih next older (Nat.lt_trans older inside)
          fun outer member => needed outer (List.mem_cons_of_mem name member)
        rw [← around] at chain
        refine ⟨_, .frame held trivial chain, ?_⟩
        simp only [List.length_cons, FrameStore.chainFrom, present, if_true, parent?, held,
          Option.bind_some, around, listed, List.map_cons]

theorem chain_eq (inside : name < archive.records.size)
    (needed : ∀ outer ∈ archive.lineage name, (usages outer).Needed) :
    store.chain (number name) = (archive.lineage name).map number := by
  obtain ⟨sizes, chain, listed⟩ := stores.chain_of_lineage archived inside needed
  rw [chain.chain_eq, listed]

theorem ancestor?_eq (level : Nat) (inside : name < archive.records.size)
    (needed : ∀ outer ∈ archive.lineage name, (usages outer).Needed) :
    store.ancestor? level (number name) = (archive.lineage name)[level]?.map number := by
  induction level generalizing name with
  | zero =>
      rw [Archive.lineage_of_some (Array.getElem?_eq_getElem inside)]
      rfl
  | succ level ih =>
      obtain ⟨record, found, known, held, _, link⟩ :=
        stores.next_frame archived (needed name (Archive.mem_lineage_self inside))
      rw [Archive.lineage_of_some known] at needed ⊢
      rcases link with ⟨none, top⟩ | ⟨next, older, same, around⟩
      · simp [ancestor?, parent?, held, top, none]
      · rw [same] at needed ⊢
        have further := ih (Nat.lt_trans older inside)
          fun outer member => needed outer (List.mem_cons_of_mem name member)
        simp [ancestor?, parent?, held, around, further]

theorem get?_eq (level index : Nat) (inside : name < archive.records.size)
    (needed : ∀ outer ∈ archive.lineage name, (usages outer).Needed) :
    store.get? (some (number name)) level index = archive.get? (some name) level index := by
  simp only [FrameStore.get?, Archive.get?, Archive.target?, Option.bind_some,
    stores.ancestor?_eq archived level inside needed]
  cases target : (archive.lineage name)[level]? with
  | none => rfl
  | some outer =>
      obtain ⟨record, known, held⟩ :=
        stores.present outer (needed outer (List.mem_of_getElem? target))
      simp only [Option.map_some, held, Option.bind_some, known]
      rfl

/-- Writing through a frame whose lineage is needed changes the one frame that is meant. -/
theorem set (level index : Nat) (value : α) (inside : name < archive.records.size)
    (needed : ∀ outer ∈ archive.lineage name, (usages outer).Needed) :
    (store.set (some (number name)) level index value).2.Stores
      (archive.set (some name) level index value).records number usages := by
  have frames := store.getElem?_set (some (number name)) level index value
  rw [Option.bind_some, stores.ancestor?_eq archived level inside needed] at frames
  constructor
  · intro other otherNeeded
    obtain ⟨record, known, held⟩ := stores.present other otherNeeded
    cases target : (archive.lineage name)[level]? with
    | none =>
        refine ⟨record, ?_, ?_⟩
        · simp [Archive.set, Archive.target?, target, known]
        · simp [frames, held, target]
    | some outer =>
        have outerNeeded := needed outer (List.mem_of_getElem? target)
        by_cases same : outer = other
        · subst same
          refine ⟨{ record with slots := record.slots.setIfInBounds index value }, ?_, ?_⟩
          · simp [Archive.set, Archive.target?, target, known, Array.getElem?_modify]
          · simp [frames, held, target, FrameRecord.image]
        · have differ : number outer ≠ number other := fun equal =>
            same (stores.injective outer other outerNeeded otherNeeded equal)
          refine ⟨record, ?_, ?_⟩
          · simp [Archive.set, Archive.target?, target, known, Array.getElem?_modify, same]
          · simp [frames, held, target, differ]
  · exact stores.injective
  · rw [free_set]
    exact stores.nodup
  · rw [free_set]
    intro id member
    obtain ⟨found, present, idle⟩ := stores.free id member
    rw [frames, present]
    exact ⟨_, rfl, idle.live, idle.active, idle.pins⟩
  · rw [free_set]
    intro id found present
    rw [frames] at present
    obtain ⟨before, presentBefore, _⟩ := Option.map_eq_some_iff.mp present
    exact stores.covered id before presentBefore

end Links

end FrameStore.Stores

end ObjectLisp
