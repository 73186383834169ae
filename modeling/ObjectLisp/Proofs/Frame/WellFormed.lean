import ObjectLisp.Proofs.Frame.Pointwise

/-!
# Well-formed frame stores and active frames

A store is well formed if its free numbers are those of frames that are neither
live nor active, each listed once.  Every operation keeps a store well formed,
whatever frame it is given.  Which frames are active changes only by allocation
and release: the one makes a frame active that was not, the other takes that
back.
-/

namespace ObjectLisp

universe u

variable {α : Type u}

namespace FrameStore

/-- The free numbers belong to frames out of use, each listed once. -/
structure WellFormed (store : FrameStore α) : Prop where
  nodup : store.free.Nodup
  free : ∀ id ∈ store.free, ∃ found, store.frames[id]? = some found ∧
    found.live = false ∧ found.active = false

/-- Is a frame active? -/
def isActive (store : FrameStore α) (id : FrameId) : Bool :=
  store.frames[id]?.any (·.active)

/-- The empty store is well formed. -/
theorem wellFormed_empty : ({} : FrameStore α).WellFormed :=
  ⟨List.nodup_nil, by simp⟩

variable {store : FrameStore α}

/-- Changing frames in place keeps a store well formed if it brings none back. -/
theorem WellFormed.of_map {later : FrameStore α} (wellFormed : store.WellFormed)
    (change : FrameId → Frame α → Frame α) (sameFree : later.free = store.free)
    (changed : ∀ id, later.frames[id]? = store.frames[id]?.map (change id))
    (live : ∀ id found, found.live = false → (change id found).live = false)
    (active : ∀ id found, found.active = false → (change id found).active = false) :
    later.WellFormed := by
  refine ⟨sameFree ▸ wellFormed.nodup, ?_⟩
  intro id member
  rw [sameFree] at member
  obtain ⟨found, present, notLive, notActive⟩ := wellFormed.free id member
  exact ⟨change id found, by rw [changed, present]; rfl, live id found notLive,
    active id found notActive⟩

/-! ## Operations on frames that exist -/

theorem WellFormed.pin (wellFormed : store.WellFormed) (frame : FrameId) :
    (store.pin frame).WellFormed :=
  wellFormed.of_map _ (store.free_pin frame) (store.getElem?_pin frame)
    (fun _ _ notLive => notLive) (fun _ _ notActive => notActive)

theorem WellFormed.set (wellFormed : store.WellFormed) (env : Option FrameId)
    (level index : Nat) (value : α) : (store.set env level index value).2.WellFormed :=
  wellFormed.of_map _ (store.free_set env level index value)
    (store.getElem?_set env level index value)
    (fun _ _ notLive => notLive) (fun _ _ notActive => notActive)

theorem WellFormed.freeIfUnused (wellFormed : store.WellFormed) (frame : FrameId) :
    (store.freeIfUnused frame).WellFormed := by
  unfold FrameStore.freeIfUnused
  split
  · exact wellFormed
  · next found present =>
      split
      · next unused =>
          have flags : found.live = true ∧ found.active = false := by
            simp only [Frame.unused, Bool.and_eq_true, Bool.not_eq_true'] at unused
            exact unused.1
          -- Only live frames are given back, and the free ones are not live.
          have notFree : frame ∉ store.free := by
            intro member
            obtain ⟨other, presentToo, notLive, _⟩ := wellFormed.free frame member
            rw [present] at presentToo
            cases presentToo
            rw [flags.1] at notLive
            contradiction
          refine ⟨List.nodup_cons.mpr ⟨notFree, wellFormed.nodup⟩, ?_⟩
          intro id member
          rcases List.mem_cons.mp member with rfl | inFree
          · refine ⟨{ found with slots := #[], parent := none, live := false }, ?_, rfl, flags.2⟩
            rw [Array.getElem?_modify, if_pos rfl, present]
            rfl
          · have different : frame ≠ id := by
              rintro rfl
              exact notFree inFree
            rw [Array.getElem?_modify, if_neg different]
            exact wellFormed.free id inFree
      · exact wellFormed

theorem WellFormed.modify (wellFormed : store.WellFormed) (frame : FrameId)
    (change : Frame α → Frame α) (live : ∀ found, found.live = false → (change found).live = false)
    (active : ∀ found, found.active = false → (change found).active = false) :
    { store with frames := store.frames.modify frame change }.WellFormed := by
  refine wellFormed.of_map (fun id found => if frame = id then change found else found) rfl ?_ ?_ ?_
  · intro id
    rw [Array.getElem?_modify]
    by_cases same : frame = id
    · simp [same]
    · simp [same]
  · intro id found notLive
    by_cases same : frame = id
    · simpa [same] using live found notLive
    · simpa [same] using notLive
  · intro id found notActive
    by_cases same : frame = id
    · simpa [same] using active found notActive
    · simpa [same] using notActive

theorem WellFormed.dropPin (wellFormed : store.WellFormed) (frame : FrameId) :
    (store.dropPin frame).WellFormed :=
  (wellFormed.modify frame Frame.unpinned (fun _ notLive => notLive)
    (fun _ notActive => notActive)).freeIfUnused frame

theorem WellFormed.retire (wellFormed : store.WellFormed) (frame : FrameId) :
    (store.retire frame).WellFormed :=
  (wellFormed.modify frame Frame.released (fun _ notLive => notLive)
    (fun _ _ => rfl)).freeIfUnused frame

theorem WellFormed.dropChain (wellFormed : store.WellFormed) (frame : FrameId) :
    (store.dropChain frame).WellFormed := by
  unfold FrameStore.dropChain
  induction store.chain frame generalizing store with
  | nil => exact wellFormed
  | cons first rest ih => exact ih (wellFormed.dropPin first)

theorem WellFormed.foldl_dropChain (wellFormed : store.WellFormed) (ids : List FrameId) :
    (ids.foldl FrameStore.dropChain store).WellFormed := by
  induction ids generalizing store with
  | nil => exact wellFormed
  | cons first rest ih => exact ih (wellFormed.dropChain first)

theorem WellFormed.collect (wellFormed : store.WellFormed) : store.collect.WellFormed := by
  have emptied : { store with queue := [] }.WellFormed := ⟨wellFormed.nodup, wellFormed.free⟩
  exact emptied.foldl_dropChain store.queue

theorem WellFormed.release (wellFormed : store.WellFormed) (frame : FrameId) :
    (store.release frame).WellFormed :=
  (wellFormed.retire frame).collect

/-! ## Allocation -/

/-- An allocation takes a number that is out of use, and makes its frame the new one. -/
theorem WellFormed.alloc_spec (wellFormed : store.WellFormed) (slots : Array α)
    (parent : Option FrameId) :
    (∀ found, store.collect.frames[(store.alloc slots parent).1]? = some found →
      found.live = false ∧ found.active = false) ∧
    ∀ id, (store.alloc slots parent).2.frames[id]? =
      if id = (store.alloc slots parent).1 then some (fresh slots parent)
      else store.collect.frames[id]? := by
  cases available : store.collect.free with
  | nil =>
      rw [store.alloc_of_free_nil slots parent available]
      refine ⟨?_, ?_⟩
      · intro found present
        simp at present
      · intro id
        simp only [Array.getElem?_push]
  | cons index rest =>
      obtain ⟨old, present, notLive, notActive⟩ :=
        wellFormed.collect.free index (by simp [available])
      have inside := (Array.getElem?_eq_some_iff.mp present).1
      rw [store.alloc_of_free_cons slots parent available]
      refine ⟨?_, ?_⟩
      · intro found presentToo
        rw [present] at presentToo
        cases presentToo
        exact ⟨notLive, notActive⟩
      · intro id
        simp only [Array.getElem?_setIfInBounds]
        by_cases same : index = id
        · subst same
          simp [inside]
        · simp [same, Ne.symm same]

theorem WellFormed.alloc (wellFormed : store.WellFormed) (slots : Array α)
    (parent : Option FrameId) : (store.alloc slots parent).2.WellFormed := by
  have placed := (wellFormed.alloc_spec slots parent).2
  cases available : store.collect.free with
  | nil =>
      refine ⟨?_, ?_⟩
      · simp [store.alloc_of_free_nil slots parent available, available]
      · simp [store.alloc_of_free_nil slots parent available, available]
  | cons index rest =>
      have nodup := wellFormed.collect.nodup
      rw [available] at nodup
      obtain ⟨notInRest, restNodup⟩ := List.nodup_cons.mp nodup
      rw [store.alloc_of_free_cons slots parent available] at placed ⊢
      refine ⟨restNodup, ?_⟩
      intro id member
      have different : id ≠ index := by
        rintro rfl
        exact notInRest member
      rw [placed id, if_neg different]
      exact wellFormed.collect.free id (by simp [available, member])

/-! ## Active frames -/

@[simp]
theorem isActive_pin (frame id : FrameId) : (store.pin frame).isActive id = store.isActive id := by
  simp [isActive, getElem?_pin, Option.any_map]

@[simp]
theorem isActive_set (env : Option FrameId) (level index : Nat) (value : α) (id : FrameId) :
    (store.set env level index value).2.isActive id = store.isActive id := by
  simp [isActive, getElem?_set, Option.any_map]

@[simp]
theorem isActive_dropPin (frame id : FrameId) :
    (store.dropPin frame).isActive id = store.isActive id := by
  unfold isActive
  rw [getElem?_dropPin]
  by_cases same : frame = id
  · simp [same, Option.any_map, Frame.unpinned]
  · simp [same]

@[simp]
theorem isActive_dropChain (frame id : FrameId) :
    (store.dropChain frame).isActive id = store.isActive id := by
  unfold dropChain
  induction store.chain frame generalizing store with
  | nil => rfl
  | cons first rest ih =>
      rw [List.foldl_cons, ih]
      exact isActive_dropPin first id

@[simp]
theorem isActive_collect (id : FrameId) : store.collect.isActive id = store.isActive id := by
  have dropped : ∀ (ids : List FrameId) (store : FrameStore α),
      (ids.foldl dropChain store).isActive id = store.isActive id := by
    intro ids
    induction ids with
    | nil => exact fun _ => rfl
    | cons first rest ih =>
        intro store
        rw [List.foldl_cons, ih]
        exact isActive_dropChain first id
  exact dropped store.queue { store with queue := [] }

theorem isActive_release (frame id : FrameId) :
    (store.release frame).isActive id = if id = frame then false else store.isActive id := by
  rw [release_eq, isActive_collect]
  unfold isActive
  rw [getElem?_retire]
  by_cases same : frame = id
  · simp [same, Option.any_map, Frame.released]
  · simp [same, Ne.symm same]

theorem WellFormed.isActive_alloc (wellFormed : store.WellFormed) (slots : Array α)
    (parent : Option FrameId) (id : FrameId) :
    (store.alloc slots parent).2.isActive id =
      if id = (store.alloc slots parent).1 then true else store.isActive id := by
  rw [← store.isActive_collect]
  unfold isActive
  rw [(wellFormed.alloc_spec slots parent).2]
  by_cases same : id = (store.alloc slots parent).1
  · simp [same, fresh]
  · simp [same]

/-- The number that an allocation takes is not that of an active frame. -/
theorem WellFormed.not_active_alloc (wellFormed : store.WellFormed) (slots : Array α)
    (parent : Option FrameId) : store.isActive (store.alloc slots parent).1 = false := by
  have unused := (wellFormed.alloc_spec slots parent).1
  rw [← store.isActive_collect]
  unfold isActive
  cases present : store.collect.frames[(store.alloc slots parent).1]? with
  | none => rfl
  | some found => simpa using (unused found present).2

end FrameStore

end ObjectLisp
