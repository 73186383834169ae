import Mathlib.Data.List.Perm.Subperm
import ObjectLisp.Proofs.Frame.WellFormed

/-!
# Chains of frames

The frames around a frame form a chain that ends outside of all frames.  A chain
is described by the sizes of its frames, innermost first.  Frames in use keep
their size and their parent, so the chain of a frame stays the same as long as
all its frames are in use.

A store whose queue is empty and whose free frames have no pins is tidy.  In a
tidy store allocation and release leave all other frames in use alone, and a pin
holds every frame of a chain.
-/

namespace ObjectLisp

universe u

variable {α : Type u}

/-- What of a frame outlasts the operations while it is in use. -/
structure Frame.Kept (before after : Frame α) : Prop where
  parent : after.parent = before.parent
  size : after.slots.size = before.slots.size
  active : before.active = true → after.active = true
  pins : 0 < before.pins → 0 < after.pins

namespace Frame.Kept

variable {first second third : Frame α}

theorem refl (frame : Frame α) : frame.Kept frame :=
  ⟨rfl, rfl, id, id⟩

theorem trans (left : first.Kept second) (right : second.Kept third) : first.Kept third where
  parent := right.parent.trans left.parent
  size := right.size.trans left.size
  active isActive := right.active (left.active isActive)
  pins isPinned := right.pins (left.pins isPinned)

theorem inUse (kept : first.Kept second) (inUse : first.InUse) : second.InUse := by
  rcases inUse with active | pinned
  · exact .inl (kept.active active)
  · exact .inr (kept.pins pinned)

end Frame.Kept

namespace FrameStore

/-- Frames in use are still there. -/
def Keeps (before after : FrameStore α) : Prop :=
  ∀ (id : FrameId) (found : Frame α), before.frames[id]? = some found → found.InUse →
    ∃ later, after.frames[id]? = some later ∧ found.Kept later

namespace Keeps

variable {first second third : FrameStore α}

theorem refl (store : FrameStore α) : store.Keeps store :=
  fun _ found present _ => ⟨found, present, .refl found⟩

theorem trans (left : first.Keeps second) (right : second.Keeps third) : first.Keeps third := by
  intro id found present inUse
  obtain ⟨middle, presentMiddle, keptMiddle⟩ := left id found present inUse
  obtain ⟨later, presentLater, keptLater⟩ :=
    right id middle presentMiddle (keptMiddle.inUse inUse)
  exact ⟨later, presentLater, keptMiddle.trans keptLater⟩

end Keeps

/-! ## Chains -/

/-- The frames around and including a frame satisfy a condition and have these sizes. -/
inductive Chain (Held : Frame α → Prop) (store : FrameStore α) : Option FrameId → List Nat → Prop
    where
  | top : Chain Held store none []
  | frame {id : FrameId} {found : Frame α} {sizes : List Nat}
      (present : store.frames[id]? = some found) (held : Held found)
      (outer : Chain Held store found.parent sizes) :
      Chain Held store (some id) (found.slots.size :: sizes)

namespace Chain

variable {Held : Frame α → Prop} {store : FrameStore α} {env : Option FrameId} {sizes : List Nat}

/-- A chain is found again where its frames have the same parents and sizes. -/
theorem transport {Held' : Frame α → Prop} {later : FrameStore α}
    (chain : Chain Held store env sizes)
    (kept : ∀ (id : FrameId) (found : Frame α), store.frames[id]? = some found → Held found →
      ∃ found', later.frames[id]? = some found' ∧ Held' found' ∧
        found'.parent = found.parent ∧ found'.slots.size = found.slots.size) :
    Chain Held' later env sizes := by
  induction chain with
  | top => exact .top
  | @frame id found sizes present held outer ih =>
      obtain ⟨found', present', held', sameParent, sameSize⟩ := kept id found present held
      rw [← sameSize]
      exact .frame present' held' (sameParent ▸ ih)

theorem mono {Held' : Frame α → Prop} (chain : Chain Held store env sizes)
    (weaken : ∀ found, Held found → Held' found) : Chain Held' store env sizes :=
  chain.transport fun _ found present held => ⟨found, present, weaken found held, rfl, rfl⟩

theorem keeps_inUse {later : FrameStore α} (chain : Chain Frame.InUse store env sizes)
    (keeps : store.Keeps later) : Chain Frame.InUse later env sizes := by
  refine chain.transport fun id found present inUse => ?_
  obtain ⟨found', present', kept⟩ := keeps id found present inUse
  exact ⟨found', present', kept.inUse inUse, kept.parent, kept.size⟩

theorem keeps_pinned {later : FrameStore α}
    (chain : Chain (fun found => 0 < found.pins) store env sizes) (keeps : store.Keeps later) :
    Chain (fun found => 0 < found.pins) later env sizes := by
  refine chain.transport fun id found present pinned => ?_
  obtain ⟨found', present', kept⟩ := keeps id found present (.inr pinned)
  exact ⟨found', present', kept.pins pinned, kept.parent, kept.size⟩

/-- The sizes are a matter of the store alone. -/
theorem unique {Held' : Frame α → Prop} {sizes' : List Nat} (chain : Chain Held store env sizes)
    (other : Chain Held' store env sizes') : sizes = sizes' := by
  induction chain generalizing sizes' with
  | top =>
      cases other
      rfl
  | frame present held outer ih =>
      cases other with
      | frame present' held' outer' =>
          rw [present] at present'
          cases present'
          rw [ih outer']

/-- An address in range of the sizes finds a value. -/
theorem get?_eq_some {level index size : Nat} (chain : Chain Held store env sizes)
    (atLevel : sizes[level]? = some size) (inside : index < size) :
    ∃ value, store.get? env level index = some value := by
  induction chain generalizing level with
  | top => simp at atLevel
  | @frame id found sizes present held outer ih =>
      cases level with
      | zero =>
          simp only [List.getElem?_cons_zero, Option.some.injEq] at atLevel
          subst atLevel
          refine ⟨found.slots[index], ?_⟩
          simp [get?, ancestor?, present, inside]
      | succ level =>
          simp only [List.getElem?_cons_succ] at atLevel
          obtain ⟨value, read⟩ := ih atLevel
          refine ⟨value, ?_⟩
          -- One link further out the same value is read.
          cases parent : found.parent with
          | none => simp [parent, get?] at read
          | some outerId =>
              rw [parent] at read
              simpa [get?, ancestor?, parent?, present, parent] using read

/-! ## A chain as a list of numbers -/

theorem length_chainFrom (chain : Chain Held store env sizes) :
    (store.chainFrom sizes.length env).length = sizes.length := by
  induction chain with
  | top => rfl
  | @frame id found sizes present held outer ih =>
      have inside := (Array.getElem?_eq_some_iff.mp present).1
      simp only [List.length_cons, chainFrom, inside, if_true, parent?, present,
        Option.bind_some, ih]

/-- A frame on a chain starts a chain that is not longer. -/
theorem of_mem_chainFrom (chain : Chain Held store env sizes) {id : FrameId}
    (member : id ∈ store.chainFrom sizes.length env) :
    ∃ sizes', Chain Held store (some id) sizes' ∧ sizes'.length ≤ sizes.length := by
  induction chain with
  | top => simp [chainFrom] at member
  | @frame first found sizes present held outer ih =>
      have inside := (Array.getElem?_eq_some_iff.mp present).1
      simp only [List.length_cons, chainFrom, inside, if_true, parent?, present,
        Option.bind_some, List.mem_cons] at member
      rcases member with rfl | further
      · exact ⟨_, .frame present held outer, Nat.le_refl _⟩
      · obtain ⟨sizes', chain', shorter⟩ := ih further
        exact ⟨sizes', chain', Nat.le_succ_of_le shorter⟩

/-- No frame is on a chain twice, since its own chain has one length only. -/
theorem nodup_chainFrom (chain : Chain Held store env sizes) :
    (store.chainFrom sizes.length env).Nodup := by
  induction chain with
  | top => simp [chainFrom]
  | @frame id found sizes present held outer ih =>
      have inside := (Array.getElem?_eq_some_iff.mp present).1
      simp only [List.length_cons, chainFrom, inside, if_true, parent?, present,
        Option.bind_some, List.nodup_cons]
      refine ⟨?_, ih⟩
      intro again
      obtain ⟨sizes', chain', shorter⟩ := outer.of_mem_chainFrom again
      have same := chain'.unique (.frame present held outer)
      rw [same, List.length_cons] at shorter
      omega

/-- A chain is not longer than the store. -/
theorem length_le (chain : Chain Held store env sizes) :
    sizes.length ≤ store.frames.size := by
  have inRange : store.chainFrom sizes.length env ⊆ List.range store.frames.size := by
    intro id member
    obtain ⟨_, chain', _⟩ := chain.of_mem_chainFrom member
    cases chain' with
    | frame present _ _ => exact List.mem_range.mpr (Array.getElem?_eq_some_iff.mp present).1
  have counted := (List.subperm_of_subset chain.nodup_chainFrom inRange).length_le
  rwa [chain.length_chainFrom, List.length_range] at counted

/-- Looking further than the end of a chain finds nothing more. -/
theorem chainFrom_eq (chain : Chain Held store env sizes) {bound : Nat}
    (enough : sizes.length ≤ bound) :
    store.chainFrom bound env = store.chainFrom sizes.length env := by
  induction chain generalizing bound with
  | top => cases bound <;> rfl
  | @frame id found sizes present held outer ih =>
      have inside := (Array.getElem?_eq_some_iff.mp present).1
      cases bound with
      | zero => simp at enough
      | succ bound =>
          simp only [List.length_cons, chainFrom, inside, if_true, parent?, present,
            Option.bind_some]
          rw [ih (Nat.le_of_succ_le_succ enough)]

theorem chain_eq {frame : FrameId} (chain : Chain Held store (some frame) sizes) :
    store.chain frame = store.chainFrom sizes.length (some frame) :=
  chain.chainFrom_eq chain.length_le

/-- Pinning every frame of a chain makes it a chain of pinned frames. -/
theorem pinned_of_subset {ids : List FrameId} (chain : Chain Held store env sizes)
    (subset : ∀ id ∈ store.chainFrom sizes.length env, id ∈ ids) :
    Chain (fun found => 0 < found.pins) (ids.foldl addPin store) env sizes := by
  induction chain with
  | top => exact .top
  | @frame id found sizes present held outer ih =>
      have inside := (Array.getElem?_eq_some_iff.mp present).1
      simp only [List.length_cons, chainFrom, inside, if_true, parent?, present,
        Option.bind_some, List.forall_mem_cons] at subset
      have counted := List.count_pos_iff.mpr subset.1
      have pinned : (ids.foldl addPin store).frames[id]? =
          some { found with pins := found.pins + ids.count id } := by
        rw [getElem?_foldl_addPin, present]
        rfl
      have whole := Chain.frame pinned (Nat.add_pos_right _ counted) (ih subset.2)
      exact whole

theorem pin {frame : FrameId} (chain : Chain Held store (some frame) sizes) :
    Chain (fun found => 0 < found.pins) (store.pin frame) (some frame) sizes :=
  chain.pinned_of_subset fun id member => by rwa [chain.chain_eq]

end Chain

/-! ## Tidy stores -/

/-- No dropped pin is waiting, and the free frames have no pins. -/
structure Tidy (store : FrameStore α) : Prop extends store.WellFormed where
  queue : store.queue = []
  unpinned : ∀ id ∈ store.free, ∀ found, store.frames[id]? = some found → found.pins = 0

theorem tidy_empty : ({} : FrameStore α).Tidy :=
  ⟨wellFormed_empty, rfl, by simp⟩

namespace Tidy

variable {store : FrameStore α} (tidy : store.Tidy)

include tidy

theorem not_inUse_of_free {id : FrameId} {found : Frame α} (member : id ∈ store.free)
    (present : store.frames[id]? = some found) : ¬ found.InUse := by
  obtain ⟨other, presentToo, _, notActive⟩ := tidy.free id member
  rw [present] at presentToo
  cases presentToo
  rintro (active | pinned)
  · rw [notActive] at active
    contradiction
  · rw [tidy.unpinned id member found present] at pinned
    contradiction

theorem collect_eq : store.collect = store :=
  store.collect_of_queue_nil tidy.queue

/-- The number that an allocation takes is that of no frame in use. -/
theorem alloc_not_inUse (slots : Array α) (parent : Option FrameId) {found : Frame α}
    (present : store.frames[(store.alloc slots parent).1]? = some found) : ¬ found.InUse := by
  cases available : store.free with
  | nil =>
      rw [store.alloc_of_free_nil slots parent (by rw [tidy.collect_eq, available]),
        tidy.collect_eq] at present
      simp at present
  | cons index rest =>
      have available' : store.collect.free = index :: rest := by rw [tidy.collect_eq, available]
      rw [store.alloc_of_free_cons slots parent available'] at present
      exact tidy.not_inUse_of_free (by simp [available]) present

theorem getElem?_alloc (slots : Array α) (parent : Option FrameId) (id : FrameId) :
    (store.alloc slots parent).2.frames[id]? =
      if id = (store.alloc slots parent).1 then some (fresh slots parent)
      else store.frames[id]? := by
  rw [(tidy.toWellFormed.alloc_spec slots parent).2, tidy.collect_eq]

theorem alloc (slots : Array α) (parent : Option FrameId) :
    (store.alloc slots parent).2.Tidy := by
  have placed := tidy.getElem?_alloc slots parent
  refine ⟨tidy.toWellFormed.alloc slots parent, ?_, ?_⟩
  · cases available : store.collect.free with
    | nil => simp [store.alloc_of_free_nil slots parent available]
    | cons index rest => simp [store.alloc_of_free_cons slots parent available]
  · intro id member found present
    rw [placed id] at present
    cases available : store.collect.free with
    | nil =>
        rw [store.alloc_of_free_nil slots parent available] at member
        simp [available] at member
    | cons index rest =>
        have nodup := tidy.toWellFormed.collect.nodup
        rw [available] at nodup
        rw [store.alloc_of_free_cons slots parent available] at member present
        have different : id ≠ index := by
          rintro rfl
          exact (List.nodup_cons.mp nodup).1 member
        rw [if_neg different] at present
        rw [tidy.collect_eq] at available
        exact tidy.unpinned id (by simp [available, member]) found present

theorem keeps_alloc (slots : Array α) (parent : Option FrameId) :
    store.Keeps (store.alloc slots parent).2 := by
  intro id found present inUse
  have different : id ≠ (store.alloc slots parent).1 := by
    rintro rfl
    exact tidy.alloc_not_inUse slots parent present inUse
  exact ⟨found, by rw [tidy.getElem?_alloc, if_neg different, present], .refl found⟩

theorem release_eq_retire (frame : FrameId) : store.release frame = store.retire frame := by
  rw [release_eq, collect_of_queue_nil]
  rw [queue_retire, tidy.queue]

theorem getElem?_release (frame id : FrameId) :
    (store.release frame).frames[id]? =
      if frame = id then store.frames[id]?.map fun found => found.released.settled
      else store.frames[id]? := by
  rw [tidy.release_eq_retire, getElem?_retire]

theorem release (frame : FrameId) : (store.release frame).Tidy := by
  refine ⟨tidy.toWellFormed.release frame, ?_, ?_⟩
  · rw [release_eq, queue_collect]
  · intro id member found present
    rw [tidy.getElem?_release] at present
    rw [tidy.release_eq_retire, free_retire] at member
    by_cases same : frame = id
    · subst same
      rw [if_pos rfl] at present
      obtain ⟨old, presentOld, rfl⟩ := Option.map_eq_some_iff.mp present
      rw [Frame.settled_pins]
      by_cases unused : old.released.unused = true
      · simp only [Frame.unused, Bool.and_eq_true, decide_eq_true_eq] at unused
        exact unused.2
      · rw [presentOld] at member
        simp only [Option.any_some, unused] at member
        exact tidy.unpinned frame member old presentOld
    · rw [if_neg same] at present
      have inFree : id ∈ store.free := by
        split at member
        · exact (List.mem_cons.mp member).resolve_left (Ne.symm same)
        · exact member
      exact tidy.unpinned id inFree found present

/-- A released frame that is pinned stays as it is otherwise. -/
theorem chain_release {env : Option FrameId} {sizes : List Nat}
    (chain : Chain (fun found => 0 < found.pins) store env sizes) (frame : FrameId) :
    Chain (fun found => 0 < found.pins) (store.release frame) env sizes := by
  refine chain.transport fun id found present pinned => ?_
  rw [tidy.getElem?_release, present]
  by_cases same : frame = id
  · have stays : found.released.settled = found.released :=
      Frame.settled_of_inUse (.inr pinned)
    refine ⟨found.released, ?_, pinned, rfl, rfl⟩
    simp [same, stays]
  · exact ⟨found, by simp [same], pinned, rfl, rfl⟩

theorem pin {frame : FrameId} {sizes : List Nat}
    (chain : Chain Frame.InUse store (some frame) sizes) : (store.pin frame).Tidy := by
  refine ⟨tidy.toWellFormed.pin frame, ?_, ?_⟩
  · rw [queue_pin, tidy.queue]
  · intro id member found present
    rw [free_pin] at member
    rw [getElem?_pin] at present
    obtain ⟨old, presentOld, rfl⟩ := Option.map_eq_some_iff.mp present
    -- The frames of the chain are in use, so a free one is not among them.
    have apart : id ∉ store.chain frame := by
      intro onChain
      rw [chain.chain_eq] at onChain
      obtain ⟨_, chain', _⟩ := chain.of_mem_chainFrom onChain
      cases chain' with
      | frame present' inUse _ => exact tidy.not_inUse_of_free member present' inUse
    simp [tidy.unpinned id member old presentOld, List.count_eq_zero_of_not_mem apart]

theorem set (env : Option FrameId) (level index : Nat) (value : α) :
    (store.set env level index value).2.Tidy := by
  refine ⟨tidy.toWellFormed.set env level index value, ?_, ?_⟩
  · rw [queue_set, tidy.queue]
  · intro id member found present
    rw [free_set] at member
    rw [getElem?_set] at present
    obtain ⟨old, presentOld, rfl⟩ := Option.map_eq_some_iff.mp present
    exact tidy.unpinned id member old presentOld

end Tidy

theorem keeps_pin (store : FrameStore α) (frame : FrameId) : store.Keeps (store.pin frame) := by
  intro id found present _
  refine ⟨{ found with pins := found.pins + (store.chain frame).count id }, ?_, ?_⟩
  · rw [getElem?_pin, present]
    rfl
  · exact ⟨rfl, rfl, fun active => active, fun pinned => Nat.add_pos_left pinned _⟩

theorem keeps_set (store : FrameStore α) (env : Option FrameId) (level index : Nat) (value : α) :
    store.Keeps (store.set env level index value).2 := by
  intro id found present _
  rw [getElem?_set, present]
  refine ⟨_, rfl, rfl, ?_, fun active => active, fun pinned => pinned⟩
  dsimp only
  split
  · exact Array.size_setIfInBounds
  · rfl

end FrameStore

end ObjectLisp
