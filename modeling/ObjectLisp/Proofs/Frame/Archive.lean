import ObjectLisp.Frame

/-!
# Frames that are kept forever

An archive does the work of a frame store without ever giving a frame back.  Its
frames are known by their names, the order in which they were made, and the
record of a frame lists the names of all frames around it.

An archive also notes which frames are active and which pins are held.  That
says which uses of a frame store are in order: a frame may be enclosed, pinned or
written to only while it is in use, an active frame is released once, and a pin
is dropped once.
-/

namespace ObjectLisp

universe u

variable {α : Type u}

/-- A use of frames, which are known by name. -/
inductive FrameOp (α : Type u) where
  | alloc (slots : Array α) (parent : Option Nat)
  | get (frame : Option Nat) (level index : Nat)
  | set (frame : Option Nat) (level index : Nat) (value : α)
  | pin (frame : Option Nat)
  /-- Drop one pin of a frame. -/
  | drop (frame : Nat)
  | release (frame : Nat)
  | collect
deriving Repr

/-- A frame that is never given back. -/
structure FrameRecord (α : Type u) where
  slots : Array α
  /-- The frames around this one, innermost first. -/
  outer : List Nat
deriving Repr

/-- All frames that were ever made. -/
structure Archive (α : Type u) where
  records : Array (FrameRecord α) := #[]
  active : List Nat := []
  /-- The frames of the pins that are held. -/
  held : List Nat := []
deriving Repr

namespace Archive

/-! ## Operations -/

/-- A frame and all frames around it, innermost first. -/
def lineage (archive : Archive α) (name : Nat) : List Nat :=
  match archive.records[name]? with
  | some record => name :: record.outer
  | none => []

/-- The frame that an address means. -/
def target? (archive : Archive α) (frame : Option Nat) (level : Nat) : Option Nat :=
  frame.bind fun name => (archive.lineage name)[level]?

/-- The value at an address. -/
def get? (archive : Archive α) (frame : Option Nat) (level index : Nat) : Option α :=
  (archive.target? frame level).bind fun name => archive.records[name]?.bind (·.slots[index]?)

/-- Write the value at an address. -/
def set (archive : Archive α) (frame : Option Nat) (level index : Nat) (value : α) : Archive α :=
  match archive.target? frame level with
  | none => archive
  | some target =>
      { archive with
        records := archive.records.modify target fun record =>
          { record with slots := record.slots.setIfInBounds index value } }

/-- The record of a new frame. -/
def newRecord (archive : Archive α) (slots : Array α) (parent : Option Nat) : FrameRecord α :=
  { slots, outer := parent.elim [] archive.lineage }

/-- The archive after one use. -/
def step (archive : Archive α) : FrameOp α → Archive α
  | .alloc slots parent =>
      { archive with
        records := archive.records.push (archive.newRecord slots parent)
        active := archive.records.size :: archive.active }
  | .get _ _ _ => archive
  | .set frame level index value => archive.set frame level index value
  | .pin frame => { archive with held := frame.toList ++ archive.held }
  | .drop frame => { archive with held := archive.held.erase frame }
  | .release frame => { archive with active := archive.active.filter (· ≠ frame) }
  | .collect => archive

/-! ## Discipline -/

/-- The frame is active, or a pin that is held covers it. -/
def InUse (archive : Archive α) (name : Nat) : Prop :=
  name ∈ archive.active ∨ ∃ pin ∈ archive.held, name ∈ archive.lineage pin

/-- The frames around active frames are in use. -/
def Sheltered (archive : Archive α) : Prop :=
  ∀ name ∈ archive.active, ∀ outer ∈ archive.lineage name, archive.InUse outer

/-- What has to hold before one use. -/
def Allows (archive : Archive α) : FrameOp α → Prop
  | .alloc _ parent => ∀ name ∈ parent, archive.InUse name
  | .get _ _ _ => True
  | .set frame _ _ _ => ∀ name ∈ frame, archive.InUse name
  | .pin frame => ∀ name ∈ frame, archive.InUse name
  | .drop frame => frame ∈ archive.held
  | .release frame => frame ∈ archive.active
  | .collect => True

/-- Each use is allowed, and the frames around active frames stay in use all the time. -/
def Admits : Archive α → List (FrameOp α) → Prop
  | _, [] => True
  | archive, op :: rest =>
      archive.Allows op ∧ (archive.step op).Sheltered ∧ (archive.step op).Admits rest

instance (archive : Archive α) (name : Nat) : Decidable (archive.InUse name) :=
  inferInstanceAs (Decidable (_ ∨ _))

instance (archive : Archive α) : Decidable archive.Sheltered :=
  inferInstanceAs (Decidable (∀ name ∈ archive.active, _))

instance (archive : Archive α) (op : FrameOp α) : Decidable (archive.Allows op) :=
  match op with
  | .alloc _ parent => inferInstanceAs (Decidable (∀ name ∈ parent, _))
  | .get _ _ _ => inferInstanceAs (Decidable True)
  | .set frame _ _ _ => inferInstanceAs (Decidable (∀ name ∈ frame, _))
  | .pin frame => inferInstanceAs (Decidable (∀ name ∈ frame, _))
  | .drop frame => inferInstanceAs (Decidable (frame ∈ _))
  | .release frame => inferInstanceAs (Decidable (frame ∈ _))
  | .collect => inferInstanceAs (Decidable True)

instance decidableAdmits : (archive : Archive α) → (ops : List (FrameOp α)) →
    Decidable (archive.Admits ops)
  | _, [] => inferInstanceAs (Decidable True)
  | archive, op :: rest =>
      have := decidableAdmits (archive.step op) rest
      inferInstanceAs (Decidable (_ ∧ _ ∧ _))

/-! ## Lineages -/

/-- The frames around a frame are the lineage of an older frame. -/
def WellFormed (archive : Archive α) : Prop :=
  ∀ (name : Nat) (record : FrameRecord α), archive.records[name]? = some record →
    record.outer = [] ∨ ∃ next < name, record.outer = archive.lineage next

variable {archive : Archive α} {name outer inner : Nat}

theorem lineage_of_some {record : FrameRecord α} (present : archive.records[name]? = some record) :
    archive.lineage name = name :: record.outer := by
  simp [lineage, present]

theorem mem_lineage_self (inside : name < archive.records.size) : name ∈ archive.lineage name := by
  simp [lineage, inside]

theorem lt_size_of_mem_lineage (member : outer ∈ archive.lineage name) :
    name < archive.records.size := by
  unfold lineage at member
  split at member
  · next record present => exact (Array.getElem?_eq_some_iff.mp present).1
  · simp at member

theorem lineage_congr {later : Archive α}
    (sameOuter : (later.records[name]?).map (·.outer) = (archive.records[name]?).map (·.outer)) :
    later.lineage name = archive.lineage name := by
  unfold lineage
  cases present : archive.records[name]? with
  | none => simp_all
  | some record =>
      rw [present] at sameOuter
      obtain ⟨record', present', same⟩ := Option.map_eq_some_iff.mp sameOuter
      simp [present', same]

theorem mem_lineage_iff {record : FrameRecord α} (present : archive.records[name]? = some record) :
    outer ∈ archive.lineage name ↔ outer = name ∨ outer ∈ record.outer := by
  rw [lineage_of_some present, List.mem_cons]

namespace WellFormed

variable (wellFormed : archive.WellFormed)

include wellFormed

/-- An older frame has an older lineage. -/
theorem le_of_mem_lineage (member : outer ∈ archive.lineage name) : outer ≤ name := by
  induction name using Nat.strongRecOn with
  | ind name ih =>
      have inside := lt_size_of_mem_lineage member
      have present := Array.getElem?_eq_getElem inside
      rcases (mem_lineage_iff present).mp member with rfl | further
      · exact Nat.le_refl _
      · rcases wellFormed name _ present with none | ⟨next, older, same⟩
        · simp [none] at further
        · rw [same] at further
          have := ih next older further
          omega

theorem nodup_lineage (name : Nat) : (archive.lineage name).Nodup := by
  induction name using Nat.strongRecOn with
  | ind name ih =>
      cases present : archive.records[name]? with
      | none => simp [lineage, present]
      | some record =>
          rw [lineage_of_some present, List.nodup_cons]
          rcases wellFormed name record present with none | ⟨next, older, same⟩
          · simp [none]
          · rw [same]
            constructor
            · intro again
              have := wellFormed.le_of_mem_lineage again
              omega
            · exact ih next older

/-- What lies around a frame of a lineage is on the lineage. -/
theorem mem_lineage_trans (outerMember : outer ∈ archive.lineage inner)
    (innerMember : inner ∈ archive.lineage name) : outer ∈ archive.lineage name := by
  induction name using Nat.strongRecOn with
  | ind name ih =>
      have inside := lt_size_of_mem_lineage innerMember
      have present := Array.getElem?_eq_getElem inside
      rcases (mem_lineage_iff present).mp innerMember with rfl | further
      · exact outerMember
      · rcases wellFormed name _ present with none | ⟨next, older, same⟩
        · simp [none] at further
        · rw [same] at further
          rw [mem_lineage_iff present, same]
          exact .inr (ih next older further)

/-- All frames around a frame in use are in use. -/
theorem inUse_of_mem_lineage (sheltered : archive.Sheltered) (inUse : archive.InUse name)
    (member : outer ∈ archive.lineage name) : archive.InUse outer := by
  rcases inUse with active | ⟨pin, held, covered⟩
  · exact sheltered name active outer member
  · exact .inr ⟨pin, held, wellFormed.mem_lineage_trans member covered⟩

end WellFormed

/-! ## What the operations do to lineages -/

theorem getElem?_set_outer (frame : Option Nat) (level index : Nat) (value : α) (name : Nat) :
    ((archive.set frame level index value).records[name]?).map (·.outer) =
      (archive.records[name]?).map (·.outer) := by
  unfold set
  split
  · rfl
  · next target _ =>
      rw [Array.getElem?_modify]
      split <;> simp [Function.comp_def]

@[simp]
theorem lineage_set (frame : Option Nat) (level index : Nat) (value : α) (name : Nat) :
    (archive.set frame level index value).lineage name = archive.lineage name :=
  lineage_congr (archive.getElem?_set_outer frame level index value name)

@[simp]
theorem active_set (frame : Option Nat) (level index : Nat) (value : α) :
    (archive.set frame level index value).active = archive.active := by
  unfold set
  split <;> rfl

@[simp]
theorem held_set (frame : Option Nat) (level index : Nat) (value : α) :
    (archive.set frame level index value).held = archive.held := by
  unfold set
  split <;> rfl

@[simp]
theorem size_set (frame : Option Nat) (level index : Nat) (value : α) :
    (archive.set frame level index value).records.size = archive.records.size := by
  unfold set
  split <;> simp

theorem lineage_alloc (slots : Array α) (parent : Option Nat) (inside : name < archive.records.size) :
    (archive.step (.alloc slots parent)).lineage name = archive.lineage name := by
  apply lineage_congr
  simp [step, Array.getElem?_push, Nat.ne_of_lt inside]

theorem wellFormed_empty : ({} : Archive α).WellFormed := by
  intro name record present
  simp at present

/-- No use spoils an archive, allowed or not. -/
theorem WellFormed.step (wellFormed : archive.WellFormed) (op : FrameOp α) :
    (archive.step op).WellFormed := by
  cases op with
  | alloc slots parent =>
      intro name record present
      have older : ∀ next < archive.records.size,
          (archive.step (.alloc slots parent)).lineage next = archive.lineage next :=
        fun next inside => lineage_alloc slots parent inside
      simp only [Archive.step, Array.getElem?_push] at present
      split at present
      · next last =>
          cases present
          cases parent with
          | none => exact .inl rfl
          | some around =>
              by_cases inside : around < archive.records.size
              · right
                refine ⟨around, by omega, ?_⟩
                rw [older around inside]
                rfl
              · left
                simp [newRecord, lineage, inside]
      · rcases wellFormed name record present with none | ⟨next, before, same⟩
        · exact .inl none
        · have inside := (Array.getElem?_eq_some_iff.mp present).1
          exact .inr ⟨next, before, by rw [same, older next (by omega)]⟩
  | set frame level index value =>
      intro name record present
      have sameOuter := archive.getElem?_set_outer frame level index value name
      simp only [Archive.step] at present
      rw [present] at sameOuter
      obtain ⟨old, presentOld, same⟩ := Option.map_eq_some_iff.mp sameOuter.symm
      simp only [Archive.step, lineage_set, ← same]
      exact wellFormed name old presentOld
  | get | pin | drop | release | collect => exact wellFormed

end Archive

end ObjectLisp
