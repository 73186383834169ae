/-!
# Finite maps as association lists

Name tables, method tables and caches of the interpreter are small, and the
order in which their entries were made can be seen from outside.  An `Assoc`
keeps its entries in that order.  `insert` replaces the value of a key in place
or appends a new entry, so a table built by `insert` has one entry per key.
-/

namespace ObjectLisp

universe u v

/-- A finite map from keys to values, in order of first insertion. -/
structure Assoc (κ : Type u) (ν : Type v) where
  entries : List (κ × ν) := []
deriving Repr, Inhabited

namespace Assoc

variable {κ : Type u} {ν : Type v}

/-- The map without entries. -/
def empty : Assoc κ ν := ⟨[]⟩

/-- The keys, in order of first insertion. -/
def keys (table : Assoc κ ν) : List κ := table.entries.map Prod.fst

/-- The values, in the order of their keys. -/
def values (table : Assoc κ ν) : List ν := table.entries.map Prod.snd

variable [DecidableEq κ]

/-- First value stored under `key` in a list of entries. -/
def findIn (key : κ) : List (κ × ν) → Option ν
  | [] => none
  | (first, value) :: rest => if first = key then some value else findIn key rest

/-- Replace the value of `key` where it stands, or append a new entry. -/
def insertIn (key : κ) (value : ν) : List (κ × ν) → List (κ × ν)
  | [] => [(key, value)]
  | (first, old) :: rest =>
      if first = key then (first, value) :: rest else (first, old) :: insertIn key value rest

/-- The value stored under `key`, if there is one. -/
def find? (table : Assoc κ ν) (key : κ) : Option ν := findIn key table.entries

/-- Does the table hold an entry for `key`? -/
def contains (table : Assoc κ ν) (key : κ) : Bool := (table.find? key).isSome

/-- Store `value` under `key`. -/
def insert (table : Assoc κ ν) (key : κ) (value : ν) : Assoc κ ν :=
  ⟨insertIn key value table.entries⟩

/-- Drop every entry of `key`. -/
def erase (table : Assoc κ ν) (key : κ) : Assoc κ ν :=
  ⟨table.entries.filter fun entry => entry.1 ≠ key⟩

@[simp]
theorem find?_empty (key : κ) : (empty : Assoc κ ν).find? key = none :=
  rfl

theorem findIn_insertIn (key other : κ) (value : ν) (entries : List (κ × ν)) :
    findIn other (insertIn key value entries) =
      if key = other then some value else findIn other entries := by
  induction entries with
  | nil => simp [insertIn, findIn]
  | cons entry rest ih =>
      obtain ⟨first, old⟩ := entry
      by_cases here : first = key
      · subst here
        by_cases same : first = other <;> simp [insertIn, findIn, same]
      · by_cases same : first = other
        · subst same
          simp [insertIn, findIn, here, Ne.symm here]
        · simp [insertIn, findIn, here, same, ih]

/-- A lookup after an insertion sees the new value, and every other key is untouched. -/
@[simp]
theorem find?_insert (table : Assoc κ ν) (key other : κ) (value : ν) :
    (table.insert key value).find? other =
      if key = other then some value else table.find? other :=
  findIn_insertIn key other value table.entries

theorem mem_of_findIn {key : κ} {value : ν} {entries : List (κ × ν)}
    (found : findIn key entries = some value) : (key, value) ∈ entries := by
  induction entries with
  | nil => cases found
  | cons entry rest ih =>
      obtain ⟨first, old⟩ := entry
      unfold findIn at found
      split at found
      · next same =>
          subst same
          cases found
          exact List.mem_cons_self ..
      · exact List.mem_cons_of_mem _ (ih found)

theorem mem_values_of_find? {table : Assoc κ ν} {key : κ} {value : ν}
    (found : table.find? key = some value) : value ∈ table.values :=
  List.mem_map.mpr ⟨(key, value), mem_of_findIn found, rfl⟩

theorem mem_insertIn {key : κ} {value : ν} {entry : κ × ν} {entries : List (κ × ν)}
    (member : entry ∈ insertIn key value entries) : entry.2 = value ∨ entry ∈ entries := by
  induction entries with
  | nil =>
      rw [insertIn, List.mem_singleton] at member
      exact .inl (member ▸ rfl)
  | cons first rest ih =>
      unfold insertIn at member
      split at member
      · rcases List.mem_cons.mp member with rfl | later
        · exact .inl rfl
        · exact .inr (List.mem_cons_of_mem _ later)
      · rcases List.mem_cons.mp member with rfl | later
        · exact .inr (List.mem_cons_self ..)
        · exact (ih later).imp_right (List.mem_cons_of_mem _)

/-- An insertion adds one value at most. -/
theorem mem_values_insert {table : Assoc κ ν} {key : κ} {value other : ν}
    (member : other ∈ (table.insert key value).values) : other = value ∨ other ∈ table.values := by
  obtain ⟨entry, isEntry, rfl⟩ := List.mem_map.mp member
  exact (mem_insertIn isEntry).imp_right fun old => List.mem_map.mpr ⟨entry, old, rfl⟩

theorem findIn_filter_ne (key other : κ) (entries : List (κ × ν)) :
    findIn other (entries.filter fun entry => entry.1 ≠ key) =
      if key = other then none else findIn other entries := by
  induction entries with
  | nil => simp [findIn]
  | cons entry rest ih =>
      obtain ⟨first, old⟩ := entry
      by_cases here : first = key
      · subst here
        by_cases same : first = other
        · simpa [findIn, same] using ih
        · simpa [findIn, same] using ih
      · by_cases same : first = other
        · subst same
          simp [findIn, here, Ne.symm here]
        · simpa [findIn, here, same] using ih

/-- Erasing a key removes it and nothing else. -/
@[simp]
theorem find?_erase (table : Assoc κ ν) (key other : κ) :
    (table.erase key).find? other = if key = other then none else table.find? other :=
  findIn_filter_ne key other table.entries

end Assoc

end ObjectLisp
