/-!
Tables: entries kept in ascending order of their keys, one entry a key. Storing under a key that is
present replaces its entry; `get?` reads the last value stored.
-/
namespace PortableSql

/-- Entries in ascending order of their keys. -/
structure Table (κ ν : Type) where
  entries : List (κ × ν)

namespace Table

variable {κ ν : Type}

/-- Puts an entry at its place among ordered entries, in place of one with the same key. -/
def insertEntry [Ord κ] (key : κ) (value : ν) : List (κ × ν) → List (κ × ν)
  | [] => [(key, value)]
  | entry :: rest =>
    match compare key entry.1 with
    | .lt => (key, value) :: entry :: rest
    | .eq => (key, value) :: rest
    | .gt => entry :: insertEntry key value rest

/-- The value under a key among entries. -/
def findEntry [DecidableEq κ] (key : κ) : List (κ × ν) → Option ν
  | [] => none
  | entry :: rest => if entry.1 = key then some entry.2 else findEntry key rest

def empty : Table κ ν := ⟨[]⟩

def insert [Ord κ] (table : Table κ ν) (key : κ) (value : ν) : Table κ ν :=
  ⟨insertEntry key value table.entries⟩

def get? [DecidableEq κ] (table : Table κ ν) (key : κ) : Option ν :=
  findEntry key table.entries

def contains [DecidableEq κ] (table : Table κ ν) (key : κ) : Bool :=
  (table.get? key).isSome

/-- The keys, ascending. -/
def keys (table : Table κ ν) : List κ :=
  table.entries.map (·.1)

/-- The values in ascending order of their keys. -/
def values (table : Table κ ν) : List ν :=
  table.entries.map (·.2)

def size (table : Table κ ν) : Nat :=
  table.entries.length

/-- Changes every value, each under its own key. -/
def mapValues (f : ν → ν) (table : Table κ ν) : Table κ ν :=
  ⟨table.entries.map fun entry => (entry.1, f entry.2)⟩

variable [Ord κ] [DecidableEq κ] [Std.LawfulEqOrd κ]

theorem findEntry_insertEntry_self (key : κ) (value : ν) (entries : List (κ × ν)) :
    findEntry key (insertEntry key value entries) = some value := by
  induction entries with
  | nil => simp [insertEntry, findEntry]
  | cons entry rest ih =>
    unfold insertEntry
    split
    · simp [findEntry]
    · simp [findEntry]
    · rename_i h
      have other : entry.1 ≠ key := by
        rintro rfl
        rw [Std.ReflOrd.compare_self] at h
        cases h
      simp [findEntry, other, ih]

theorem findEntry_insertEntry_of_ne {key other : κ} (different : other ≠ key) (value : ν)
    (entries : List (κ × ν)) :
    findEntry other (insertEntry key value entries) = findEntry other entries := by
  induction entries with
  | nil => simp [insertEntry, findEntry, different.symm]
  | cons entry rest ih =>
    unfold insertEntry
    split
    · simp [findEntry, different.symm]
    · rename_i h
      have same : key = entry.1 := Std.LawfulEqOrd.eq_of_compare h
      simp [findEntry, different.symm, ← same]
    · simp [findEntry, ih]

@[simp] theorem get?_insert_self (table : Table κ ν) (key : κ) (value : ν) :
    (table.insert key value).get? key = some value :=
  findEntry_insertEntry_self key value table.entries

theorem get?_insert_of_ne (table : Table κ ν) {key other : κ} (different : other ≠ key) (value : ν) :
    (table.insert key value).get? other = table.get? other :=
  findEntry_insertEntry_of_ne different value table.entries

omit [Ord κ] [Std.LawfulEqOrd κ] in
theorem get?_mapValues (f : ν → ν) (table : Table κ ν) (key : κ) :
    (table.mapValues f).get? key = (table.get? key).map f := by
  obtain ⟨entries⟩ := table
  unfold mapValues get?
  induction entries with
  | nil => rfl
  | cons entry rest ih =>
    rw [List.map_cons, findEntry, findEntry, ih]
    split <;> rfl

end Table

end PortableSql
