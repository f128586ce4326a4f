import Mathlib.Data.List.Nodup
import PortableSql.Table

/-!
# Ordered tables

Storing keeps the keys of a table in strictly ascending order, so each key stands there once, and an entry is
found exactly if it stands in the table.
-/
namespace PortableSql.Table

variable {κ ν : Type} [Ord κ]

/-- Every key is smaller than those behind it. -/
def IsAscending (table : Table κ ν) : Prop :=
  table.keys.Pairwise fun a b => compare a b = .lt

theorem isAscending_empty : (empty : Table κ ν).IsAscending :=
  List.Pairwise.nil

section
variable [Std.LawfulEqOrd κ] {key other : κ} {value : ν} {entries : List (κ × ν)}

theorem mem_keys_insertEntry :
    other ∈ (insertEntry key value entries).map (·.1) ↔ other = key ∨ other ∈ entries.map (·.1) := by
  induction entries with
  | nil => simp [insertEntry]
  | cons entry rest ih =>
    unfold insertEntry
    split
    · simp
    · rename_i same
      have taken : key = entry.1 := Std.LawfulEqOrd.eq_of_compare same
      simp [taken]
    · simp only [List.map_cons, List.mem_cons, ih, or_left_comm]

omit [Std.LawfulEqOrd κ] in
theorem mem_of_mem_insertEntry {entry : κ × ν} (member : entry ∈ insertEntry key value entries) :
    entry = (key, value) ∨ entry ∈ entries := by
  induction entries with
  | nil => exact .inl (List.mem_singleton.1 member)
  | cons first rest ih =>
    unfold insertEntry at member
    split at member
    · exact List.mem_cons.1 member
    · rcases List.mem_cons.1 member with new | behind
      · exact .inl new
      · exact .inr (List.mem_cons_of_mem _ behind)
    · rcases List.mem_cons.1 member with rfl | behind
      · exact .inr List.mem_cons_self
      · exact (ih behind).imp_right (List.mem_cons_of_mem _)

theorem mem_keys_insert {table : Table κ ν} :
    other ∈ (table.insert key value).keys ↔ other = key ∨ other ∈ table.keys :=
  mem_keys_insertEntry

theorem isAscending_insertEntry [Std.TransOrd κ]
    (ascending : (entries.map (·.1)).Pairwise fun a b => compare a b = .lt) :
    ((insertEntry key value entries).map (·.1)).Pairwise fun a b => compare a b = .lt := by
  induction entries with
  | nil => exact List.pairwise_singleton ..
  | cons entry rest ih =>
    rw [List.map_cons, List.pairwise_cons] at ascending
    obtain ⟨least, later⟩ := ascending
    unfold insertEntry
    split
    · rename_i below
      rw [List.map_cons, List.map_cons, List.pairwise_cons, List.pairwise_cons, List.forall_mem_cons]
      exact ⟨⟨below, fun other member => Std.TransCmp.lt_trans below (least other member)⟩, least, later⟩
    · rename_i same
      have taken : key = entry.1 := Std.LawfulEqOrd.eq_of_compare same
      rw [List.map_cons, List.pairwise_cons, taken]
      exact ⟨least, later⟩
    · rename_i above
      rw [List.map_cons, List.pairwise_cons]
      refine ⟨fun other member => ?_, ih later⟩
      rcases mem_keys_insertEntry.1 member with rfl | behind
      · exact Std.OrientedCmp.gt_iff_lt.1 above
      · exact least other behind

theorem IsAscending.insert [Std.TransOrd κ] {table : Table κ ν} (ascending : table.IsAscending) (key : κ)
    (value : ν) : (table.insert key value).IsAscending :=
  isAscending_insertEntry ascending

theorem IsAscending.nodup {table : Table κ ν} (ascending : table.IsAscending) : table.keys.Nodup := by
  refine List.Pairwise.imp ?_ ascending
  rintro a _ below rfl
  rw [Std.ReflOrd.compare_self] at below
  cases below

end

section
variable [DecidableEq κ] {table : Table κ ν} {key : κ} {value : ν}

omit [Ord κ] in
theorem mem_of_findEntry {entries : List (κ × ν)} (found : findEntry key entries = some value) :
    (key, value) ∈ entries := by
  induction entries with
  | nil => cases found
  | cons entry rest ih =>
    unfold findEntry at found
    split at found
    · rename_i same
      cases found
      rw [← same]
      exact List.mem_cons_self
    · exact List.mem_cons_of_mem _ (ih found)

omit [Ord κ] in
theorem findEntry_eq_none_iff {entries : List (κ × ν)} :
    findEntry key entries = none ↔ key ∉ entries.map (·.1) := by
  induction entries with
  | nil => simp [findEntry]
  | cons entry rest ih =>
    unfold findEntry
    by_cases same : entry.1 = key
    · simp [same]
    · simp [same, ih, Ne.symm same]

omit [Ord κ] in
/-- The keys are those under which a value is found. -/
theorem mem_keys_iff : key ∈ table.keys ↔ ∃ value, table.get? key = some value := by
  rw [← Option.ne_none_iff_exists', ne_eq, get?, findEntry_eq_none_iff, not_not]
  rfl

theorem IsAscending.get?_eq_some_iff [Std.LawfulEqOrd κ] (ascending : table.IsAscending) :
    table.get? key = some value ↔ (key, value) ∈ table.entries := by
  constructor
  · exact mem_of_findEntry
  · intro member
    obtain ⟨found, present⟩ := mem_keys_iff.1 (List.mem_map_of_mem member : key ∈ table.keys)
    have same : (key, found) = (key, value) :=
      List.inj_on_of_nodup_map ascending.nodup (mem_of_findEntry present) member rfl
    rw [present, (Prod.mk.inj same).2]

end

end PortableSql.Table
