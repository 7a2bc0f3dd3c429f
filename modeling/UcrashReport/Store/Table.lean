import Mathlib.Data.List.Nodup
import Mathlib.Data.List.Basic

/-! # Tables with a primary key

A table is a list of rows in insertion order whose keys are pairwise different. An insertion that
would break this fails, as the statement does in a database; an update keeps the keys by its own
proof. The laws say what a lookup by key finds afterwards.
-/

namespace Store

@[ext]
structure Table (κ ρ : Type*) (key : ρ → κ) where
  rows : List ρ := []
  unique : (rows.map key).Nodup

namespace Table

variable {κ ρ : Type*} {key : ρ → κ} [DecidableEq κ]

def empty : Table κ ρ key where
  unique := by simp

def find? (table : Table κ ρ key) (k : κ) : Option ρ :=
  table.rows.find? fun row => key row = k

/-- `INSERT`: no row when the key is taken. -/
def insert (table : Table κ ρ key) (row : ρ) : Option (Table κ ρ key) :=
  if free : key row ∉ table.rows.map key then
    some
      { rows := table.rows ++ [row]
        unique := by
          rw [List.map_append, List.nodup_append]
          refine ⟨table.unique, by simp, ?_⟩
          rintro k member k' member' rfl
          rw [List.map_singleton, List.mem_singleton] at member'
          exact free (member' ▸ member) }
  else none

/-- `UPDATE … WHERE key = k`. -/
def update (table : Table κ ρ key) (k : κ) (change : ρ → ρ)
    (keeps : ∀ row, key (change row) = key row) : Table κ ρ key where
  rows := table.rows.map fun row => if key row = k then change row else row
  unique := by
    have same : (table.rows.map fun row => if key row = k then change row else row).map key =
        table.rows.map key := by
      rw [List.map_map]
      refine List.map_congr_left fun row _ => ?_
      rw [Function.comp_apply]
      split_ifs
      · exact keeps row
      · rfl
    rw [same]
    exact table.unique

/-- `DELETE … WHERE` a condition on the row. -/
def delete (table : Table κ ρ key) (gone : ρ → Bool) : Table κ ρ key where
  rows := table.rows.filter fun row => !gone row
  unique := table.unique.sublist (List.filter_sublist.map key)

@[simp] theorem find?_empty (k : κ) : (empty : Table κ ρ key).find? k = none := rfl

theorem find?_eq_some_iff {table : Table κ ρ key} {k : κ} {row : ρ} :
    table.find? k = some row ↔ row ∈ table.rows ∧ key row = k := by
  constructor
  · intro found
    exact ⟨List.mem_of_find?_eq_some found, by simpa using List.find?_some found⟩
  · rintro ⟨member, rfl⟩
    cases found : table.find? (key row) with
    | none =>
      have absent := List.find?_eq_none.mp found row member
      simp at absent
    | some other =>
      have member' := List.mem_of_find?_eq_some found
      have sameKey : key other = key row := by simpa using List.find?_some found
      rw [List.inj_on_of_nodup_map table.unique member' member sameKey]

/-- An inserted row is found under its key, and every other key as before. -/
theorem find?_insert {table table' : Table κ ρ key} {row : ρ}
    (inserted : table.insert row = some table') (k : κ) :
    table'.find? k = if key row = k then some row else table.find? k := by
  unfold insert at inserted
  split_ifs at inserted with free
  rw [Option.some.injEq] at inserted
  subst inserted
  unfold find?
  rw [List.find?_append]
  by_cases here : key row = k
  · have absent : table.rows.find? (fun other => key other = k) = none := by
      rw [List.find?_eq_none]
      intro other member
      have different : key other ≠ key row := fun same =>
        free (List.mem_map.mpr ⟨other, member, same⟩)
      simpa [← here] using different
    simp [absent, here]
  · simp [here]

theorem find?_of_insert_eq_some {table table' : Table κ ρ key} {row : ρ}
    (inserted : table.insert row = some table') : table.find? (key row) = none := by
  unfold insert at inserted
  split_ifs at inserted with free
  unfold find?
  rw [List.find?_eq_none]
  intro other member
  have different : key other ≠ key row := fun same =>
    free (List.mem_map.mpr ⟨other, member, same⟩)
  simpa using different

/-- A row whose key is free can be inserted. -/
theorem isSome_insert {table : Table κ ρ key} {row : ρ} (free : table.find? (key row) = none) :
    (table.insert row).isSome := by
  rw [find?, List.find?_eq_none] at free
  have absent : key row ∉ table.rows.map key := by
    intro taken
    obtain ⟨other, member, same⟩ := List.mem_map.mp taken
    exact absurd (by simpa using same) (free other member)
  simp [insert, absent]

theorem find?_update (table : Table κ ρ key) (k : κ) (change : ρ → ρ)
    (keeps : ∀ row, key (change row) = key row) (query : κ) :
    (table.update k change keeps).find? query =
      (table.find? query).map fun row => if key row = k then change row else row := by
  unfold find? update
  rw [List.find?_map]
  congr 1
  refine congrArg (fun test => List.find? test table.rows) (funext fun row => ?_)
  rw [Function.comp_apply]
  split_ifs
  · rw [keeps]
  · rfl

theorem find?_update_of_ne {table : Table κ ρ key} {k query : κ} {change : ρ → ρ}
    {keeps : ∀ row, key (change row) = key row} (different : query ≠ k) :
    (table.update k change keeps).find? query = table.find? query := by
  rw [find?_update]
  cases found : table.find? query with
  | none => rfl
  | some row =>
    obtain ⟨-, rfl⟩ := find?_eq_some_iff.mp found
    rw [Option.map_some, if_neg different]

theorem find?_delete (table : Table κ ρ key) (gone : ρ → Bool) (k : κ) :
    (table.delete gone).find? k = (table.find? k).filter fun row => !gone row := by
  cases found : (table.delete gone).find? k with
  | some row =>
    obtain ⟨member, same⟩ := find?_eq_some_iff.mp found
    obtain ⟨wasMember, stays⟩ := List.mem_filter.mp member
    rw [find?_eq_some_iff.mpr ⟨wasMember, same⟩, Option.filter_some, if_pos stays]
  | none =>
    symm
    rw [Option.filter_eq_none_iff]
    intro row there stays
    obtain ⟨member, same⟩ := find?_eq_some_iff.mp there
    have still : row ∈ (table.delete gone).rows := List.mem_filter.mpr ⟨member, stays⟩
    rw [find?_eq_some_iff.mpr ⟨still, same⟩] at found
    contradiction

/-- An update loses no row. -/
theorem mem_rows_update_of_mem {table : Table κ ρ key} {row : ρ} (member : row ∈ table.rows) (k : κ)
    (change : ρ → ρ) (keeps : ∀ row, key (change row) = key row) :
    (if key row = k then change row else row) ∈ (table.update k change keeps).rows :=
  List.mem_map_of_mem member

theorem mem_rows_insert {table table' : Table κ ρ key} {row : ρ}
    (inserted : table.insert row = some table') (other : ρ) :
    other ∈ table'.rows ↔ other ∈ table.rows ∨ other = row := by
  unfold insert at inserted
  split_ifs at inserted
  rw [Option.some.injEq] at inserted
  subst inserted
  simp

end Table

end Store
