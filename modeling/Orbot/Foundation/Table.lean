import Mathlib.Data.List.Nodup

/-!
# Database tables with automatic row ids

A table holds its rows in insertion order. The id of a row is given by the table when the row is
inserted, is larger than every id given before and never changes, so a table in which two rows
share an id cannot be built. A query without an order returns the rows in the order of the ids.
-/

namespace Orbot.Foundation

universe u

/-- A stored row: its id and its other columns. -/
structure Record (Columns : Type u) where
  id : ℕ
  columns : Columns
  deriving DecidableEq

/-- A table whose `_id` column is an autoincremented primary key. -/
structure Table (Columns : Type u) where
  rows : List (Record Columns)
  nextId : ℕ
  ids_lt : ∀ row ∈ rows, row.id < nextId
  ids_nodup : (rows.map Record.id).Nodup

namespace Table

variable {Columns : Type u}

def empty : Table Columns where
  rows := []
  nextId := 1
  ids_lt := by simp
  ids_nodup := by simp

/-- Append a row under the next id. -/
def insert (t : Table Columns) (columns : Columns) : Table Columns where
  rows := t.rows ++ [⟨t.nextId, columns⟩]
  nextId := t.nextId + 1
  ids_lt := by
    intro row hrow
    rcases List.mem_append.mp hrow with hold | hnew
    · exact Nat.lt_succ_of_lt (t.ids_lt row hold)
    · rw [List.mem_singleton.mp hnew]
      exact Nat.lt_succ_self _
  ids_nodup := by
    rw [List.map_append, List.map_singleton, List.nodup_append]
    refine ⟨t.ids_nodup, List.nodup_singleton _, ?_⟩
    intro id hid other hother
    obtain ⟨row, hrow, rfl⟩ := List.mem_map.mp hid
    rw [List.mem_singleton.mp hother]
    exact Nat.ne_of_lt (t.ids_lt row hrow)

/-- Change the columns of the selected rows. -/
def update (t : Table Columns) (selection : Record Columns → Bool) (change : Columns → Columns) :
    Table Columns where
  rows := t.rows.map fun row ↦
    if selection row then { row with columns := change row.columns } else row
  nextId := t.nextId
  ids_lt := by
    intro row hrow
    obtain ⟨old, hold, rfl⟩ := List.mem_map.mp hrow
    split <;> exact t.ids_lt old hold
  ids_nodup := by
    have hids : (t.rows.map fun row ↦ if selection row then
        { row with columns := change row.columns } else row).map Record.id =
          t.rows.map Record.id := by
      rw [List.map_map]
      refine List.map_congr_left fun row _ ↦ ?_
      simp only [Function.comp_apply]
      split <;> rfl
    rw [hids]
    exact t.ids_nodup

/-- Remove the selected rows. -/
def delete (t : Table Columns) (selection : Record Columns → Bool) : Table Columns where
  rows := t.rows.filter fun row ↦ !selection row
  nextId := t.nextId
  ids_lt := fun row hrow ↦ t.ids_lt row (List.mem_filter.mp hrow).1
  ids_nodup := t.ids_nodup.sublist (List.filter_sublist.map _)

variable {t : Table Columns}

@[simp]
theorem rows_empty : (empty : Table Columns).rows = [] := rfl

@[simp]
theorem rows_insert (columns : Columns) :
    (t.insert columns).rows = t.rows ++ [⟨t.nextId, columns⟩] := rfl

@[simp]
theorem rows_update (selection : Record Columns → Bool) (change : Columns → Columns) :
    (t.update selection change).rows =
      t.rows.map fun row ↦
        if selection row then { row with columns := change row.columns } else row := rfl

@[simp]
theorem rows_delete (selection : Record Columns → Bool) :
    (t.delete selection).rows = t.rows.filter fun row ↦ !selection row := rfl

/-- What holds of every row after an insertion holds of the old rows and of the new one. -/
theorem forall_mem_insert {p : Record Columns → Prop} (columns : Columns) :
    (∀ row ∈ (t.insert columns).rows, p row) ↔
      (∀ row ∈ t.rows, p row) ∧ p ⟨t.nextId, columns⟩ := by
  rw [rows_insert, List.forall_mem_append, List.forall_mem_singleton]

theorem forall_mem_delete {p : Record Columns → Prop} (h : ∀ row ∈ t.rows, p row)
    (selection : Record Columns → Bool) : ∀ row ∈ (t.delete selection).rows, p row :=
  fun row hrow ↦ h row (List.mem_filter.mp hrow).1

/-- The id determines the row. -/
theorem eq_of_id_eq {row other : Record Columns} (hrow : row ∈ t.rows) (hother : other ∈ t.rows)
    (h : row.id = other.id) : row = other :=
  List.inj_on_of_nodup_map t.ids_nodup hrow hother h

/-- The id selects one row. -/
theorem filter_id {row : Record Columns} (hrow : row ∈ t.rows) :
    t.rows.filter (fun other ↦ other.id == row.id) = [row] := by
  have hnodup : (t.rows.filter fun other ↦ other.id == row.id).Nodup :=
    (List.Nodup.of_map _ t.ids_nodup).filter _
  refine List.Perm.eq_singleton
    ((List.perm_ext_iff_of_nodup hnodup (List.nodup_singleton row)).mpr fun other ↦ ?_)
  rw [List.mem_filter, List.mem_singleton, beq_iff_eq]
  constructor
  · rintro ⟨hother, hid⟩
    exact t.eq_of_id_eq hother hrow hid
  · rintro rfl
    exact ⟨hrow, rfl⟩

/-- Every row of the later table comes from the row with its id, changed as `change` allows. -/
def Evolves (change : Record Columns → Record Columns → Prop) (t t' : Table Columns) : Prop :=
  ∀ row' ∈ t'.rows, ∃ row ∈ t.rows, row'.id = row.id ∧ change row row'

theorem mem_update {selection : Record Columns → Bool} {change : Columns → Columns}
    {row : Record Columns} (h : row ∈ (t.update selection change).rows) :
    ∃ old ∈ t.rows, row.id = old.id ∧
      row.columns = if selection old then change old.columns else old.columns := by
  obtain ⟨old, hold, rfl⟩ := List.mem_map.mp h
  refine ⟨old, hold, ?_⟩
  split <;> simp

theorem forall_mem_update {p : Columns → Prop} {change : Columns → Columns}
    (hchange : ∀ columns, p columns → p (change columns)) (h : ∀ row ∈ t.rows, p row.columns)
    (selection : Record Columns → Bool) :
    ∀ row ∈ (t.update selection change).rows, p row.columns := by
  intro row hrow
  obtain ⟨old, hold, -, hcolumns⟩ := mem_update hrow
  rw [hcolumns]
  split
  · exact hchange _ (h old hold)
  · exact h old hold

theorem evolves_update (selection : Record Columns → Bool) (change : Columns → Columns) :
    Evolves (fun row row' ↦
        row'.columns = if selection row then change row.columns else row.columns)
      t (t.update selection change) :=
  fun _ hrow ↦ mem_update hrow

theorem evolves_delete (selection : Record Columns → Bool) :
    Evolves (fun row row' ↦ row' = row) t (t.delete selection) :=
  fun row hrow ↦ ⟨row, (List.mem_filter.mp hrow).1, rfl, rfl⟩

/-- Different rows come from different rows. -/
theorem Evolves.exists_pair {change : Record Columns → Record Columns → Prop}
    {t t' : Table Columns} (h : Evolves change t t') {row other : Record Columns}
    (hrow : row ∈ t'.rows) (hother : other ∈ t'.rows) (hne : row ≠ other) :
    ∃ old ∈ t.rows, ∃ oldOther ∈ t.rows, old ≠ oldOther ∧ change old row ∧
      change oldOther other := by
  obtain ⟨old, hold, hid, hchange⟩ := h row hrow
  obtain ⟨oldOther, holdOther, hidOther, hchangeOther⟩ := h other hother
  refine ⟨old, hold, oldOther, holdOther, ?_, hchange, hchangeOther⟩
  rintro rfl
  exact hne (eq_of_id_eq hrow hother (hid.trans hidOther.symm))

/-- An update selected by an id that splits the table changes just the row between the parts. -/
theorem rows_update_id {before after : List (Record Columns)} {row : Record Columns}
    (hrows : t.rows = before ++ row :: after) (change : Columns → Columns) :
    (t.update (fun other ↦ other.id == row.id) change).rows =
      before ++ { row with columns := change row.columns } :: after := by
  have hids := t.ids_nodup
  rw [hrows, List.map_append, List.map_cons, List.nodup_append] at hids
  obtain ⟨-, hafter, hdisjoint⟩ := hids
  have hsame {part : List (Record Columns)} (hpart : ∀ other ∈ part, other.id ≠ row.id) :
      part.map (fun other ↦ if other.id == row.id then
        { other with columns := change other.columns } else other) = part := by
    refine (List.map_congr_left fun other hother ↦ ?_).trans (List.map_id part)
    simp [hpart other hother]
  have hbefore : ∀ other ∈ before, other.id ≠ row.id := fun other hother ↦
    hdisjoint _ (List.mem_map_of_mem hother) _ List.mem_cons_self
  have hnot : ∀ other ∈ after, other.id ≠ row.id := fun other hother h ↦
    (List.nodup_cons.mp hafter).1 (h ▸ List.mem_map_of_mem hother)
  rw [rows_update, hrows, List.map_append, List.map_cons, hsame hbefore, hsame hnot]
  simp

end Table

end Orbot.Foundation
