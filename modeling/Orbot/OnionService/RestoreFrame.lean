import Orbot.OnionService.Services

/-!
# The rows that a restore touches

A restore takes over the columns of the backup into every row with the local port of the backup. It
touches one service exactly when there is no such row, or one of them lacks the columns and the
others have them.
-/

namespace Orbot.OnionService

open Orbot.Foundation

/-- The later table has one more row, or one row of the earlier one has other columns; all other
rows are the same. -/
def TouchesOneRow (t t' : ServiceTable) : Prop :=
  (∃ columns, t'.rows = (t.insert columns).rows) ∨
    ∃ row ∈ t.rows, ∃ columns, columns ≠ row.columns ∧
      t'.rows = (t.update (idIs row.id) fun _ ↦ columns).rows

/-- The rows with the port that do not hold the columns of the backup yet. -/
def lackingRows (port : Int32) (fields : ContentValues) (t : ServiceTable) : List Row :=
  t.rows.filter fun row ↦ portIs port row && (fields.apply row.columns != row.columns)

section Tables

variable {t : ServiceTable} {port : Int32} {fields : ContentValues}

theorem mem_lackingRows {row : Row} :
    row ∈ lackingRows port fields t ↔
      row ∈ t.rows ∧ portIs port row = true ∧ fields.apply row.columns ≠ row.columns := by
  simp [lackingRows, List.mem_filter]

theorem nodup_lackingRows : (lackingRows port fields t).Nodup :=
  (List.Nodup.of_map _ t.ids_nodup).filter _

/-- Two ways to change rows give the same rows when they agree on each row of the table. -/
theorem rows_update_eq_iff {selection selection' : Row → Bool}
    {change change' : Columns → Columns} :
    (t.update selection change).rows = (t.update selection' change').rows ↔
      ∀ row ∈ t.rows, (if selection row then change row.columns else row.columns) =
        if selection' row then change' row.columns else row.columns := by
  have hcolumns (selection : Row → Bool) (change : Columns → Columns) (row : Row) :
      (if selection row then { row with columns := change row.columns } else row) =
        ⟨row.id, if selection row then change row.columns else row.columns⟩ := by
    split <;> rfl
  rw [Table.rows_update, Table.rows_update, List.map_inj_left]
  refine forall₂_congr fun row _ ↦ ?_
  rw [hcolumns selection, hcolumns selection', Record.mk.injEq]
  exact and_iff_right rfl

/-- An update by the port changes one row exactly when one row lacks the columns. -/
theorem update_port_iff :
    TouchesOneRow t (updateValues t (portIs port) fields) ↔
      (lackingRows port fields t).length = 1 := by
  constructor
  · rintro (⟨columns, hrows⟩ | ⟨row, hrow, columns, hchanged, hrows⟩)
    · have hlength := congrArg List.length hrows
      simp [updateValues] at hlength
    · have hself := rows_update_eq_iff.mp hrows row hrow
      have hlacking : row ∈ lackingRows port fields t := by
        rw [if_pos (by simp [idIs] : idIs row.id row = true)] at hself
        split at hself
        · next hselected =>
          exact mem_lackingRows.mpr ⟨hrow, hselected, hself ▸ hchanged⟩
        · exact absurd hself.symm hchanged
      have hsubset : lackingRows port fields t ⊆ [row] := by
        intro other hother
        obtain ⟨hmem, hselected, hlacks⟩ := mem_lackingRows.mp hother
        have hsame := rows_update_eq_iff.mp hrows other hmem
        rw [if_pos hselected] at hsame
        split at hsame
        · next hid =>
          rw [Table.eq_of_id_eq hmem hrow (beq_iff_eq.mp hid)]
          exact List.mem_singleton_self row
        · exact absurd hsame hlacks
      have hmost := List.Nodup.length_le_of_subset nodup_lackingRows hsubset
      exact le_antisymm hmost (List.length_pos_of_mem hlacking)
  · intro hlength
    obtain ⟨row, hlacking⟩ := List.length_eq_one_iff.mp hlength
    obtain ⟨hrow, hselected, hlacks⟩ := mem_lackingRows.mp (hlacking ▸ List.mem_singleton_self row)
    refine .inr ⟨row, hrow, fields.apply row.columns, hlacks,
      rows_update_eq_iff.mpr fun other hother ↦ ?_⟩
    by_cases hsame : other = row
    · simp [hsame, hselected, idIs]
    · have hid : idIs row.id other = false :=
        beq_false_of_ne fun hid ↦ hsame (Table.eq_of_id_eq hother hrow hid)
      rw [hid, if_neg Bool.false_ne_true]
      split
      · next hother' =>
        by_contra hother''
        have hmem := mem_lackingRows.mpr ⟨hother, hother', hother''⟩
        rw [hlacking] at hmem
        exact hsame (List.mem_singleton.mp hmem)
      · rfl

/-- No row has the port, or one row with it lacks the columns. -/
def LacksOnce (port : Int32) (fields : ContentValues) (t : ServiceTable) : Prop :=
  t.rows.any (portIs port) = false ∨ (lackingRows port fields t).length = 1

instance : Decidable (LacksOnce port fields t) :=
  inferInstanceAs (Decidable (_ ∨ _))

theorem touchesOneRow_insertOrUpdate_iff :
    TouchesOneRow t (insertOrUpdate t port fields) ↔ LacksOnce port fields t := by
  unfold insertOrUpdate LacksOnce
  split
  · next hport =>
    rw [update_port_iff, hport]
    simp
  · next hport =>
    exact iff_of_true (.inl ⟨_, rfl⟩) (.inl (by simpa using hport))

end Tables

/-- Where no configuration is read, the restore reports an error. -/
theorem outcome_of_unread (v : Version) (P : Platform) (base : Path) (backupName : String)
    (archive : Option ZipStream) (s : Store)
    (h : restoredConfig v P base backupName archive s.disk = none) :
    (v.restore P base backupName archive s).1 ≠ .restored := by
  cases hname : nameBeforeDot backupName with
  | none => simp [restore_of_noDot hname]
  | some stem =>
    simp only [restoredConfig, hname, Option.bind_eq_bind, Option.bind_some] at h
    rcases hunzip : unzip base (components stem) archive s.disk with ⟨d, _ | _ | _⟩
    · rw [hunzip] at h
      rw [restore_of_unzipped hname hunzip]
      cases v with
      | v2 => simp [Version.extractConfig, extractConfigFromUnzippedBackupV2, hname, h]
      | v3 => simp [Version.extractConfig, extractConfigFromUnzippedBackupV3, hname, h]
    · simp [restore_of_unzipFails hname hunzip]
    · simp [restore_of_unzipThrows hname hunzip]

/-- A successful restore touches one service exactly when no row has the port of the backup, or one
row with it lacks the columns. -/
theorem restore_touchesOneRow_iff (v : Version) (P : Platform) (base : Path) (backupName : String)
    (archive : Option ZipStream) (s : Store)
    (hrestored : (v.restore P base backupName archive s).1 = .restored) :
    TouchesOneRow s.table (v.restore P base backupName archive s).2.table ↔
      ∃ port fields, restoredConfig v P base backupName archive s.disk = some (port, fields) ∧
        LacksOnce port fields s.table := by
  rw [table_restore]
  cases hconfig : restoredConfig v P base backupName archive s.disk with
  | none => exact absurd hrestored (outcome_of_unread v P base backupName archive s hconfig)
  | some config =>
    obtain ⟨port, fields⟩ := config
    simp [touchesOneRow_insertOrUpdate_iff]

/-- The archive of a service with the local port 8080. -/
def archiveOf8080 : ZipStream :=
  .entry hostnameFile (flatPlatform.encode "b.onion") (.entry secretKeyFile [1]
    (.entry publicKeyFile [2] (.entry configFileName (backupConfig 8080 "b.onion") .eof)))

def fieldsOf8080 : ContentValues :=
  { port := some 8080, name := some "w", onionPort := some 80, domain := some "b.onion",
    createdByUser := some 1, enabled := some 1 }

/-- The state of the app after some actions. -/
def afterActions (actions : List Action) : Store :=
  ((system .v3 flatPlatform appFiles).run (system .v3 flatPlatform appFiles).init actions).store

theorem restore_touches_created :
    TouchesOneRow (afterActions createdService).table
      (Version.v3.restore flatPlatform (Version.v3.base appFiles) "web.zip" (some archiveOf8080)
        (afterActions createdService)).2.table := by
  have hrun : (Version.v3.restore flatPlatform (Version.v3.base appFiles) "web.zip"
        (some archiveOf8080) (afterActions createdService)).1 = .restored ∧
      restoredConfig .v3 flatPlatform (Version.v3.base appFiles) "web.zip" (some archiveOf8080)
        (afterActions createdService).disk = some (8080, fieldsOf8080) ∧
      LacksOnce 8080 fieldsOf8080 (afterActions createdService).table := by
    decide +kernel
  obtain ⟨hrestored, hconfig, hlacking⟩ := hrun
  exact (restore_touchesOneRow_iff .v3 flatPlatform _ _ _ _ hrestored).mpr
    ⟨8080, fieldsOf8080, hconfig, hlacking⟩

/-- Two services of the user on one local port. -/
def sameLocalPort : List Action := createdService ++ [.create "shop" 8080 81 false]

/-- The backup of one of them overwrites both. -/
theorem restore_overwrites_both :
    (system .v3 flatPlatform appFiles).Admissible (fun _ _ ↦ True)
        (system .v3 flatPlatform appFiles).init sameLocalPort ∧
      (Version.v3.restore flatPlatform (Version.v3.base appFiles) "web.zip" (some archiveOf8080)
        (afterActions sameLocalPort)).1 = .restored ∧
      ¬ TouchesOneRow (afterActions sameLocalPort).table
        (Version.v3.restore flatPlatform (Version.v3.base appFiles) "web.zip" (some archiveOf8080)
          (afterActions sameLocalPort)).2.table := by
  have hrun : (Version.v3.restore flatPlatform (Version.v3.base appFiles) "web.zip"
        (some archiveOf8080) (afterActions sameLocalPort)).1 = .restored ∧
      restoredConfig .v3 flatPlatform (Version.v3.base appFiles) "web.zip" (some archiveOf8080)
        (afterActions sameLocalPort).disk = some (8080, fieldsOf8080) ∧
      ¬ LacksOnce 8080 fieldsOf8080 (afterActions sameLocalPort).table := by
    decide +kernel
  obtain ⟨hrestored, hconfig, hlacking⟩ := hrun
  refine ⟨by decide, hrestored, ?_⟩
  rw [table_restore, hconfig, touchesOneRow_insertOrUpdate_iff]
  exact hlacking

end Orbot.OnionService
