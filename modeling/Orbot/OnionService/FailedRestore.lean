import Orbot.OnionService.Extraction
import Orbot.OnionService.Services

/-!
# What a failed restore leaves behind

A restore writes to the disk before it knows that the archive is complete, and to the table before
it knows that the extracted directory can be renamed. A restore that fails leaves everything as it
was only when it had nothing to add: all that it extracted was there already, or the clean-up after
a collision takes away just what was extracted.
-/

namespace Orbot.OnionService

open Orbot.Foundation

/-- A path at or below one of the two base directories. -/
def UnderBases (filesDir path : Path) : Prop :=
  ∃ v : Version, v.base filesDir <+: path

/-- The base directories hold the same files. -/
def SameBases (filesDir : Path) (d d' : Disk Bytes) : Prop :=
  ∀ path, UnderBases filesDir path → d'.node path = d.node path

/-- A restore that does not succeed does not throw and changes neither the table nor a file. -/
def FailsCleanly (filesDir : Path) (s : Store) (result : Outcome × Store) : Prop :=
  result.1 ≠ .restored →
    result.1 ≠ .thrown ∧ result.2.table.rows = s.table.rows ∧
      SameBases filesDir s.disk result.2.disk

/-! ## The rows of a port -/

/-- There is a row of the port, and all of them have the saved columns already. -/
def RowsHaveFields (t : ServiceTable) (port : Int32) (fields : ContentValues) : Prop :=
  (∃ row ∈ t.rows, portIs port row = true) ∧
    ∀ row ∈ t.rows, portIs port row = true → fields.apply row.columns = row.columns

theorem rows_insertOrUpdate_iff {t : ServiceTable} {port : Int32} {fields : ContentValues} :
    (insertOrUpdate t port fields).rows = t.rows ↔ RowsHaveFields t port fields := by
  unfold insertOrUpdate RowsHaveFields
  split
  · next hany =>
    have hsame (row : Row) : ((if portIs port row then
        { row with columns := fields.apply row.columns } else row) = id row) ↔
          (portIs port row = true → fields.apply row.columns = row.columns) := by
      by_cases hselected : portIs port row = true
      · simp only [hselected, if_true, forall_const, id_eq]
        exact ⟨fun h ↦ congrArg Record.columns h, fun h ↦ by rw [h]⟩
      · simp [hselected]
    rw [and_iff_right (List.any_eq_true.mp hany), updateValues, Table.rows_update]
    conv_lhs => rhs; rw [← List.map_id t.rows]
    rw [List.map_inj_left]
    exact forall₂_congr fun row _ ↦ hsame row
  · next hnone =>
    refine ⟨fun h ↦ ?_, fun h ↦ absurd (List.any_eq_true.mpr h.1) hnone⟩
    simpa [insertValues] using congrArg List.length h

/-! ## When a failure is clean -/

/-- Below the base directories all files to write have their last content already, and all
directories to create are there. -/
def AddsNothing (filesDir : Path) (d : Disk Bytes) (puts : List (Put Bytes)) : Prop :=
  ∀ path, UnderBases filesDir path → d.AddsNothingAt puts path

/-- Below the base directories the clean-up takes away, in whatever order, only what was not there
before, and the writes add nothing else. -/
def CleansUpOwn (filesDir base : Path) (dir : List String) (d : Disk Bytes)
    (puts : List (Put Bytes)) : Prop :=
  ∀ path, UnderBases filesDir path → ¬ DependsOnOrder base dir d puts path ∧
    if CleanedAway base dir d puts path then d.node path = none else d.AddsNothingAt puts path

/-- The writes of an archive fail without a trace: they add nothing, or the backup is taken over,
or it collides, the rows of the port have its columns and the clean-up takes back what was added. -/
def LeavesNoTrace (v : Version) (P : Platform) (filesDir : Path) (dir : List String) (s : Store) :
    List (Put Bytes) × Extraction → Prop
  | (_, .thrown) => False
  | (puts, .failed) => AddsNothing filesDir s.disk puts
  | (puts, .complete) =>
      match savedConfig v P (v.base filesDir) dir (s.disk.nodeAfter puts) with
      | none => AddsNothing filesDir s.disk puts
      | some (port, fields) =>
          v = .v2 ∨ CanRename (v.base filesDir) dir port s.disk puts ∨
            RowsHaveFields s.table port fields ∧
              CleansUpOwn filesDir (v.base filesDir) dir s.disk puts

/-- The display name has a dot, and the entries of the archive leave no trace. -/
def FailsCleanlyWhen (v : Version) (P : Platform) (filesDir : Path) (backupName : String)
    (archive : Option ZipStream) (s : Store) : Prop :=
  ∃ stem, nameBeforeDot backupName = some stem ∧
    LeavesNoTrace v P filesDir (components stem) s
      (extraction (v.base filesDir) (components stem) archive s.disk)

section Ends

variable {filesDir : Path} {s : Store} {d : Disk Bytes} {puts : List (Put Bytes)}

theorem failsCleanly_error_iff (hnode : ∀ q, d.node q = s.disk.nodeAfter puts q) :
    FailsCleanly filesDir s (.error, { s with disk := d }) ↔
      AddsNothing filesDir s.disk puts := by
  have hsame : SameBases filesDir s.disk d ↔ AddsNothing filesDir s.disk puts :=
    forall₂_congr fun path _ ↦ by rw [hnode, Disk.addsNothingAt_iff]
  simp [FailsCleanly, hsame]

theorem failsCleanly_restored {s' : Store} : FailsCleanly filesDir s (.restored, s') :=
  fun h ↦ absurd rfl h

theorem not_failsCleanly_thrown {s' : Store} : ¬ FailsCleanly filesDir s (.thrown, s') :=
  fun h ↦ (h (by simp)).1 rfl

theorem failsCleanly_portExists_iff {port : Int32} {fields : ContentValues} :
    FailsCleanly filesDir s (.portExists port, ⟨insertOrUpdate s.table port fields, d⟩) ↔
      RowsHaveFields s.table port fields ∧ SameBases filesDir s.disk d := by
  rw [← rows_insertOrUpdate_iff]
  simp [FailsCleanly]

end Ends

section Restore

variable {P : Platform} {filesDir : Path} {backupName stem : String}
  {archive : Option ZipStream} {s : Store} {puts : List (Put Bytes)} {port : Int32}
  {fields : ContentValues}

/-- A collision leaves no trace in any order of the listing under these conditions. -/
theorem failsCleanly_collision_iff (hname : nameBeforeDot backupName = some stem)
    (hextraction : extraction (Version.v3.base filesDir) (components stem) archive s.disk =
      (puts, .complete))
    (hconfig : savedConfig .v3 P (Version.v3.base filesDir) (components stem)
      (s.disk.nodeAfter puts) = some (port, fields))
    (hcannot : ¬ CanRename (Version.v3.base filesDir) (components stem) port s.disk puts) :
    (∀ listing, FailsCleanly filesDir s (Version.v3.restore (P.withListing listing)
        (Version.v3.base filesDir) backupName archive s)) ↔
      RowsHaveFields s.table port fields ∧
        CleansUpOwn filesDir (Version.v3.base filesDir) (components stem) s.disk puts := by
  have hends := restoreV3_collides hname hextraction hconfig hcannot
  have hdecided {path : Path} {d : Disk Bytes}
      (hnode : d.node path = if CleanedAway (Version.v3.base filesDir) (components stem) s.disk puts
        path then none else s.disk.nodeAfter puts path) :
      d.node path = s.disk.node path ↔
        if CleanedAway (Version.v3.base filesDir) (components stem) s.disk puts path then
          s.disk.node path = none
        else s.disk.AddsNothingAt puts path := by
    rw [hnode]
    split
    · exact eq_comm
    · exact Disk.addsNothingAt_iff.symm
  constructor
  · intro hclean
    have hsame (listing : Listing) : RowsHaveFields s.table port fields ∧
        SameBases filesDir s.disk (Version.v3.restore (P.withListing listing)
          (Version.v3.base filesDir) backupName archive s).2.disk := by
      obtain ⟨d, hrestore, -⟩ := hends listing
      have hlisting := hclean listing
      rw [hrestore] at hlisting ⊢
      exact failsCleanly_portExists_iff.mp hlisting
    refine ⟨(hsame P.listing).1, fun path hunder ↦ ?_⟩
    have horder : ¬ DependsOnOrder (Version.v3.base filesDir) (components stem) s.disk puts
        path := by
      intro hdepends
      obtain ⟨hexists, ⟨first, hremoved⟩, ⟨second, hleft⟩⟩ :=
        restoreV3_dependsOnOrder hname hextraction hconfig hcannot hdepends
      have hnone := ((hsame second).2 path hunder).trans ((hsame first).2 path hunder).symm
      rw [hleft, hremoved] at hnone
      simp [hnone] at hexists
    obtain ⟨d, hrestore, -, hnode⟩ := hends P.listing
    have hpath := (hsame P.listing).2 path hunder
    rw [hrestore] at hpath
    exact ⟨horder, (hdecided (hnode path horder)).mp hpath⟩
  · rintro ⟨hrows, hown⟩ listing
    obtain ⟨d, hrestore, -, hnode⟩ := hends listing
    rw [hrestore, failsCleanly_portExists_iff]
    refine ⟨hrows, fun path hunder ↦ ?_⟩
    obtain ⟨horder, hpath⟩ := hown path hunder
    exact (hdecided (hnode path horder)).mpr hpath

/-- A v3 backup whose configuration is read fails without a trace under these conditions. -/
theorem failsCleanly_v3_iff (hname : nameBeforeDot backupName = some stem)
    (hextraction : extraction (Version.v3.base filesDir) (components stem) archive s.disk =
      (puts, .complete))
    (hconfig : savedConfig .v3 P (Version.v3.base filesDir) (components stem)
      (s.disk.nodeAfter puts) = some (port, fields)) :
    (∀ listing, FailsCleanly filesDir s (Version.v3.restore (P.withListing listing)
        (Version.v3.base filesDir) backupName archive s)) ↔
      LeavesNoTrace .v3 P filesDir (components stem) s (puts, .complete) := by
  simp only [LeavesNoTrace, hconfig, reduceCtorEq, false_or]
  by_cases hcan : CanRename (Version.v3.base filesDir) (components stem) port s.disk puts
  · obtain ⟨d, hrestore, -⟩ := restoreV3_renames hname hextraction hconfig hcan
    refine iff_of_true (fun listing ↦ ?_) (.inl hcan)
    rw [hrestore]
    exact failsCleanly_restored
  · rw [failsCleanly_collision_iff hname hextraction hconfig hcan, or_iff_right hcan]

/-- A display name with a dot. -/
theorem failsCleanly_iff_of_dot (v : Version) (hname : nameBeforeDot backupName = some stem) :
    (∀ listing, FailsCleanly filesDir s (v.restore (P.withListing listing)
        (v.base filesDir) backupName archive s)) ↔
      LeavesNoTrace v P filesDir (components stem) s
        (extraction (v.base filesDir) (components stem) archive s.disk) := by
  have herror {puts : List (Put Bytes)} (hrestore : ∀ listing, ∃ d,
      v.restore (P.withListing listing) (v.base filesDir) backupName archive s =
          (.error, { s with disk := d }) ∧ ∀ q, d.node q = s.disk.nodeAfter puts q) :
      (∀ listing, FailsCleanly filesDir s (v.restore (P.withListing listing)
        (v.base filesDir) backupName archive s)) ↔ AddsNothing filesDir s.disk puts := by
    have hiff (listing : Listing) : FailsCleanly filesDir s (v.restore (P.withListing listing)
        (v.base filesDir) backupName archive s) ↔ AddsNothing filesDir s.disk puts := by
      obtain ⟨d, hresult, hnode⟩ := hrestore listing
      rw [hresult]
      exact failsCleanly_error_iff hnode
    exact ⟨fun h ↦ (hiff P.listing).mp (h P.listing), fun h listing ↦ (hiff listing).mpr h⟩
  rcases hextraction : extraction (v.base filesDir) (components stem) archive s.disk with
    ⟨puts, _ | _ | _⟩
  · cases hconfig : savedConfig v P (v.base filesDir) (components stem)
      (s.disk.nodeAfter puts) with
    | none =>
      simp only [LeavesNoTrace, hconfig]
      refine herror fun listing ↦ restore_of_noConfig hname hextraction ?_
      rw [savedConfig_withListing, hconfig]
    | some config =>
      obtain ⟨port, fields⟩ := config
      cases v with
      | v2 =>
        simp only [LeavesNoTrace, hconfig, true_or]
        refine iff_of_true (fun listing ↦ ?_) trivial
        rw [← savedConfig_withListing .v2 P listing] at hconfig
        obtain ⟨d, hrestore, -⟩ := restoreV2_of_config hname hextraction hconfig
        rw [hrestore]
        exact failsCleanly_restored
      | v3 => exact failsCleanly_v3_iff hname hextraction hconfig
  · exact herror fun listing ↦ restore_of_failed hname hextraction
  · refine iff_of_false (fun h ↦ ?_) id
    obtain ⟨d, hrestore, -⟩ := @restore_of_thrown v (P.withListing P.listing) (v.base filesDir)
      backupName stem archive s puts hname hextraction
    have hclean := h P.listing
    rw [hrestore] at hclean
    exact not_failsCleanly_thrown hclean

end Restore

/-- A restore that fails leaves the table and the base directories as they were, without an
exception and in whatever order directories are listed, under exactly these conditions; the legacy
variants behave alike. -/
theorem failed_restore_clean_iff (v : Version) (P : Platform) (filesDir : Path)
    (backupName : String) (archive : Option ZipStream) (s : Store) :
    ((∀ listing, FailsCleanly filesDir s (v.restore (P.withListing listing)
        (v.base filesDir) backupName archive s)) ↔
      FailsCleanlyWhen v P filesDir backupName archive s) ∧
    ((∀ listing, FailsCleanly filesDir s (v.restoreLegacy (P.withListing listing)
        (v.base filesDir) backupName archive s)) ↔
      FailsCleanlyWhen v P filesDir backupName archive s) := by
  rw [restoreLegacy_eq, and_self]
  unfold FailsCleanlyWhen
  cases hname : nameBeforeDot backupName with
  | none =>
    simp only [restore_of_noDot hname, reduceCtorEq, false_and, exists_false, iff_false]
    exact fun h ↦ not_failsCleanly_thrown (h P.listing)
  | some stem =>
    simp only [Option.some_inj, exists_eq_left']
    exact failsCleanly_iff_of_dot v hname

/-- An archive without a configuration leaves its files in a directory named after it. -/
theorem failed_restore_leaves_directory :
    ¬ ∀ (v : Version) (P : Platform) (filesDir : Path) (s : Services),
      (system v P filesDir).Reachable s →
        ∀ (backupName : String) (archive : Option ZipStream),
          FailsCleanly filesDir s.store
            (v.restore P (v.base filesDir) backupName archive s.store) := by
  intro h
  have hclean := h .v3 flatPlatform appFiles _ ⟨[], trivial, rfl⟩
    "web.zip" (some (.entry hostnameFile [97] .eof))
  have hfailed : ((Version.v3.restore flatPlatform (Version.v3.base appFiles) "web.zip"
      (some (.entry hostnameFile [97] .eof))
      (installed (Version.v3.base appFiles)).store).1 ≠ .restored) := by
    decide +kernel
  have hleft : (Version.v3.restore flatPlatform (Version.v3.base appFiles) "web.zip"
      (some (.entry hostnameFile [97] .eof))
      (installed (Version.v3.base appFiles)).store).2.disk.node
        (Version.v3.base appFiles ++ ["web"]) ≠
      (installed (Version.v3.base appFiles)).store.disk.node
        (Version.v3.base appFiles ++ ["web"]) := by
    decide +kernel
  exact hleft ((hclean hfailed).2.2 _ ⟨.v3, List.prefix_append _ _⟩)

end Orbot.OnionService
