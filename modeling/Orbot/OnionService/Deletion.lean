import Orbot.OnionService.Names

/-!
# What deleting a service deletes

The delete dialogs rebuild the name of the directory from the local port, while the torrc uses the
stored name. Deleting is exact when the two agree, or when there is nothing on disk under either
name; it also has to leave alone the directory of another service that has the name of the port.
-/

namespace Orbot.OnionService

open Orbot.Foundation

/-- A path at or below the directory that the generation of the torrc uses for a row. -/
def InUsedDir (v : Version) (base : Path) (row : Row) (path : Path) : Prop :=
  match usedName v row with
  | some name => serviceDir base name <+: path
  | none => False

instance (v : Version) (base : Path) (row : Row) (path : Path) :
    Decidable (InUsedDir v base row path) := by
  unfold InUsedDir
  split <;> infer_instance

/-- A deletion removes the row and its directory, and nothing else. -/
structure DeletesExactly (v : Version) (base : Path) (row : Row) (s s' : Store) : Prop where
  rows : s'.table.rows = s.table.rows.filter (· ≠ row)
  removed : ∀ path, InUsedDir v base row path → s'.disk.node path = none
  kept : ∀ path, ¬ InUsedDir v base row path → s'.disk.node path = s.disk.node path
  others : ∀ other ∈ s.table.rows, other ≠ row → ∀ path, InUsedDir v base other path →
    s'.disk.node path = s.disk.node path

/-! ## The directory of the port -/

/-- The deletion of the directory `dir` leaves nothing: the v2 dialog does not descend. -/
def RemovesAll : Version → Disk Bytes → Path → Prop
  | .v2, d, dir => d.node dir = some .dir ∧
      ∀ name ∈ d.listFiles dir, d.listFiles (dir ++ [name]) = []
  | .v3, _, _ => True

/-- The deletion of the directory `dir` removes nothing: there is none, or for v2 all that is in it
are directories that are not empty. -/
def LeavesAll : Version → Disk Bytes → Path → Prop
  | .v2, d, dir => d.node dir = some .dir →
      d.listFiles dir ≠ [] ∧ ∀ name ∈ d.listFiles dir, d.listFiles (dir ++ [name]) ≠ []
  | .v3, d, dir => d.node dir = none

instance : ∀ (v : Version) (d : Disk Bytes) (dir : Path), Decidable (RemovesAll v d dir)
  | .v2, _, _ => inferInstanceAs (Decidable (_ ∧ _))
  | .v3, _, _ => inferInstanceAs (Decidable True)

instance : ∀ (v : Version) (d : Disk Bytes) (dir : Path), Decidable (LeavesAll v d dir)
  | .v2, _, _ => inferInstanceAs (Decidable (_ → _ ∧ _))
  | .v3, _, _ => inferInstanceAs (Decidable (_ = _))

theorem node_doDeleteV3 (base : Path) (id : ℕ) (port : Int32) (s : Store) (q : Path) :
    (doDeleteV3 base id port s).disk.node q =
      if base ++ [Version.v3.portDir port] <+: q then none else s.disk.node q := by
  rw [doDeleteV3, serviceDir_portDir]
  exact node_recursivelyDeleteDirectory s.disk (by simp) q

/-- In a directory the v2 dialog deletes the files and empty directories, and then the directory
if each of its entries was one. -/
theorem node_doDeleteV2 {base : Path} {port : Int32} {s : Store} (id : ℕ)
    (hdir : s.disk.node (base ++ [Version.v2.portDir port]) = some .dir) (q : Path) :
    (doDeleteV2 base id port s).disk.node q =
      if q = base ++ [Version.v2.portDir port] ∧
          ∀ name ∈ s.disk.listFiles q, s.disk.listFiles (q ++ [name]) = [] then none
      else if (∃ name ∈ s.disk.listFiles (base ++ [Version.v2.portDir port]),
          q = base ++ [Version.v2.portDir port] ++ [name]) ∧ s.disk.listFiles q = [] then none
      else s.disk.node q := by
  simp only [doDeleteV2, serviceDir_portDir]
  rw [if_pos (Disk.isDirectory_iff.mpr hdir), Disk.node_delete, Disk.node_deleteAll]
  by_cases hq : q = base ++ [Version.v2.portDir port]
  · subst hq
    simp only [true_and, Disk.listFiles_deleteAll]
    simp
  · simp [hq]

theorem node_doDeleteV2_of_not_dir {base : Path} {port : Int32} {s : Store} (id : ℕ)
    (hdir : s.disk.node (base ++ [Version.v2.portDir port]) ≠ some .dir) :
    (doDeleteV2 base id port s).disk = s.disk := by
  simp only [doDeleteV2, serviceDir_portDir]
  rw [if_neg (by simpa using hdir)]

/-- The v2 dialog clears the directory if and only if all that is in it are files and empty
directories. -/
theorem doDeleteV2_removes_iff {base : Path} {port : Int32} {s : Store} (id : ℕ)
    (hdir : s.disk.node (base ++ [Version.v2.portDir port]) = some .dir) :
    (∀ q, base ++ [Version.v2.portDir port] <+: q →
        (doDeleteV2 base id port s).disk.node q = none) ↔
      ∀ name ∈ s.disk.listFiles (base ++ [Version.v2.portDir port]),
        s.disk.listFiles (base ++ [Version.v2.portDir port] ++ [name]) = [] := by
  simp only [node_doDeleteV2 id hdir]
  constructor
  · intro h
    by_contra hfull
    have hgone := h _ List.prefix_rfl
    rw [if_neg (fun h ↦ hfull h.2), if_neg] at hgone
    · simp [hdir] at hgone
    · rintro ⟨⟨name, -, hname⟩, -⟩
      simpa using congrArg List.length hname
  · rintro h q ⟨rest, rfl⟩
    cases rest with
    | nil => rw [if_pos (by simpa using h)]
    | cons name below =>
      rw [if_neg (fun h ↦ by simpa using congrArg List.length h.1)]
      split
      · rfl
      · next hkept =>
        by_contra hexists
        have hchild : (s.disk.node (base ++ [Version.v2.portDir port] ++ [name])).isSome := by
          refine Option.isSome_iff_ne_none.mpr fun hnone ↦ hexists ?_
          exact Disk.node_eq_none_below (by simp) hnone
        have hmem := Disk.mem_listFiles.mpr hchild
        cases below with
        | nil => exact hkept ⟨⟨name, hmem, rfl⟩, h name hmem⟩
        | cons deeper below =>
          apply hexists
          have hnone := Disk.listFiles_eq_nil.mp (h name hmem) deeper
          exact Disk.node_eq_none_below (by simp) hnone

/-- The v2 dialog leaves the directory as it is if and only if there is something in it and all
that is in it are directories that are not empty. -/
theorem doDeleteV2_leaves_iff {base : Path} {port : Int32} {s : Store} (id : ℕ)
    (hdir : s.disk.node (base ++ [Version.v2.portDir port]) = some .dir) :
    (∀ q, base ++ [Version.v2.portDir port] <+: q →
        (doDeleteV2 base id port s).disk.node q = s.disk.node q) ↔
      s.disk.listFiles (base ++ [Version.v2.portDir port]) ≠ [] ∧
        ∀ name ∈ s.disk.listFiles (base ++ [Version.v2.portDir port]),
          s.disk.listFiles (base ++ [Version.v2.portDir port] ++ [name]) ≠ [] := by
  simp only [node_doDeleteV2 id hdir]
  constructor
  · intro h
    have hnonempty : ¬ ∀ name ∈ s.disk.listFiles (base ++ [Version.v2.portDir port]),
        s.disk.listFiles (base ++ [Version.v2.portDir port] ++ [name]) = [] := by
      intro hall
      have hself := h _ List.prefix_rfl
      rw [if_pos ⟨rfl, hall⟩, hdir] at hself
      simp at hself
    refine ⟨fun hnil ↦ hnonempty (by simp [hnil]), fun name hname hempty ↦ ?_⟩
    have hchild := h (base ++ [Version.v2.portDir port] ++ [name]) (List.prefix_append _ _)
    rw [if_neg (fun h ↦ by simpa using congrArg List.length h.1),
      if_pos ⟨⟨name, hname, rfl⟩, hempty⟩] at hchild
    rw [Disk.mem_listFiles, ← hchild] at hname
    simp at hname
  · rintro ⟨hnonempty, hfull⟩ q -
    obtain ⟨name, hname⟩ := List.exists_mem_of_ne_nil _ hnonempty
    rw [if_neg, if_neg]
    · rintro ⟨⟨other, hother, rfl⟩, hempty⟩
      exact hfull other hother hempty
    · rintro ⟨rfl, hall⟩
      exact hfull name hname (hall name hname)

section Directory

variable {v : Version} {base : Path} {port : Int32} {s : Store} (id : ℕ)

/-- Outside of the directory of the port nothing changes. -/
theorem node_doDelete_outside {q : Path} (hq : ¬ base ++ [v.portDir port] <+: q) :
    (doDelete v base id port s).disk.node q = s.disk.node q := by
  cases v with
  | v2 =>
    by_cases hdir : s.disk.node (base ++ [Version.v2.portDir port]) = some .dir
    · rw [doDelete, node_doDeleteV2 id hdir, if_neg, if_neg]
      · rintro ⟨⟨name, -, rfl⟩, -⟩
        exact hq (List.prefix_append _ _)
      · rintro ⟨rfl, -⟩
        exact hq List.prefix_rfl
    · rw [doDelete, node_doDeleteV2_of_not_dir id hdir]
  | v3 => rw [doDelete, node_doDeleteV3, if_neg hq]

theorem removesAll_iff :
    (∀ q, base ++ [v.portDir port] <+: q → (doDelete v base id port s).disk.node q = none) ↔
      RemovesAll v s.disk (base ++ [v.portDir port]) ∨
        s.disk.node (base ++ [v.portDir port]) = none := by
  cases v with
  | v2 =>
    simp only [doDelete, RemovesAll]
    by_cases hdir : s.disk.node (base ++ [Version.v2.portDir port]) = some .dir
    · simpa [hdir] using doDeleteV2_removes_iff id hdir
    · rw [node_doDeleteV2_of_not_dir id hdir]
      simp only [hdir, false_and, false_or]
      exact ⟨fun h ↦ h _ List.prefix_rfl, fun h q hq ↦ Disk.node_eq_none_below hq h⟩
  | v3 =>
    simp only [doDelete, RemovesAll, true_or, iff_true]
    intro q hq
    rw [node_doDeleteV3, if_pos hq]

theorem leavesAll_iff :
    (∀ q, base ++ [v.portDir port] <+: q →
        (doDelete v base id port s).disk.node q = s.disk.node q) ↔
      LeavesAll v s.disk (base ++ [v.portDir port]) := by
  cases v with
  | v2 =>
    simp only [doDelete, LeavesAll]
    by_cases hdir : s.disk.node (base ++ [Version.v2.portDir port]) = some .dir
    · simpa only [hdir, forall_const] using doDeleteV2_leaves_iff id hdir
    · rw [node_doDeleteV2_of_not_dir id hdir]
      simp [hdir]
  | v3 =>
    simp only [doDelete, LeavesAll, node_doDeleteV3]
    constructor
    · intro h
      have hself := h _ List.prefix_rfl
      rw [if_pos List.prefix_rfl] at hself
      exact hself.symm
    · intro h q hq
      rw [if_pos hq, Disk.node_eq_none_below hq h]

/-- A deletion that removes nothing from the directory of the port leaves the whole disk. -/
theorem node_doDelete_of_leavesAll (h : LeavesAll v s.disk (base ++ [v.portDir port]))
    (q : Path) : (doDelete v base id port s).disk.node q = s.disk.node q := by
  by_cases hq : base ++ [v.portDir port] <+: q
  · exact (leavesAll_iff id).mpr h q hq
  · exact node_doDelete_outside id hq

end Directory

/-! ## When deleting is exact -/

/-- The row uses the directory of its port and all of that directory goes, or nothing goes and the
row has no directory; and nothing goes from a directory that another row uses. -/
def DeleteMatches (v : Version) (base : Path) (s : Store) (row : Row) : Prop :=
  (usedName v row = some (v.portDir row.columns.port) ∧
      RemovesAll v s.disk (base ++ [v.portDir row.columns.port]) ∨
    LeavesAll v s.disk (base ++ [v.portDir row.columns.port]) ∧
      ∀ name ∈ usedName v row, s.disk.node (base ++ [name]) = none) ∧
  (LeavesAll v s.disk (base ++ [v.portDir row.columns.port]) ∨
    ∀ other ∈ s.table.rows, other ≠ row →
      usedName v other ≠ some (v.portDir row.columns.port))

theorem rows_doDelete {v : Version} {base : Path} {port : Int32} {s : Store} {row : Row}
    (hrow : row ∈ s.table.rows) :
    (doDelete v base row.id port s).table.rows = s.table.rows.filter (· ≠ row) := by
  rw [table_doDelete, Table.rows_delete]
  refine List.filter_congr fun other hother ↦ ?_
  by_cases hsame : other = row
  · simp [hsame, idIs]
  · have hid : other.id ≠ row.id := fun h ↦ hsame (Table.eq_of_id_eq hother hrow h)
    simp [hsame, hid, idIs]

/-- Two children of a directory have no path in common. -/
theorem not_prefix_of_ne {base : Path} {name other : String} (hne : name ≠ other) {q : Path}
    (hq : base ++ [name] <+: q) : ¬ base ++ [other] <+: q := by
  intro hother
  have hsame := (List.prefix_or_prefix_of_prefix hq hother).elim
    (fun h ↦ h.eq_of_length (by simp)) (fun h ↦ (h.eq_of_length (by simp)).symm)
  exact hne (by simpa using hsame)

section Exactness

variable {v : Version} {base : Path} {s : Store} {row : Row}

theorem inUsedDir_iff (hnamed : WellNamed v s.table) {other : Row}
    (hother : other ∈ s.table.rows) (q : Path) :
    InUsedDir v base other q ↔ ∃ name ∈ usedName v other, base ++ [name] <+: q := by
  unfold InUsedDir
  cases hname : usedName v other with
  | none => simp
  | some name => simp [(hnamed.usedName hother hname).serviceDir base]

/-- An exact deletion takes the whole directory of the port, or leaves it and there is none under
the stored name. -/
theorem DeletesExactly.directory (hnamed : WellNamed v s.table) (hrow : row ∈ s.table.rows)
    (h : DeletesExactly v base row s (doDelete v base row.id row.columns.port s)) :
    usedName v row = some (v.portDir row.columns.port) ∧
        RemovesAll v s.disk (base ++ [v.portDir row.columns.port]) ∨
      LeavesAll v s.disk (base ++ [v.portDir row.columns.port]) ∧
        ∀ name ∈ usedName v row, s.disk.node (base ++ [name]) = none := by
  cases hname : usedName v row with
  | none =>
    have hleaves := (leavesAll_iff row.id).mp fun q _ ↦ h.kept q (by
      simp [inUsedDir_iff hnamed hrow, hname])
    exact .inr ⟨hleaves, by simp⟩
  | some name =>
    have hremoved {q : Path} (hq : base ++ [name] <+: q) :=
      h.removed q ((inUsedDir_iff hnamed hrow q).mpr ⟨name, hname, hq⟩)
    by_cases hport : name = v.portDir row.columns.port
    · subst hport
      rcases (removesAll_iff row.id).mp fun q hq ↦ hremoved hq with hall | hnone
      · exact .inl ⟨rfl, hall⟩
      · have hleaves := (leavesAll_iff row.id).mp fun q hq ↦
          (hremoved hq).trans (Disk.node_eq_none_below hq hnone).symm
        exact .inr ⟨hleaves, by simpa using hnone⟩
    · have hleaves := (leavesAll_iff row.id).mp fun q hq ↦ h.kept q (by
        simp only [inUsedDir_iff hnamed hrow, hname, Option.mem_some_iff, exists_eq_left']
        exact not_prefix_of_ne (Ne.symm hport) hq)
      have hnone := hremoved List.prefix_rfl
      rw [node_doDelete_outside row.id (not_prefix_of_ne hport List.prefix_rfl)] at hnone
      exact .inr ⟨hleaves, by simpa using hnone⟩

/-- An exact deletion leaves the directory of the port when another row uses it. -/
theorem DeletesExactly.sharing (hnamed : WellNamed v s.table)
    (h : DeletesExactly v base row s (doDelete v base row.id row.columns.port s)) :
    LeavesAll v s.disk (base ++ [v.portDir row.columns.port]) ∨
      ∀ other ∈ s.table.rows, other ≠ row →
        usedName v other ≠ some (v.portDir row.columns.port) := by
  by_contra! hboth
  obtain ⟨hleaves, other, hother, hne, hname⟩ := hboth
  apply hleaves
  refine (leavesAll_iff row.id).mp fun q hq ↦ h.others other hother hne q ?_
  exact (inUsedDir_iff hnamed hother q).mpr ⟨_, hname, hq⟩

theorem DeleteMatches.deletesExactly (hnamed : WellNamed v s.table)
    (hrow : row ∈ s.table.rows) (h : DeleteMatches v base s row) :
    DeletesExactly v base row s (doDelete v base row.id row.columns.port s) := by
  obtain ⟨hdir, hothers⟩ := h
  refine ⟨rows_doDelete hrow, fun q hq ↦ ?_, fun q hq ↦ ?_, fun other hother hne q hq ↦ ?_⟩
  · obtain ⟨name, hname, hunder⟩ := (inUsedDir_iff hnamed hrow q).mp hq
    rcases hdir with ⟨hport, hall⟩ | ⟨hleaves, hnone⟩
    · obtain rfl : name = v.portDir row.columns.port :=
        Option.some_inj.mp (hname.symm.trans hport)
      exact (removesAll_iff row.id).mpr (.inl hall) q hunder
    · rw [node_doDelete_of_leavesAll row.id hleaves]
      exact Disk.node_eq_none_below hunder (hnone name hname)
  · rcases hdir with ⟨hport, -⟩ | ⟨hleaves, -⟩
    · refine node_doDelete_outside row.id fun hunder ↦ hq ?_
      exact (inUsedDir_iff hnamed hrow q).mpr ⟨_, hport, hunder⟩
    · exact node_doDelete_of_leavesAll row.id hleaves q
  · rcases hothers with hleaves | hfree
    · exact node_doDelete_of_leavesAll row.id hleaves q
    · obtain ⟨name, hname, hunder⟩ := (inUsedDir_iff hnamed hother q).mp hq
      refine node_doDelete_outside row.id (not_prefix_of_ne ?_ hunder)
      rintro rfl
      exact hfree other hother hne hname

end Exactness

/-- Deleting a service removes its row and exactly its directory if and only if the directory of
its local port is the one that it uses. -/
theorem doDelete_exact_iff (v : Version) (P : Platform) (filesDir : Path) (s : Services)
    (h : (system v P filesDir).Reachable s) (row : Row) (hrow : row ∈ s.store.table.rows) :
    DeletesExactly v (v.base filesDir) row s.store
        (doDelete v (v.base filesDir) row.id row.columns.port s.store) ↔
      DeleteMatches v (v.base filesDir) s.store row := by
  have hnamed := wellNamed_of_reachableBy h
  constructor
  · intro hexact
    exact ⟨hexact.directory hnamed hrow, hexact.sharing hnamed⟩
  · intro hmatches
    exact hmatches.deletesExactly hnamed hrow

/-- The restored service is the only one, in the directory of its port. -/
theorem restoredService_stored :
    (system .v3 flatPlatform appFiles).Admissible (fun _ _ ↦ True)
        (system .v3 flatPlatform appFiles).init restoredService ∧
      ((system .v3 flatPlatform appFiles).run (installed (Version.v3.base appFiles))
        restoredService).store.table.rows = [restoredRow] := by
  decide +kernel

theorem doDelete_exact_iff_restoredService :
    DeletesExactly .v3 (Version.v3.base appFiles) restoredRow
        ((system .v3 flatPlatform appFiles).run (installed (Version.v3.base appFiles))
          restoredService).store
        (doDelete .v3 (Version.v3.base appFiles) 1 9090
          ((system .v3 flatPlatform appFiles).run (installed (Version.v3.base appFiles))
            restoredService).store) := by
  obtain ⟨hrun, hrows⟩ := restoredService_stored
  have hreachable : (system .v3 flatPlatform appFiles).Reachable
      ((system .v3 flatPlatform appFiles).run (installed (Version.v3.base appFiles))
        restoredService) := ⟨restoredService, hrun, rfl⟩
  have hport : restoredRow.columns.port = 9090 := by decide +kernel
  have hname : usedName .v3 restoredRow = some (Version.v3.portDir restoredRow.columns.port) := by
    decide +kernel
  have hexact := (doDelete_exact_iff .v3 flatPlatform appFiles _ hreachable restoredRow
    (hrows ▸ List.mem_singleton_self restoredRow)).mpr ⟨.inl ⟨hname, trivial⟩,
      .inr fun other hother hne ↦ absurd (List.mem_singleton.mp (hrows ▸ hother)) hne⟩
  rw [hport] at hexact
  exact hexact

/-- The created service can be deleted, and its secret key stays. -/
theorem createdService_keyStays :
    (system .v3 flatPlatform appFiles).Admissible (fun _ _ ↦ True)
        (system .v3 flatPlatform appFiles).init createdService ∧
      createdRow ∈ ((system .v3 flatPlatform appFiles).run
        (installed (Version.v3.base appFiles)) createdService).store.table.rows ∧
      (doDelete .v3 (Version.v3.base appFiles) createdRow.id createdRow.columns.port
        ((system .v3 flatPlatform appFiles).run (installed (Version.v3.base appFiles))
          createdService).store).disk.node
            (Version.v3.base appFiles ++ [Version.v3.uuidDir firstUuid, secretKeyFile]) ≠
        none := by
  decide +kernel

/-- Deleting the service of `createdService` leaves its address and its keys on disk. -/
theorem doDelete_leaves_keys :
    ¬ ∀ (v : Version) (P : Platform) (filesDir : Path) (s : Services),
      (system v P filesDir).Reachable s → ∀ row ∈ s.store.table.rows,
        DeletesExactly v (v.base filesDir) row s.store
          (doDelete v (v.base filesDir) row.id row.columns.port s.store) := by
  intro h
  obtain ⟨hrun, hrow, hstays⟩ := createdService_keyStays
  have hexact := h .v3 flatPlatform appFiles _ ⟨createdService, hrun, rfl⟩ createdRow hrow
  have hgone := hexact.removed
    (Version.v3.base appFiles ++ [Version.v3.uuidDir firstUuid, secretKeyFile]) (by decide +kernel)
  exact hstays hgone

end Orbot.OnionService
