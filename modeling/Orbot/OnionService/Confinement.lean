import Orbot.OnionService.Extraction
import Orbot.OnionService.Services

/-!
# Where a restore changes files

A restore is meant to change one directory, named after the archive, and to rename it. The paths of
the entries are not checked, so an entry with `..` in its name reaches any file of the app. A
restore is confined when the archive's name leads to a child of the base directory and every entry
that is carried out leads into that child, or to a directory that is there already.
-/

namespace Orbot.OnionService

open Orbot.Foundation

/-- A change inside the extracted directory, or its renaming to `target`. -/
def InsideOutput (out : Path) (target : Option Path) : Change → Prop
  | .put path | .deleted path => out <+: path
  | .renamed source destination => source = out ∧ target = some destination

/-- Where a restore renames the extracted directory to: for v3, the directory of the port that
`config.json` names. -/
def renameTarget (v : Version) (P : Platform) (base : Path) (backupName : String)
    (archive : Option ZipStream) (d : Disk Bytes) : Option Path :=
  match v with
  | .v2 => none
  | .v3 => (restoredConfig .v3 P base backupName archive d).map fun config ↦
      base ++ [Version.v3.portDir config.1]

/-- A restore makes its changes in a child of the base directory. -/
def RestoreConfined (v : Version) (P : Platform) (base : Path) (backupName stem : String)
    (archive : Option ZipStream) (s : Store) : Prop :=
  (∃ child, Path.normalize base (components stem) = base ++ [child]) ∧
    Disk.Changed (InsideOutput (Path.normalize base (components stem))
        (renameTarget v P base backupName archive s.disk)) s.disk
      (v.restore P base backupName archive s).2.disk

/-! ## The condition -/

/-- The name of the archive leads to a child of the base directory, and the entries that are
carried out stay in it: a file is in the child, and a directory is there already, or is in the
child with nothing to create above. -/
def StaysInside (base : Path) (stem : String) (archive : Option ZipStream) (d : Disk Bytes) :
    Prop :=
  ∃ child, Path.normalize base (components stem) = base ++ [child] ∧
    ∀ put ∈ (extraction base (components stem) archive d).1, d.WritesInside base child put

/-! ## Taking over the configuration -/

theorem changed_cleanUp (base : Path) (dir names : List String) (target : Option Path)
    (d : Disk Bytes) :
    Disk.Changed (InsideOutput (Path.normalize base dir) target) d
      (cleanUp base dir names d) := by
  induction names generalizing d with
  | nil =>
    refine (d.changed_deleteAt base dir).mono ?_
    rintro _ rfl
    exact List.prefix_rfl
  | cons name rest ih =>
    refine Disk.Changed.trans ?_ (ih _)
    by_cases hname : Path.IsName name
    · refine (d.changed_deleteAt base (dir ++ [name])).mono ?_
      rintro _ rfl
      change Path.normalize base dir <+: _
      rw [Path.normalize_append, Path.normalize_cons, Path.enter_name hname]
      exact List.prefix_append _ _
    · have hrefused : ¬ Disk.EndsInName (dir ++ [name]) := fun h ↦ hname (h name (by simp))
      rw [Disk.deleteAt, if_neg hrefused]
      exact .refl _ d

/-- What follows the extraction stays inside the extracted directory, but for the renaming. -/
theorem changed_extractConfig (v : Version) {P : Platform} {base : Path}
    {backupName stem : String} (hname : nameBeforeDot backupName = some stem) {s : Store}
    (hensure : ensureDirectory base (components stem) s.disk = s.disk) {target : Option Path}
    (htarget : v = .v3 → ∀ port fields,
      readConfig .v3 P base (components stem) s.disk = some (port, fields) →
        target = some (base ++ [Version.v3.portDir port])) :
    Disk.Changed (InsideOutput (Path.normalize base (components stem)) target) s.disk
      (v.extractConfig P base backupName s).2.disk := by
  cases v with
  | v2 =>
    simp only [Version.extractConfig, extractConfigFromUnzippedBackupV2, hname, hensure]
    split <;> exact .refl _ _
  | v3 =>
    simp only [Version.extractConfig, extractConfigFromUnzippedBackupV3, hname, hensure]
    replace htarget := htarget rfl
    generalize components stem = dir at htarget ⊢
    split
    · exact .refl _ _
    · next port fields hread =>
      have hconfig : Disk.Changed (InsideOutput (Path.normalize base dir) target) s.disk
          (s.disk.deleteAt base (dir ++ [configFileName])) := by
        refine (s.disk.changed_deleteAt _ _).mono ?_
        rintro _ rfl
        change Path.normalize base dir <+: _
        rw [Path.normalize_append, Path.normalize_cons,
          Path.enter_name (by decide : Path.IsName configFileName)]
        exact List.prefix_append _ _
      refine hconfig.trans ?_
      generalize s.disk.deleteAt base (dir ++ [configFileName]) = deleted
      split
      · next renamed hrename =>
        refine (Disk.changed_renameAt hrename).mono ?_
        rintro _ rfl
        exact ⟨rfl, by rw [htarget port fields hread, serviceDir_portDir]⟩
      · split
        · exact changed_cleanUp base dir _ target deleted
        · exact .refl _ _

/-- The extraction and what follows it, when the archive is extracted to its end. -/
theorem changed_restore_unzipped (v : Version) {P : Platform} {base : Path}
    {backupName stem : String} (hname : nameBeforeDot backupName = some stem)
    {archive : Option ZipStream} {s : Store} {d : Disk Bytes}
    (hunzip : unzip base (components stem) archive s.disk = (d, .complete))
    (hlater : Disk.Later s.disk d) :
    Disk.Changed (InsideOutput (Path.normalize base (components stem))
        (renameTarget v P base backupName archive s.disk)) s.disk
        (v.restore P base backupName archive s).2.disk ↔
      Disk.Changed (InsideOutput (Path.normalize base (components stem))
        (renameTarget v P base backupName archive s.disk)) s.disk d := by
  have hensure := ensureDirectory_unzipped hunzip
  have hafter : Disk.Changed (InsideOutput (Path.normalize base (components stem))
      (renameTarget v P base backupName archive s.disk)) d
      (v.extractConfig P base backupName { s with disk := d }).2.disk := by
    refine changed_extractConfig v hname hensure ?_
    rintro rfl port fields hread
    have hconfig : restoredConfig .v3 P base backupName archive s.disk = some (port, fields) := by
      simp only [restoredConfig, hname, Option.bind_eq_bind, Option.bind_some, hunzip, hensure]
      exact hread
    rw [renameTarget, hconfig]
    rfl
  rw [restore_of_unzipped hname hunzip]
  exact ⟨fun h ↦ ((Disk.changed_trans_iff hlater hafter.later).mp h).1, fun h ↦ h.trans hafter⟩

/-- A restore is confined to a child of the base directory if and only if the name of the archive
and its entries lead there. -/
theorem restore_confined_iff (v : Version) (P : Platform) (base : Path)
    (backupName stem : String) (hname : nameBeforeDot backupName = some stem)
    (archive : Option ZipStream) (s : Store) :
    RestoreConfined v P base backupName stem archive s ↔
      StaysInside base stem archive s.disk := by
  unfold RestoreConfined StaysInside
  rw [← exists_and_right]
  refine exists_congr fun child ↦ and_congr_right fun hchild ↦ ?_
  obtain ⟨d, hunzip, hputs⟩ := unzip_eq base (components stem) archive s.disk
  have hallowed (q : Path) : InsideOutput (base ++ [child])
      (renameTarget v P base backupName archive s.disk) (.put q) ↔ base ++ [child] <+: q := Iff.rfl
  rw [← Disk.changed_putAll_iff hallowed hputs, hchild]
  rcases hends : (extraction base (components stem) archive s.disk).2 with _ | _ | _
  · rw [hends] at hunzip
    have hrestore := changed_restore_unzipped v (P := P) hname hunzip (Disk.later_putAll hputs)
    rwa [hchild] at hrestore
  · rw [hends] at hunzip
    rw [restore_of_unzipFails hname hunzip]
  · rw [hends] at hunzip
    rw [restore_of_unzipThrows hname hunzip]

/-! ## Archives -/

/-- The names of the entries. -/
def ZipStream.names : ZipStream → List String
  | .eof | .broken | .undecodable => []
  | .entry name _ rest => name :: rest.names
  | .brokenEntry name _ => [name]

section Names

variable {base : Path} {output : List String} {child : String} {d : Disk Bytes}
  {puts : List (Put Bytes)}

/-- Where the output directory is a child of a settled base, paths below it stay inside. -/
theorem writesInside_directoryPut (hchild : Path.normalize base output = base ++ [child])
    (hbase : d.Settled base) {below : List String} (hbelow : ".." ∉ below)
    (hputs : ∀ put ∈ puts, d.WritesInside base child put) :
    ∀ put ∈ directoryPut base (output ++ below) ++ puts, d.WritesInside base child put := by
  rw [List.forall_mem_append, and_iff_left hputs, directoryPut]
  split
  · simp
  · rw [List.forall_mem_singleton, Path.normalize_append, hchild]
    exact .inr ⟨Path.prefix_normalize hbelow _, hbase⟩

/-- Entries without `..` in their names stay inside. -/
theorem writesInside_of_names (hchild : Path.normalize base output = base ++ [child])
    (hbase : d.Settled base) {zis : ZipStream} (h : ∀ name ∈ zis.names, ".." ∉ components name)
    (hputs : ∀ put ∈ puts, d.WritesInside base child put) :
    ∀ put ∈ (entryPuts base output d zis puts).1, d.WritesInside base child put := by
  have hfile {name : String} {content : Bytes} (hname : ".." ∉ components name)
      {puts : List (Put Bytes)} (hputs : ∀ put ∈ puts, d.WritesInside base child put) :
      ∀ put ∈ .file (entryPath base output name) content :: puts,
        d.WritesInside base child put := by
    refine List.forall_mem_cons.mpr ⟨?_, hputs⟩
    change base ++ [child] <+: entryPath base output name
    rw [entryPath, Path.normalize_append, hchild]
    exact Path.prefix_normalize hname _
  induction zis generalizing puts with
  | eof => exact hputs
  | broken => exact hputs
  | undecodable => exact hputs
  | entry name content rest ih =>
    have hname := h name List.mem_cons_self
    have hrest : ∀ name ∈ rest.names, ".." ∉ components name := fun other hother ↦
      h other (List.mem_cons_of_mem _ hother)
    rw [entryPuts]
    split
    · exact ih hrest (writesInside_directoryPut hchild hbase hname hputs)
    · split
      · exact ih hrest (hfile hname hputs)
      · exact hputs
  | brokenEntry name blocks =>
    have hname := h name List.mem_cons_self
    rw [entryPuts]
    split
    · exact writesInside_directoryPut hchild hbase hname hputs
    · split
      · exact hfile hname hputs
      · exact hputs

/-- An archive with such names is confined to a child of the base directory. -/
theorem staysInside_of_names {stem : String}
    (hchild : Path.normalize base (components stem) = base ++ [child]) (hbase : d.Settled base)
    {zis : ZipStream} (h : ∀ name ∈ zis.names, ".." ∉ components name) :
    StaysInside base stem (some zis) d := by
  refine ⟨child, hchild, writesInside_of_names hchild hbase h ?_⟩
  have houtput := @writesInside_directoryPut base (components stem) child d [] hchild hbase []
    (by simp) (by simp)
  simpa using houtput

end Names

theorem restore_confined_iff_plainNames :
    RestoreConfined .v3 flatPlatform (Version.v3.base appFiles) "web.zip" "web"
      (some (.entry "hostname" [97] (.entry "config.json" [] .eof)))
      (installed (Version.v3.base appFiles)).store :=
  (restore_confined_iff .v3 flatPlatform _ "web.zip" "web" (by decide) _ _).mpr
    (@staysInside_of_names (Version.v3.base appFiles) "web" _ "web" (by decide)
      (.inl (by decide +kernel)) _ (by decide))

/-- An archive with an entry for the secret key of the service of `createdService`. -/
def escapingArchive : ZipStream :=
  .entry ("../" ++ Version.v3.uuidDir firstUuid ++ "/" ++ secretKeyFile) [9] .eof

/-- Restoring `escapingArchive` overwrites the secret key of another service. -/
theorem restore_overwrites_key :
    ¬ ∀ (v : Version) (P : Platform) (filesDir : Path) (s : Services),
      (system v P filesDir).Reachable s →
        ∀ backupName stem archive, nameBeforeDot backupName = some stem →
          RestoreConfined v P (v.base filesDir) backupName stem archive s.store := by
  intro h
  obtain ⟨-, changes, hjournal, hinside⟩ := h .v3 flatPlatform appFiles _
    ⟨createdService, by decide +kernel, rfl⟩ "web.zip" "web" (some escapingArchive) (by decide)
  have hchanges : ((Version.v3.restore flatPlatform (Version.v3.base appFiles) "web.zip"
      (some escapingArchive) ((system .v3 flatPlatform appFiles).run
        (installed (Version.v3.base appFiles)) createdService).store).2.disk.journal =
      [.put (Version.v3.base appFiles ++ [Version.v3.uuidDir firstUuid, secretKeyFile]),
        .put (Version.v3.base appFiles ++ ["web"])] ++
      ((system .v3 flatPlatform appFiles).run
        (installed (Version.v3.base appFiles)) createdService).store.disk.journal) := by
    decide +kernel
  obtain rfl := List.append_cancel_right (hchanges.symm.trans hjournal)
  have hkey := hinside _ List.mem_cons_self
  change Path.normalize (Version.v3.base appFiles) (components "web") <+: _ at hkey
  exact absurd hkey (by decide)

end Orbot.OnionService
