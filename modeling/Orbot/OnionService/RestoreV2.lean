import Orbot.OnionService.RoundTrip

/-!
# Restoring a v2 backup

Restoring a v2 backup extracts it to a directory named after the archive and leaves it there, where
a v3 restore renames it to the directory of the port. The torrc gives the restored row the directory
`hs<port>`, so the restored service has its keys only if the archive has that name.
-/

namespace Orbot.OnionService

open Orbot.Foundation

/-- The content of a file in the directory that the torrc uses for a row. -/
def directoryContent (v : Version) (base : Path) (d : Disk Bytes) (row : Row) (file : String) :
    Option Bytes :=
  (usedName v row).bind fun name ↦ d.content (serviceDir base name ++ [file])

/-- The store and the torrc after restoring an archive into an empty store and generating the
torrc. -/
def restoredIntoEmptyV2 (P : Platform) (base : Path) (stem : String) (randomUUID : ℕ → Uuid)
    (archive : ZipStream) : Services :=
  let s := (restoreZipBackupV2 P base (stem ++ ".zip") (some archive) (installed base).store).2
  let (table, services) := addV2HiddenServicesToTorrc base randomUUID s.table
  { store := { s with table := table }, torrc := services }

/-- The columns that a v2 backup is meant to keep. -/
structure SameServiceV2 (original copy : Columns) : Prop extends SameService original copy where
  authCookie : copy.authCookie = original.authCookie

/-- The files that a v2 backup is meant to keep. -/
def serviceFilesV2 : List String := [hostnameFile, privateKeyFile]

/-- The only row of a state is a copy of `row`, listed in the torrc when it is enabled, and its
directory holds the files of the row's own. -/
structure IsCopyOfV2 (base : Path) (d : Disk Bytes) (row : Row) (restored : Services)
    (copy : Row) : Prop where
  rows : restored.store.table.rows = [copy]
  same : SameServiceV2 row.columns copy.columns
  listed : ∀ name, usedName .v2 copy = some name →
    restored.torrc.map HiddenService.dir = if isEnabled copy then [serviceDir base name] else []
  files : ∀ file ∈ serviceFilesV2, ∃ content,
    directoryContent .v2 base d row file = some content ∧
      directoryContent .v2 base restored.store.disk copy file = some content

/-- Restoring the archive under the name `stem` gives a copy of the row. -/
def RestoresUnder (P : Platform) (base : Path) (randomUUID : ℕ → Uuid) (s : Store) (row : Row)
    (archive : ZipStream) (stem : String) : Prop :=
  ∃ copy, IsCopyOfV2 base s.disk row (restoredIntoEmptyV2 P base stem randomUUID archive) copy

/-! ## The archive -/

/-- The archive of a v2 backup. -/
def backupArchiveV2 (hostname privateKey config : Bytes) : ZipStream :=
  archiveOf [(hostnameFile, hostname), (privateKeyFile, privateKey), (configFileName, config)]

/-- A backup is saved when the port has one row, and its directory the files and room for
`config.json`. -/
theorem createV2ZipBackup_saved_iff {P : Platform} {base : Path} {port : Int32} {s : Store}
    {archive : ZipStream} :
    (createV2ZipBackup P base true port s).1 = .saved archive ↔
      ∃ row hostname privateKey, s.table.rows.filter (portIs port) = [row] ∧
        s.disk.node (base ++ [Version.v2.portDir port, configFileName]) ≠ some .dir ∧
        s.disk.content (base ++ [Version.v2.portDir port, hostnameFile]) = some hostname ∧
        s.disk.content (base ++ [Version.v2.portDir port, privateKeyFile]) = some privateKey ∧
        backupArchiveV2 hostname privateKey
          (P.encode (P.printObject (configV2 row.columns))) = archive := by
  have hnames : ∀ name ∈ [hostnameFile, privateKeyFile, configFileName], Path.IsName name := by
    decide
  refine (createFilesForZipping_saved_iff .v2 configV2 hnames).trans ?_
  simp only [List.mapM_cons, List.mapM_nil, archivedFile,
    (by decide : hostnameFile ≠ configFileName), (by decide : privateKeyFile ≠ configFileName),
    if_true, if_false, Option.bind_eq_bind, Option.bind_eq_some_iff, Option.map_eq_some_iff,
    Option.pure_def, Option.some_inj]
  constructor
  · rintro ⟨row, hrow, hconfig, _, ⟨_, ⟨hostname, hhostname, rfl⟩, _, ⟨_, ⟨privateKey, hkey, rfl⟩,
      _, ⟨_, rfl, _, rfl, rfl⟩, rfl⟩, rfl⟩, rfl⟩
    exact ⟨row, hostname, privateKey, hrow, hconfig, hhostname, hkey, rfl⟩
  · rintro ⟨row, hostname, privateKey, hrow, hconfig, hhostname, hkey, rfl⟩
    exact ⟨row, hrow, hconfig, _, ⟨_, ⟨hostname, hhostname, rfl⟩, _, ⟨_, ⟨privateKey, hkey, rfl⟩,
      _, ⟨_, rfl, _, rfl, rfl⟩, rfl⟩, rfl⟩, rfl⟩

/-- The fields that a v2 backup restores. -/
def savedFieldsOfV2 (columns : Columns) : ContentValues where
  name := some columns.name
  onionPort := some columns.onionPort
  domain := columns.domain
  authCookie := some columns.authCookie
  createdByUser := some columns.createdByUser
  enabled := some columns.enabled
  port := some columns.port

/-- Reading the saved columns back. -/
theorem savedFieldsV2_configV2 (P : Platform) {columns : Columns}
    (hdomain : columns.domain ≠ none) :
    savedFieldsV2 P (configV2 columns) = some (columns.port, savedFieldsOfV2 columns) := by
  obtain ⟨domain, hdomain⟩ := Option.ne_none_iff_exists'.mp hdomain
  cases hcookie : columns.authCookieValue <;>
    simp [configV2, putText, hdomain, hcookie, savedFieldsV2, savedFieldsOfV2, getString, getInt,
      jsonInt, List.lookup_cons]

/-! ## The restored state -/

/-- The row that the saved columns give in an empty table. -/
def importedRowV2 (columns : Columns) : Row where
  id := 1
  columns := (savedFieldsOfV2 columns).apply defaultColumns

theorem rows_insertOrUpdate_emptyV2 (columns : Columns) :
    (insertOrUpdate Table.empty columns.port (savedFieldsOfV2 columns)).rows =
      [importedRowV2 columns] := rfl

theorem importedRowV2_filepath {columns : Columns} :
    (importedRowV2 columns).columns.filepath = none := by
  simp [importedRowV2, ContentValues.apply, savedFieldsOfV2, defaultColumns]

theorem importedRowV2_domain {columns : Columns} :
    (importedRowV2 columns).columns.domain = columns.domain := by
  simp [importedRowV2, ContentValues.apply, savedFieldsOfV2, defaultColumns]

theorem sameServiceV2_importedRow {columns : Columns} (randomUUID : ℕ → Uuid) :
    SameServiceV2 columns (assignPath .v2 randomUUID (importedRowV2 columns)).columns := by
  obtain ⟨path, hassigned⟩ := assignPath_columns .v2 randomUUID (importedRowV2 columns)
  rw [hassigned]
  exact ⟨⟨rfl, rfl, rfl, importedRowV2_domain, rfl, rfl⟩, rfl⟩

/-- Restoring the archive of a row gives its columns, and the files of the archive in the directory
named after the archive; there is no other directory. -/
theorem restoreZipBackupV2_backupArchive {P : Platform} (base : Path) {stem : String}
    (hstem : IsPlainName stem) (columns : Columns) (hP : P.RoundTrips (configV2 columns))
    (hdomain : columns.domain ≠ none) (hostname privateKey : Bytes) :
    ∃ d', restoreZipBackupV2 P base (stem ++ ".zip")
        (some (backupArchiveV2 hostname privateKey
          (P.encode (P.printObject (configV2 columns))))) (installed base).store =
        (.restored, ⟨insertOrUpdate Table.empty columns.port (savedFieldsOfV2 columns), d'⟩) ∧
      d'.content (base ++ [stem, hostnameFile]) = some hostname ∧
      d'.content (base ++ [stem, privateKeyFile]) = some privateKey ∧
      ∀ name, name ≠ stem → d'.node (base ++ [name]) = none := by
  obtain ⟨hbase, hmissing⟩ := node_installed base
  have hplain : ∀ file ∈ [(hostnameFile, hostname), (privateKeyFile, privateKey),
      (configFileName, P.encode (P.printObject (configV2 columns)))], IsPlainName file.1 := by
    simp only [List.mem_cons, List.not_mem_nil, or_false, forall_eq_or_imp, forall_eq]
    decide
  have hnodup : [hostnameFile, privateKeyFile, configFileName].Nodup := by decide
  obtain ⟨extracted, hunzip, hdir, hwritten, hfree⟩ :=
    unzip_archiveOf hstem hplain hnodup hbase hmissing
  have hparse : P.parseObject (P.decode (P.encode (P.printObject (configV2 columns)))) =
      some (configV2 columns) := by
    rw [hP.decode_encode, hP.parse_print]
  obtain ⟨hensure, hread⟩ := readConfig_extracted (v := .v2) hstem hparse hdir
    (hwritten (configFileName, _) (by simp))
  have hsaved : readConfig .v2 P base [stem] extracted =
      some (columns.port, savedFieldsOfV2 columns) :=
    hread.trans (savedFieldsV2_configV2 P hdomain)
  refine ⟨extracted, ?_, ?_, ?_, hfree⟩
  · rw [restoreZipBackupV2, restoreZipBackup, nameBeforeDot_zip]
    simp only [hstem.components, backupArchiveV2, hunzip, extractConfigFromUnzippedBackupV2,
      nameBeforeDot_zip, hensure, hsaved]
    rfl
  · exact Disk.content_eq_some.mpr (hwritten (hostnameFile, hostname) (by simp))
  · exact Disk.content_eq_some.mpr (hwritten (privateKeyFile, privateKey) (by simp))

/-- After the restore and a generation the only row has the directory of the port, and a file of
that directory is the one of the archive exactly if the archive has the name of the directory. -/
theorem restoredIntoEmptyV2_backupArchive {P : Platform} {base : Path} {stem : String}
    (hstem : IsPlainName stem) (randomUUID : ℕ → Uuid) (columns : Columns)
    (hP : P.RoundTrips (configV2 columns)) (hdomain : columns.domain ≠ none)
    (hostname privateKey : Bytes) :
    let restored := restoredIntoEmptyV2 P base stem randomUUID
      (backupArchiveV2 hostname privateKey (P.encode (P.printObject (configV2 columns))))
    ∃ copy, restored.store.table.rows = [copy] ∧ SameServiceV2 columns copy.columns ∧
      usedName .v2 copy = some (Version.v2.portDir columns.port) ∧
      restored.torrc.map HiddenService.dir =
        (if isEnabled copy then [base ++ [Version.v2.portDir columns.port]] else []) ∧
      ∀ file ∈ [(hostnameFile, hostname), (privateKeyFile, privateKey)],
        directoryContent .v2 base restored.store.disk copy file.1 =
          if stem = Version.v2.portDir columns.port then some file.2 else none := by
  obtain ⟨d', hrestore, hhostname, hkey, hfree⟩ :=
    restoreZipBackupV2_backupArchive base hstem columns hP hdomain hostname privateKey
  have hrow := rows_insertOrUpdate_emptyV2 columns
  have haddress : (importedRowV2 columns).columns.domain ≠ none :=
    importedRowV2_domain.trans_ne hdomain
  have hused := usedName_addressed (v := .v2) randomUUID importedRowV2_filepath haddress
  simp only [restoredIntoEmptyV2, hrestore]
  refine ⟨assignPath .v2 randomUUID (importedRowV2 columns), ?_,
    sameServiceV2_importedRow randomUUID, hused,
    torrc_addressed randomUUID importedRowV2_filepath haddress base hrow, fun file hfile ↦ ?_⟩
  · rw [addV2HiddenServicesToTorrc, rows_addServicesToTorrc, hrow, List.map_singleton]
  · rw [directoryContent, hused, Option.bind_some, serviceDir_portDir, List.append_assoc]
    change d'.content (base ++ [Version.v2.portDir columns.port, file.1]) = _
    by_cases hsame : stem = Version.v2.portDir columns.port
    · rw [if_pos hsame, ← hsame]
      rcases List.mem_cons.mp hfile with rfl | hlast
      · exact hhostname
      · rw [List.mem_singleton.mp hlast]
        exact hkey
    · rw [if_neg hsame, Disk.content]
      have hbelow : base ++ [Version.v2.portDir columns.port] <+:
          base ++ [Version.v2.portDir columns.port, file.1] := by simp
      rw [Disk.node_eq_none_below hbelow (hfree _ (Ne.symm hsame))]

/-- The archive of a v2 service is restored under a name if and only if it is the name of the
directory of the port. -/
theorem v2_restores_under_iff (P : Platform) (base : Path) (s : Store) (row : Row)
    (hrow : row ∈ s.table.rows) (hdomain : row.columns.domain ≠ none)
    (hdir : usedName .v2 row = some (Version.v2.portDir row.columns.port)) (archive : ZipStream)
    (hsaved : (createV2ZipBackup P base true row.columns.port s).1 = .saved archive)
    (hP : P.RoundTrips (configV2 row.columns)) (stem : String) (hstem : IsPlainName stem)
    (randomUUID : ℕ → Uuid) :
    RestoresUnder P base randomUUID s row archive stem ↔
      stem = Version.v2.portDir row.columns.port := by
  have hselected : row ∈ s.table.rows.filter (portIs row.columns.port) :=
    List.mem_filter.mpr ⟨hrow, by simp [portIs]⟩
  obtain ⟨row', hostname, privateKey, honly, -, hhostname, hkey, rfl⟩ :=
    createV2ZipBackup_saved_iff.mp hsaved
  obtain rfl : row = row' := by
    rw [honly] at hselected
    exact List.mem_singleton.mp hselected
  obtain ⟨copy, hrows, hsame, hused, hlisted, hcontents⟩ := restoredIntoEmptyV2_backupArchive
    hstem randomUUID row.columns hP hdomain hostname privateKey
  have hown (file : String) : directoryContent .v2 base s.disk row file =
      s.disk.content (base ++ [Version.v2.portDir row.columns.port, file]) := by
    rw [directoryContent, hdir, Option.bind_some, serviceDir_portDir, List.append_assoc]
    rfl
  constructor
  · rintro ⟨other, hcopy⟩
    obtain rfl := List.singleton_inj.mp (hcopy.rows.symm.trans hrows)
    obtain ⟨content, -, hcontent⟩ := hcopy.files hostnameFile (by decide)
    by_contra hother
    rw [hcontents (hostnameFile, hostname) (by simp), if_neg hother] at hcontent
    simp at hcontent
  · intro hname
    refine ⟨copy, hrows, hsame, fun name hcopy ↦ ?_, fun file hfile ↦ ?_⟩
    · obtain rfl := Option.some_inj.mp (hused.symm.trans hcopy)
      rw [serviceDir_portDir]
      exact hlisted
    · simp only [serviceFilesV2, List.mem_cons, List.not_mem_nil, or_false] at hfile
      rcases hfile with rfl | rfl
      · refine ⟨hostname, (hown _).trans hhostname, ?_⟩
        rw [hcontents (hostnameFile, hostname) (by simp), if_pos hname]
      · refine ⟨privateKey, (hown _).trans hkey, ?_⟩
        rw [hcontents (privateKeyFile, privateKey) (by simp), if_pos hname]

/-! ## A service on port 8080 -/

/-- A v2 service that was restored under the name of its directory and listed. -/
def restoredServiceV2 : List Action :=
  [.restore "hs8080.zip" (some (.entry hostnameFile (flatPlatform.encode "a.onion")
      (.entry privateKeyFile [1] (.entry configFileName (backupConfig 8080 "a.onion") .eof)))),
    .generateTorrc drawByRow]

def restoredServicesV2 : Services :=
  (system .v2 flatPlatform appFiles).run (installed (Version.v2.base appFiles)) restoredServiceV2

def restoredRowV2 : Row where
  id := 1
  columns :=
    { defaultColumns with
      name := "w"
      domain := some "a.onion"
      onionPort := 80
      createdByUser := 1
      port := 8080
      filepath := some "hs8080" }

/-- The backup of the service. -/
def savedArchiveV2 : ZipStream :=
  backupArchiveV2 (flatPlatform.encode "a.onion") [1]
    (flatPlatform.encode (flatPlatform.printObject (configV2 restoredRowV2.columns)))

/-- The run ends with the row, and its backup is saved. -/
theorem restoredRowV2_stored :
    (system .v2 flatPlatform appFiles).Admissible (fun _ _ ↦ True)
        (system .v2 flatPlatform appFiles).init restoredServiceV2 ∧
      restoredRowV2 ∈ restoredServicesV2.store.table.rows ∧
      (createV2ZipBackup flatPlatform (Version.v2.base appFiles) true restoredRowV2.columns.port
        restoredServicesV2.store).1 = .saved savedArchiveV2 := by
  decide +kernel

theorem roundTrips_restoredRowV2 :
    flatPlatform.RoundTrips (configV2 restoredRowV2.columns) :=
  ⟨by decide +kernel, by decide +kernel, readInteger_decimal⟩

theorem v2_restores_under_own_name :
    RestoresUnder flatPlatform (Version.v2.base appFiles) drawByRow restoredServicesV2.store
      restoredRowV2 savedArchiveV2 "hs8080" := by
  obtain ⟨-, hrow, hsaved⟩ := restoredRowV2_stored
  exact (v2_restores_under_iff flatPlatform _ restoredServicesV2.store restoredRowV2 hrow
    (by decide) (by decide) savedArchiveV2 hsaved roundTrips_restoredRowV2 "hs8080" (by decide)
    drawByRow).mpr (by decide)

/-- Under the name `copy.zip` the restored service finds no keys in its directory. -/
theorem v2_restore_loses_keys :
    ¬ ∀ (P : Platform) (filesDir : Path) (s : Services), (system .v2 P filesDir).Reachable s →
      ∀ row ∈ s.store.table.rows, row.columns.domain ≠ none →
        usedName .v2 row = some (Version.v2.portDir row.columns.port) → ∀ archive,
        (createV2ZipBackup P (Version.v2.base filesDir) true row.columns.port s.store).1 =
          .saved archive →
        P.RoundTrips (configV2 row.columns) → ∀ stem, IsPlainName stem → ∀ randomUUID,
          RestoresUnder P (Version.v2.base filesDir) randomUUID s.store row archive stem := by
  intro h
  obtain ⟨hrun, hrow, hsaved⟩ := restoredRowV2_stored
  obtain ⟨copy, hcopy⟩ := h flatPlatform appFiles restoredServicesV2 ⟨restoredServiceV2, hrun, rfl⟩
    restoredRowV2 hrow (by decide) (by decide) savedArchiveV2 hsaved roundTrips_restoredRowV2 "copy"
    (by decide) drawByRow
  have hmissing : ∀ row ∈ (restoredIntoEmptyV2 flatPlatform (Version.v2.base appFiles) "copy"
      drawByRow savedArchiveV2).store.table.rows,
      directoryContent .v2 (Version.v2.base appFiles)
        (restoredIntoEmptyV2 flatPlatform (Version.v2.base appFiles) "copy" drawByRow
          savedArchiveV2).store.disk row hostnameFile = none := by
    decide +kernel
  obtain ⟨content, -, hcontent⟩ := hcopy.files hostnameFile (by decide)
  rw [hmissing copy (by simp [hcopy.rows])] at hcontent
  simp at hcontent

end Orbot.OnionService
