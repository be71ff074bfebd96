import Orbot.OnionService.Archives

/-!
# Backup and restore of a v3 service

A backup is made from the directory named after the local port of the service and from the only row
with that port. Restoring it into an empty store gives a row with the saved columns, and the files
of the archive under the directory of the port. So the round trip is the identity when the port
has one row and its directory holds the files that the torrc uses for the row.
-/

namespace Orbot.OnionService

open Orbot.Foundation

/-- The files of a v3 service beside its `config.json`. -/
def serviceFiles : List String := [hostnameFile, secretKeyFile, publicKeyFile]

/-! ## Restoring into an empty store -/

/-- The archive of a v3 backup. -/
def backupArchive (hostname config secretKey publicKey : Bytes) : ZipStream :=
  archiveOf [(hostnameFile, hostname), (configFileName, config), (secretKeyFile, secretKey),
    (publicKeyFile, publicKey)]

/-- A directory moves to a missing sibling, or stays where it is. -/
theorem renameTo_sibling {d : Disk Bytes} {base : Path} {name target : String}
    (hdir : d.node (base ++ [name]) = some .dir)
    (hfree : target ≠ name → d.node (base ++ [target]) = none) :
    ∃ d', d.renameTo (base ++ [name]) (base ++ [target]) = some d' ∧
      ∀ file, d'.node (base ++ [target, file]) = d.node (base ++ [name, file]) := by
  by_cases hsame : target = name
  · subst hsame
    exact ⟨d, by rw [Disk.renameTo, if_pos ⟨hdir, rfl⟩], fun _ ↦ rfl⟩
  · have hexists : (d.node (base ++ [name])).isSome := by simp [hdir]
    have hmovable : d.Movable (base ++ [name]) (base ++ [target]) := by
      refine ⟨hdir, fun hunder ↦ hsame ?_, by simp, ?_, .inl (hfree hsame)⟩
      · simpa using (hunder.eq_of_length (by simp)).symm
      · rw [List.dropLast_concat]
        exact Disk.node_parent hexists
    refine ⟨d.move _ _ hmovable, ?_, fun file ↦ ?_⟩
    · rw [Disk.renameTo, if_neg (fun h ↦ hsame (by simpa using h.2.symm)), dif_pos hmovable]
    · rw [Disk.node_move, if_pos (by simp)]
      simp

/-- Taking over the files of a backup: its `config.json` is deleted, the others move. -/
theorem extractConfig_extracted {P : Platform} {base : Path} {stem : String}
    (hstem : IsPlainName stem) {config : Bytes} {savedValues : JsonObject} {port : Int32}
    {fields : ContentValues} (hparse : P.parseObject (P.decode config) = some savedValues)
    (hfields : savedFieldsV3 P savedValues = some (port, fields)) {s : Store}
    (hdir : s.disk.node (base ++ [stem]) = some .dir)
    (hconfig : s.disk.node (base ++ [stem, configFileName]) = some (.file config))
    (hfree : ∀ name, name ≠ stem → s.disk.node (base ++ [name]) = none) :
    ∃ d', extractConfigFromUnzippedBackupV3 P base (stem ++ ".zip") s =
        (.restored, ⟨insertOrUpdate s.table port fields, d'⟩) ∧
      ∀ file, file ≠ configFileName →
        d'.node (base ++ [Version.v3.portDir port, file]) = s.disk.node (base ++ [stem, file]) := by
  have hnames : ∀ component ∈ [stem, configFileName], Path.IsName component := by
    intro component hcomponent
    rcases List.mem_cons.mp hcomponent with rfl | h
    · exact hstem.isName
    · rw [List.mem_singleton.mp h]
      decide
  have hconfigExists : (s.disk.node (base ++ [stem, configFileName])).isSome := by simp [hconfig]
  obtain ⟨hensure, hread⟩ := readConfig_extracted (v := .v3) hstem hparse hdir hconfig
  have hsaved : readConfig .v3 P base [stem] s.disk = some (port, fields) := hread.trans hfields
  -- the disk after `config.json` is deleted
  have hdeleteAt := Disk.deleteAt_names hnames hconfigExists
  have hdelete (q : Path) : (s.disk.delete (base ++ [stem, configFileName])).node q =
      if q = base ++ [stem, configFileName] then none else s.disk.node q :=
    Disk.node_delete_file (by simp [hconfig]) q
  generalize s.disk.delete (base ++ [stem, configFileName]) = deleted at hdeleteAt hdelete
  have hdeletedDir : deleted.node (base ++ [stem]) = some .dir := by
    rw [hdelete, if_neg (by simp)]
    exact hdir
  have hdeletedExists : (deleted.node (base ++ [stem])).isSome := by simp [hdeletedDir]
  have htarget (hne : Version.v3.portDir port ≠ stem) :
      deleted.node (base ++ [Version.v3.portDir port]) = none := by
    rw [hdelete, if_neg (by simp)]
    exact hfree _ hne
  obtain ⟨d', hrename, hmoved⟩ := renameTo_sibling hdeletedDir htarget
  have hrenameAt : deleted.renameAt base [stem] (base ++ [Version.v3.portDir port]) = some d' :=
    (Disk.renameAt_names (by simpa using hstem.isName) hdeletedExists _).trans hrename
  refine ⟨d', ?_, fun file hfile ↦ ?_⟩
  · simp only [extractConfigFromUnzippedBackupV3, nameBeforeDot_zip, hstem.components, hensure,
      hsaved, List.cons_append, List.nil_append, hdeleteAt, serviceDir_portDir, hrenameAt]
  · rw [hmoved, hdelete, if_neg (by simpa using hfile)]

/-! ## Writing the backup -/

/-- A backup is saved when the port has one row, and its directory the files and room for
`config.json`. -/
theorem createV3ZipBackup_saved_iff {P : Platform} {base : Path} {port : Int32} {s : Store}
    {archive : ZipStream} :
    (createV3ZipBackup P base true port s).1 = .saved archive ↔
      ∃ row hostname secretKey publicKey, s.table.rows.filter (portIs port) = [row] ∧
        s.disk.node (base ++ [Version.v3.portDir port, configFileName]) ≠ some .dir ∧
        s.disk.content (base ++ [Version.v3.portDir port, hostnameFile]) = some hostname ∧
        s.disk.content (base ++ [Version.v3.portDir port, secretKeyFile]) = some secretKey ∧
        s.disk.content (base ++ [Version.v3.portDir port, publicKeyFile]) = some publicKey ∧
        backupArchive hostname (P.encode (P.printObject (configV3 row.columns)))
          secretKey publicKey = archive := by
  have hnames : ∀ name ∈ [hostnameFile, configFileName, secretKeyFile, publicKeyFile],
      Path.IsName name := by decide
  refine (createFilesForZipping_saved_iff .v3 configV3 hnames).trans ?_
  simp only [List.mapM_cons, List.mapM_nil, archivedFile,
    (by decide : hostnameFile ≠ configFileName), (by decide : secretKeyFile ≠ configFileName),
    (by decide : publicKeyFile ≠ configFileName), if_true, if_false, Option.bind_eq_bind,
    Option.bind_eq_some_iff, Option.map_eq_some_iff, Option.pure_def, Option.some_inj]
  constructor
  · rintro ⟨row, hrow, hconfig, _, ⟨_, ⟨hostname, hhostname, rfl⟩, _, ⟨_, rfl, _,
      ⟨_, ⟨secretKey, hsecret, rfl⟩, _, ⟨_, ⟨publicKey, hpublic, rfl⟩, _, rfl, rfl⟩, rfl⟩, rfl⟩,
      rfl⟩, rfl⟩
    exact ⟨row, hostname, secretKey, publicKey, hrow, hconfig, hhostname, hsecret, hpublic, rfl⟩
  · rintro ⟨row, hostname, secretKey, publicKey, hrow, hconfig, hhostname, hsecret, hpublic, rfl⟩
    exact ⟨row, hrow, hconfig, _, ⟨_, ⟨hostname, hhostname, rfl⟩, _, ⟨_, rfl, _,
      ⟨_, ⟨secretKey, hsecret, rfl⟩, _, ⟨_, ⟨publicKey, hpublic, rfl⟩, _, rfl, rfl⟩, rfl⟩, rfl⟩,
      rfl⟩, rfl⟩

/-! ## The round trip -/

/-- The store and the torrc after restoring an archive into an empty store and generating the
torrc. -/
def restoredIntoEmpty (P : Platform) (base : Path) (stem : String) (randomUUID : ℕ → Uuid)
    (archive : ZipStream) : Services :=
  let s := (restoreZipBackupV3 P base (stem ++ ".zip") (some archive) (installed base).store).2
  let (table, services) := addV3OnionServicesToTorrc base randomUUID s.table
  { store := { s with table := table }, torrc := services }

/-- The columns that a backup is meant to keep. -/
structure SameService (original copy : Columns) : Prop where
  name : copy.name = original.name
  port : copy.port = original.port
  onionPort : copy.onionPort = original.onionPort
  domain : copy.domain = original.domain
  createdByUser : copy.createdByUser = original.createdByUser
  enabled : copy.enabled = original.enabled

/-- The contents of a row's hostname and key files, in the directory that the torrc uses. -/
def ownContent (base : Path) (d : Disk Bytes) (row : Row) (file : String) : Option Bytes :=
  (usedName .v3 row).bind fun name ↦ d.content (serviceDir base name ++ [file])

/-- The only row of a state is a copy of `row`, listed in the torrc when it is enabled, and its
directory holds the same files. -/
structure IsCopyOf (base : Path) (d : Disk Bytes) (row : Row) (restored : Services)
    (copy : Row) : Prop where
  rows : restored.store.table.rows = [copy]
  same : SameService row.columns copy.columns
  listed : ∀ name, usedName .v3 copy = some name →
    restored.torrc.map HiddenService.dir = if isEnabled copy then [serviceDir base name] else []
  files : ∀ file ∈ serviceFiles, ∃ content, ownContent base d row file = some content ∧
    ownContent base restored.store.disk copy file = some content

/-- The backup of a row is written, and restoring it into an empty store gives a copy. -/
def BackupRoundTrips (P : Platform) (base : Path) (stem : String) (randomUUID : ℕ → Uuid)
    (s : Store) (row : Row) : Prop :=
  ∃ archive, (createV3ZipBackup P base true row.columns.port s).1 = .saved archive ∧
    ∃ copy, IsCopyOf base s.disk row (restoredIntoEmpty P base stem randomUUID archive) copy

/-- The row is the only one of its port, the directory of the port holds the files that the row
uses, and `config.json` is not a directory there. -/
structure BackupMatches (base : Path) (s : Store) (row : Row) : Prop where
  onlyRow : s.table.rows.filter (portIs row.columns.port) = [row]
  files : ∀ file ∈ serviceFiles,
    s.disk.content (base ++ [Version.v3.portDir row.columns.port, file]) =
      ownContent base s.disk row file
  config : s.disk.node (base ++ [Version.v3.portDir row.columns.port, configFileName]) ≠
    some .dir

/-- The fields that a v3 backup restores. -/
def savedFields (columns : Columns) : ContentValues where
  port := some columns.port
  name := some columns.name
  onionPort := some columns.onionPort
  domain := columns.domain
  createdByUser := some columns.createdByUser
  enabled := some columns.enabled

/-- Reading the saved columns back, when numbers are read back. -/
theorem savedFieldsV3_configV3 {P : Platform} {columns : Columns}
    (hdecimal : ∀ n : Int32, P.parseInteger (decimal n) = some n)
    (hdomain : columns.domain ≠ none) :
    savedFieldsV3 P (configV3 columns) = some (columns.port, savedFields columns) := by
  obtain ⟨domain, hdomain⟩ := Option.ne_none_iff_exists'.mp hdomain
  have hint (name : String) (n : Int32) (object : JsonObject)
      (h : object.lookup name = some (.string (decimal n))) : getInt P object name = some n := by
    rw [getInt, h]
    exact hdecimal n
  have htext (name text : String) (object : JsonObject)
      (h : object.lookup name = some (.string text)) : getString object name = some text := by
    rw [getString, h]
  have hobject : configV3 columns =
      [("name", .string columns.name), ("port", .string (decimal columns.port)),
        ("onion_port", .string (decimal columns.onionPort)), ("domain", .string domain),
        ("created_by_user", .string (decimal columns.createdByUser)),
        ("enabled", .string (decimal columns.enabled))] := by
    simp [configV3, putText, hdomain]
  rw [hobject, savedFieldsV3, hint "port" columns.port _ rfl, htext "name" columns.name _ rfl,
    hint "onion_port" columns.onionPort _ rfl, htext "domain" domain _ rfl,
    hint "created_by_user" columns.createdByUser _ rfl, hint "enabled" columns.enabled _ rfl]
  simp [savedFields, hdomain]

/-! ## The row that a backup gives -/

/-- The row that the saved columns give in an empty table. -/
def importedRow (columns : Columns) : Row where
  id := 1
  columns := (savedFields columns).apply defaultColumns

theorem rows_insertOrUpdate_empty (columns : Columns) :
    (insertOrUpdate Table.empty columns.port (savedFields columns)).rows =
      [importedRow columns] := rfl

section ImportedRow

variable {columns : Columns}

theorem importedRow_filepath : (importedRow columns).columns.filepath = none := by
  simp [importedRow, ContentValues.apply, savedFields, defaultColumns]

theorem importedRow_domain : (importedRow columns).columns.domain = columns.domain := by
  simp [importedRow, ContentValues.apply, savedFields, defaultColumns]

theorem sameService_importedRow (randomUUID : ℕ → Uuid) :
    SameService columns (assignPath .v3 randomUUID (importedRow columns)).columns := by
  obtain ⟨path, hassigned⟩ := assignPath_columns .v3 randomUUID (importedRow columns)
  rw [hassigned]
  exact ⟨rfl, rfl, rfl, importedRow_domain, rfl, rfl⟩

end ImportedRow

/-- Restoring the archive of a row into an empty store gives its columns and its files, under the
directory of the port. -/
theorem restoreZipBackupV3_backupArchive {P : Platform} (base : Path) {stem : String}
    (hstem : IsPlainName stem) (columns : Columns) (hP : P.RoundTrips (configV3 columns))
    (hdomain : columns.domain ≠ none) (hostname secretKey publicKey : Bytes) :
    ∃ d', restoreZipBackupV3 P base (stem ++ ".zip")
        (some (backupArchive hostname (P.encode (P.printObject (configV3 columns))) secretKey
          publicKey)) (installed base).store =
        (.restored, ⟨insertOrUpdate Table.empty columns.port (savedFields columns), d'⟩) ∧
      ∀ file ∈ [(hostnameFile, hostname), (secretKeyFile, secretKey), (publicKeyFile, publicKey)],
        d'.content (base ++ [Version.v3.portDir columns.port, file.1]) = some file.2 := by
  obtain ⟨hbase, hmissing⟩ := node_installed base
  have hplain : ∀ file ∈ [(hostnameFile, hostname),
      (configFileName, P.encode (P.printObject (configV3 columns))), (secretKeyFile, secretKey),
      (publicKeyFile, publicKey)], IsPlainName file.1 := by
    simp only [List.mem_cons, List.not_mem_nil, or_false, forall_eq_or_imp, forall_eq]
    decide
  have hnodup : [hostnameFile, configFileName, secretKeyFile, publicKeyFile].Nodup := by decide
  obtain ⟨extracted, hunzip, hdir, hwritten, hfree⟩ :=
    unzip_archiveOf hstem hplain hnodup hbase hmissing
  have hparse : P.parseObject (P.decode (P.encode (P.printObject (configV3 columns)))) =
      some (configV3 columns) := by
    rw [hP.decode_encode, hP.parse_print]
  have hfields := savedFieldsV3_configV3 hP.parse_decimal hdomain
  obtain ⟨d', hextract, hmoved⟩ := extractConfig_extracted (s := ⟨Table.empty, extracted⟩) hstem
    hparse hfields hdir (hwritten (configFileName, _) (by simp)) hfree
  refine ⟨d', ?_, fun file hfile ↦ ?_⟩
  · rw [restoreZipBackupV3, restoreZipBackup, nameBeforeDot_zip]
    simp only [hstem.components, backupArchive, hunzip]
    exact hextract
  · have hname : file.1 ≠ configFileName ∧
        file ∈ [(hostnameFile, hostname),
          (configFileName, P.encode (P.printObject (configV3 columns))),
          (secretKeyFile, secretKey), (publicKeyFile, publicKey)] := by
      simp only [List.mem_cons, List.not_mem_nil, or_false] at hfile
      rcases hfile with rfl | rfl | rfl
      · exact ⟨(by decide : hostnameFile ≠ configFileName), by simp⟩
      · exact ⟨(by decide : secretKeyFile ≠ configFileName), by simp⟩
      · exact ⟨(by decide : publicKeyFile ≠ configFileName), by simp⟩
    rw [Disk.content_eq_some, hmoved _ hname.1]
    exact hwritten file hname.2

/-- Restoring the archive of a row gives a copy of it with the files of the archive. -/
theorem restoredIntoEmpty_backupArchive {P : Platform} {base : Path} {stem : String}
    (hstem : IsPlainName stem) (randomUUID : ℕ → Uuid) (columns : Columns)
    (hP : P.RoundTrips (configV3 columns)) (hdomain : columns.domain ≠ none)
    (hostname secretKey publicKey : Bytes) :
    let restored := restoredIntoEmpty P base stem randomUUID
      (backupArchive hostname (P.encode (P.printObject (configV3 columns))) secretKey publicKey)
    ∃ copy, restored.store.table.rows = [copy] ∧ SameService columns copy.columns ∧
      usedName .v3 copy = some (Version.v3.portDir columns.port) ∧
      restored.torrc.map HiddenService.dir =
        (if isEnabled copy then [base ++ [Version.v3.portDir columns.port]] else []) ∧
      ∀ file ∈ [(hostnameFile, hostname), (secretKeyFile, secretKey), (publicKeyFile, publicKey)],
        ownContent base restored.store.disk copy file.1 = some file.2 := by
  obtain ⟨d', hrestore, hcontents⟩ := restoreZipBackupV3_backupArchive base hstem
    columns hP hdomain hostname secretKey publicKey
  have hrow := rows_insertOrUpdate_empty columns
  have haddress : (importedRow columns).columns.domain ≠ none :=
    importedRow_domain.trans_ne hdomain
  have hused := usedName_addressed (v := .v3) randomUUID importedRow_filepath haddress
  simp only [restoredIntoEmpty, hrestore]
  refine ⟨assignPath .v3 randomUUID (importedRow columns), ?_, sameService_importedRow randomUUID,
    hused, torrc_addressed randomUUID importedRow_filepath haddress base hrow,
    fun file hfile ↦ ?_⟩
  · rw [addV3OnionServicesToTorrc, rows_addServicesToTorrc, hrow, List.map_singleton]
  · rw [ownContent, hused, Option.bind_some, serviceDir_portDir, List.append_assoc]
    exact hcontents file hfile

/-- Backup and restore is the identity on a v3 service if and only if the directory named after
its port is its directory and belongs to no other row. -/
theorem backup_roundTrips_iff (P : Platform) (base : Path) (s : Store) (row : Row)
    (hrow : row ∈ s.table.rows) (hdomain : row.columns.domain ≠ none)
    (hfiles : ∀ file ∈ serviceFiles, (ownContent base s.disk row file).isSome)
    (hP : P.RoundTrips (configV3 row.columns)) (stem : String) (hstem : IsPlainName stem)
    (randomUUID : ℕ → Uuid) :
    BackupRoundTrips P base stem randomUUID s row ↔ BackupMatches base s row := by
  have hselected : row ∈ s.table.rows.filter (portIs row.columns.port) :=
    List.mem_filter.mpr ⟨hrow, by simp [portIs]⟩
  constructor
  · rintro ⟨archive, hsaved, copy, hcopy⟩
    obtain ⟨row', hostname, secretKey, publicKey, honly, hconfig, hhostname, hsecret, hpublic,
      rfl⟩ := createV3ZipBackup_saved_iff.mp hsaved
    obtain rfl : row = row' := by
      rw [honly] at hselected
      exact List.mem_singleton.mp hselected
    obtain ⟨copy', hrows, -, -, -, hcontents⟩ := restoredIntoEmpty_backupArchive hstem randomUUID
      row.columns hP hdomain hostname secretKey publicKey
    obtain rfl := List.singleton_inj.mp (hcopy.rows.symm.trans hrows)
    refine ⟨honly, fun file hfile ↦ ?_, hconfig⟩
    obtain ⟨content, hown, hcopied⟩ := hcopy.files file hfile
    simp only [serviceFiles, List.mem_cons, List.not_mem_nil, or_false] at hfile
    rcases hfile with rfl | rfl | rfl
    · rw [hhostname, hown, ← hcopied, hcontents (hostnameFile, hostname) (by simp)]
    · rw [hsecret, hown, ← hcopied, hcontents (secretKeyFile, secretKey) (by simp)]
    · rw [hpublic, hown, ← hcopied, hcontents (publicKeyFile, publicKey) (by simp)]
  · intro hmatch
    have hcontent (file : String) (hfile : file ∈ serviceFiles) :
        ∃ content, ownContent base s.disk row file = some content ∧
          s.disk.content (base ++ [Version.v3.portDir row.columns.port, file]) =
            some content := by
      obtain ⟨content, hown⟩ := Option.isSome_iff_exists.mp (hfiles file hfile)
      exact ⟨content, hown, (hmatch.files file hfile).trans hown⟩
    obtain ⟨hostname, hownHostname, hhostname⟩ := hcontent hostnameFile (by decide)
    obtain ⟨secretKey, hownSecret, hsecret⟩ := hcontent secretKeyFile (by decide)
    obtain ⟨publicKey, hownPublic, hpublic⟩ := hcontent publicKeyFile (by decide)
    obtain ⟨copy, hrows, hsame, hused, hlisted, hcontents⟩ := restoredIntoEmpty_backupArchive
      hstem randomUUID row.columns hP hdomain hostname secretKey publicKey
    refine ⟨_, createV3ZipBackup_saved_iff.mpr ⟨row, hostname, secretKey, publicKey,
      hmatch.onlyRow, hmatch.config, hhostname, hsecret, hpublic, rfl⟩, copy, hrows, hsame,
      fun name hname ↦ ?_, fun file hfile ↦ ?_⟩
    · obtain rfl := Option.some_inj.mp (hused.symm.trans hname)
      rw [serviceDir_portDir]
      exact hlisted
    · simp only [serviceFiles, List.mem_cons, List.not_mem_nil, or_false] at hfile
      rcases hfile with rfl | rfl | rfl
      · exact ⟨hostname, hownHostname, hcontents (hostnameFile, hostname) (by simp)⟩
      · exact ⟨secretKey, hownSecret, hcontents (secretKeyFile, secretKey) (by simp)⟩
      · exact ⟨publicKey, hownPublic, hcontents (publicKeyFile, publicKey) (by simp)⟩

theorem roundTrips_configV3_restoredRow :
    flatPlatform.RoundTrips (configV3 restoredRow.columns) :=
  ⟨by decide +kernel, by decide +kernel, readInteger_decimal⟩

theorem roundTrips_configV3_createdRow : flatPlatform.RoundTrips (configV3 createdRow.columns) :=
  ⟨by decide +kernel, by decide +kernel, readInteger_decimal⟩

/-- The store after `restoredService`. -/
def restoredStore : Store :=
  ((system .v3 flatPlatform appFiles).run (installed (Version.v3.base appFiles))
    restoredService).store

/-- The files of the restored service are in the directory of its port, where no other row is. -/
theorem restoredRow_stored :
    restoredRow ∈ restoredStore.table.rows ∧
      (∀ file ∈ serviceFiles,
        (ownContent (Version.v3.base appFiles) restoredStore.disk restoredRow file).isSome) ∧
      restoredStore.table.rows.filter (portIs restoredRow.columns.port) = [restoredRow] ∧
      (∀ file ∈ serviceFiles,
        restoredStore.disk.content (Version.v3.base appFiles ++
            [Version.v3.portDir restoredRow.columns.port, file]) =
          ownContent (Version.v3.base appFiles) restoredStore.disk restoredRow file) ∧
      restoredStore.disk.node (Version.v3.base appFiles ++
        [Version.v3.portDir restoredRow.columns.port, configFileName]) ≠ some .dir := by
  decide +kernel

theorem backup_roundTrips_restoredService :
    BackupRoundTrips flatPlatform (Version.v3.base appFiles) "copy" drawByRow
      ((system .v3 flatPlatform appFiles).run (installed (Version.v3.base appFiles))
        restoredService).store restoredRow := by
  obtain ⟨hrow, hfiles, honly, hmatch, hconfig⟩ := restoredRow_stored
  exact (backup_roundTrips_iff flatPlatform _ _ restoredRow hrow (by decide) hfiles
    roundTrips_configV3_restoredRow "copy" (by decide) drawByRow).mpr ⟨honly, hmatch, hconfig⟩

/-- The store after `createdService`. -/
def createdStore : Store :=
  ((system .v3 flatPlatform appFiles).run (installed (Version.v3.base appFiles))
    createdService).store

/-- The created service has its files, and its backup raises an exception. -/
theorem createdRow_stored :
    (system .v3 flatPlatform appFiles).Admissible (fun _ _ ↦ True)
        (system .v3 flatPlatform appFiles).init createdService ∧
      createdRow ∈ createdStore.table.rows ∧
      (∀ file ∈ serviceFiles,
        (ownContent (Version.v3.base appFiles) createdStore.disk createdRow file).isSome) ∧
      (createV3ZipBackup flatPlatform (Version.v3.base appFiles) true 8080 createdStore).1 =
        .thrown := by
  decide +kernel

/-- The service of `createdService` has an address and keys, but its backup raises an exception. -/
theorem backup_throws_createdService :
    ¬ ∀ (P : Platform) (filesDir : Path) (s : Services), (system .v3 P filesDir).Reachable s →
      ∀ row ∈ s.store.table.rows, row.columns.domain ≠ none →
        (∀ file ∈ serviceFiles,
          (ownContent (Version.v3.base filesDir) s.store.disk row file).isSome) →
        P.RoundTrips (configV3 row.columns) → ∀ stem, IsPlainName stem → ∀ randomUUID,
          BackupRoundTrips P (Version.v3.base filesDir) stem randomUUID s.store row := by
  intro h
  obtain ⟨hrun, hrow, hfiles, hthrown⟩ := createdRow_stored
  obtain ⟨archive, hsaved, -⟩ := h flatPlatform appFiles _ ⟨createdService, hrun, rfl⟩ createdRow
    hrow (by decide) hfiles roundTrips_configV3_createdRow "copy" (by decide) drawByRow
  exact absurd (hthrown.symm.trans hsaved) (by simp)

end Orbot.OnionService
