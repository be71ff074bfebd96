import Orbot.Foundation.DiskRemoval
import Orbot.OnionService.Platform
import Orbot.OnionService.Torrc
import Orbot.OnionService.Zip

/-!
# Backups of onion services

`BackupUtils` writes the files of the directory `v3<port>` or `hs<port>` and a `config.json` with
the columns of the service to an archive. Restoring extracts an archive to a directory named after
the archive, inserts or updates the row of the local port that the extracted `config.json` names
and, for v3, renames the directory to `v3<port>`.
-/

namespace Orbot.OnionService

open Orbot.Foundation

def configFileName : String := "config.json"

/-! ## Writing a backup -/

/-- The key files that a backup holds beside `hostname` and `config.json`. -/
def secretKeyFile : String := "hs_ed25519_secret_key"

def publicKeyFile : String := "hs_ed25519_public_key"

def privateKeyFile : String := "private_key"

/-- Put a text into a JSON object; `null` leaves the object as it is. -/
def putText (name : String) (text : Option String) : JsonObject :=
  (text.map fun value ↦ (name, JsonValue.string value)).toList

/-- The `config.json` of a v3 service: every column is read as text. -/
def configV3 (columns : Columns) : JsonObject :=
  [("name", .string columns.name), ("port", .string (decimal columns.port)),
    ("onion_port", .string (decimal columns.onionPort))] ++
  putText "domain" columns.domain ++
  [("created_by_user", .string (decimal columns.createdByUser)),
    ("enabled", .string (decimal columns.enabled))]

/-- A number of a JSON object. -/
def jsonInt (n : Int32) : JsonValue := .number (decimal n) n

/-- The `config.json` of a v2 service. -/
def configV2 (columns : Columns) : JsonObject :=
  [("name", .string columns.name), ("port", jsonInt columns.port),
    ("onion_port", jsonInt columns.onionPort)] ++
  putText "domain" columns.domain ++
  [("auth_cookie", jsonInt columns.authCookie)] ++
  putText "auth_cookie_value" columns.authCookieValue ++
  [("created_by_user", jsonInt columns.createdByUser), ("enabled", jsonInt columns.enabled)]

/-- The files to archive, after writing `config.json`; `none` unless exactly one row has the local
port and the directory named after the port can take the file. -/
def createFilesForZipping (P : Platform) (v : Version) (config : Columns → JsonObject)
    (names : List String) (base : Path) (port : Int32) (s : Store) :
    Option (List (List String)) × Store :=
  match s.table.rows.filter (portIs port) with
  | [row] =>
      match s.disk.openAndWrite base [v.portDir port, configFileName]
          (P.encode (P.printObject (config row.columns))) with
      | some disk => (some (names.map fun name ↦ [v.portDir port, name]), { s with disk := disk })
      | none => (none, s)
  | _ => (none, s)

def createFilesForZippingV3 (P : Platform) (base : Path) (port : Int32) (s : Store) :
    Option (List (List String)) × Store :=
  createFilesForZipping P .v3 configV3
    [hostnameFile, configFileName, secretKeyFile, publicKeyFile] base port s

def createFilesForZippingV2 (P : Platform) (base : Path) (port : Int32) (s : Store) :
    Option (List (List String)) × Store :=
  createFilesForZipping P .v2 configV2 [hostnameFile, privateKeyFile, configFileName] base port s

def createV3ZipBackup (P : Platform) (base : Path) (opens : Bool) (port : Int32) (s : Store) :
    BackupResult × Store :=
  let (files, s') := createFilesForZippingV3 P base port s
  (zip base s'.disk opens files, s')

def createV2ZipBackup (P : Platform) (base : Path) (opens : Bool) (port : Int32) (s : Store) :
    BackupResult × Store :=
  let (files, s') := createFilesForZippingV2 P base port s
  (zip base s'.disk opens files, s')

/-! ## Restoring a backup -/

/-- How a restore ends: with one of the three messages, or with an exception. -/
inductive Outcome where
  | restored
  | portExists (port : Int32)
  | error
  | thrown
  deriving DecidableEq

/-- `backupName.substring(0, backupName.lastIndexOf('.'))`, which throws without a dot. -/
def nameBeforeDot (backupName : String) : Option String :=
  (lastIndexOf '.' backupName.toList).map fun index ↦ String.ofList (backupName.toList.take index)

/-- The local port and the columns that a v3 `config.json` sets; `none` for a `JSONException`. -/
def savedFieldsV3 (P : Platform) (savedValues : JsonObject) : Option (Int32 × ContentValues) := do
  let port ← getInt P savedValues "port"
  let name ← getString savedValues "name"
  let onionPort ← getInt P savedValues "onion_port"
  let domain ← getString savedValues "domain"
  let createdByUser ← getInt P savedValues "created_by_user"
  let enabled ← getInt P savedValues "enabled"
  return (port,
    { port := some port
      name := some name
      onionPort := some onionPort
      domain := some domain
      createdByUser := some createdByUser
      enabled := some enabled })

/-- The same for v2; the cookie itself is not restored. -/
def savedFieldsV2 (P : Platform) (savedValues : JsonObject) : Option (Int32 × ContentValues) := do
  let name ← getString savedValues "name"
  let onionPort ← getInt P savedValues "onion_port"
  let domain ← getString savedValues "domain"
  let authCookie ← getInt P savedValues "auth_cookie"
  let createdByUser ← getInt P savedValues "created_by_user"
  let enabled ← getInt P savedValues "enabled"
  let port ← getInt P savedValues "port"
  return (port,
    { name := some name
      onionPort := some onionPort
      domain := some domain
      authCookie := some authCookie
      createdByUser := some createdByUser
      enabled := some enabled
      port := some port })

def Version.savedFields : Version → Platform → JsonObject → Option (Int32 × ContentValues)
  | .v2 => savedFieldsV2
  | .v3 => savedFieldsV3

/-- Read the `config.json` in the extracted directory. -/
def readConfig (v : Version) (P : Platform) (base : Path) (dir : List String) (d : Disk Bytes) :
    Option (Int32 × ContentValues) := do
  let content ← readFile base (dir ++ [configFileName]) d
  let savedValues ← P.parseObject (P.decode content)
  v.savedFields P savedValues

/-- Insert a row, or update every row with the local port. -/
def insertOrUpdate (t : ServiceTable) (port : Int32) (fields : ContentValues) : ServiceTable :=
  if t.rows.any (portIs port) then updateValues t (portIs port) fields else insertValues t fields

/-- Create the extracted directory unless it is one. -/
def ensureDirectory (base : Path) (dir : List String) (d : Disk Bytes) : Disk Bytes :=
  if (d.walk base dir).any d.isDirectory then d else makeDirectories base dir d

/-- Where an archive was extracted to its end, the directory is left as it is. -/
theorem ensureDirectory_unzipped {base : Path} {dir : List String} {archive : Option ZipStream}
    {d d' : Disk Bytes} (h : unzip base dir archive d = (d', .complete)) :
    ensureDirectory base dir d' = d' := by
  cases archive with
  | none => simp [unzip] at h
  | some zis =>
    have hmade := makeDirectories_extracted base dir zis d
    rw [unzip] at h
    rw [h] at hmade
    rw [ensureDirectory, hmade, ite_self]

/-- Delete the named files of a directory and then the directory, each by its path as written. -/
def cleanUp (base : Path) (dir : List String) : List String → Disk Bytes → Disk Bytes
  | [], d => d.deleteAt base dir
  | name :: rest, d => cleanUp base dir rest (d.deleteAt base (dir ++ [name]))

def extractConfigFromUnzippedBackupV3 (P : Platform) (base : Path) (backupName : String)
    (s : Store) : Outcome × Store :=
  match nameBeforeDot backupName with
  | none => (.thrown, s)
  | some v3Dir =>
      let v3Path := components v3Dir
      let disk := ensureDirectory base v3Path s.disk
      match readConfig .v3 P base v3Path disk with
      | none => (.error, { s with disk := disk })
      | some (port, fields) =>
          let table := insertOrUpdate s.table port fields
          let disk := disk.deleteAt base (v3Path ++ [configFileName])
          match disk.renameAt base v3Path (serviceDir base (Version.v3.portDir port)) with
          | some disk => (.restored, ⟨table, disk⟩)
          | none =>
              -- collision, clean up files
              match disk.walk base v3Path with
              | some dir =>
                  let files := P.listing.order (disk.listFiles dir)
                  (.portExists port, ⟨table, cleanUp base v3Path files disk⟩)
              | none => (.thrown, ⟨table, disk⟩)

def extractConfigFromUnzippedBackupV2 (P : Platform) (mHSBasePath : Path) (backupName : String)
    (s : Store) : Outcome × Store :=
  match nameBeforeDot backupName with
  | none => (.thrown, s)
  | some hsDir =>
      let disk := ensureDirectory mHSBasePath (components hsDir) s.disk
      match readConfig .v2 P mHSBasePath (components hsDir) disk with
      | none => (.error, { s with disk := disk })
      | some (port, fields) => (.restored, ⟨insertOrUpdate s.table port fields, disk⟩)

/-- The restore methods: extract the archive to the directory named after it, then take over its
`config.json`. -/
def restoreZipBackup
    (unzip : Path → List String → Option ZipStream → Disk Bytes → Disk Bytes × Extraction)
    (extractConfigFromUnzippedBackup : Platform → Path → String → Store → Outcome × Store)
    (P : Platform) (base : Path) (backupName : String) (archive : Option ZipStream) (s : Store) :
    Outcome × Store :=
  match nameBeforeDot backupName with
  | none => (.thrown, s)
  | some dir =>
      match unzip base (components dir) archive s.disk with
      | (disk, .complete) =>
          extractConfigFromUnzippedBackup P base backupName { s with disk := disk }
      | (disk, .failed) => (.error, { s with disk := disk })
      | (disk, .thrown) => (.thrown, { s with disk := disk })

/-- A restore method for the display name and the content of a document, or for the name and the
content of a file. -/
abbrev RestoreMethod := Platform → Path → String → Option ZipStream → Store → Outcome × Store

def restoreZipBackupV3 : RestoreMethod :=
  restoreZipBackup unzip extractConfigFromUnzippedBackupV3

def restoreZipBackupV2 : RestoreMethod :=
  restoreZipBackup unzip extractConfigFromUnzippedBackupV2

def restoreZipBackupV3Legacy : RestoreMethod :=
  restoreZipBackup unzipLegacy extractConfigFromUnzippedBackupV3

def restoreZipBackupV2Legacy : RestoreMethod :=
  restoreZipBackup unzipLegacy extractConfigFromUnzippedBackupV2

def Version.restore : Version → RestoreMethod
  | .v2 => restoreZipBackupV2
  | .v3 => restoreZipBackupV3

def Version.restoreLegacy : Version → RestoreMethod
  | .v2 => restoreZipBackupV2Legacy
  | .v3 => restoreZipBackupV3Legacy

/-- `restoreKeyBackup`: write what was read of a key document, `none` if it cannot be opened. -/
def restoreKeyBackup (mHSBasePath : Path) (hsPort : Int32) (hsKey : Option Bytes)
    (d : Disk Bytes) : Disk Bytes :=
  let serviceDir := Version.v2.portDir hsPort
  let disk := ensureDirectory mHSBasePath [serviceDir] d
  match hsKey with
  | none => disk
  | some content =>
      (disk.openAndWrite mHSBasePath [serviceDir, privateKeyFile] content).getD disk

/-- The legacy methods differ in where the archive comes from. -/
theorem restoreLegacy_eq (v : Version) : v.restoreLegacy = v.restore := by
  cases v <;> rfl

/-! ## The two ends of a restore -/

def Version.extractConfig : Version → Platform → Path → String → Store → Outcome × Store
  | .v2 => extractConfigFromUnzippedBackupV2
  | .v3 => extractConfigFromUnzippedBackupV3

section Restore

variable {v : Version} {P : Platform} {base : Path} {backupName stem : String}
  {archive : Option ZipStream} {s : Store} {d : Disk Bytes}

theorem restore_of_noDot (hname : nameBeforeDot backupName = none) :
    v.restore P base backupName archive s = (.thrown, s) := by
  cases v <;> simp only [Version.restore, restoreZipBackupV2, restoreZipBackupV3,
    restoreZipBackup, hname]

theorem restore_of_unzipFails (hname : nameBeforeDot backupName = some stem)
    (hunzip : unzip base (components stem) archive s.disk = (d, .failed)) :
    v.restore P base backupName archive s = (.error, { s with disk := d }) := by
  cases v <;> simp only [Version.restore, restoreZipBackupV2, restoreZipBackupV3,
    restoreZipBackup, hname, hunzip]

theorem restore_of_unzipThrows (hname : nameBeforeDot backupName = some stem)
    (hunzip : unzip base (components stem) archive s.disk = (d, .thrown)) :
    v.restore P base backupName archive s = (.thrown, { s with disk := d }) := by
  cases v <;> simp only [Version.restore, restoreZipBackupV2, restoreZipBackupV3,
    restoreZipBackup, hname, hunzip]

theorem restore_of_unzipped (hname : nameBeforeDot backupName = some stem)
    (hunzip : unzip base (components stem) archive s.disk = (d, .complete)) :
    v.restore P base backupName archive s =
      v.extractConfig P base backupName { s with disk := d } := by
  cases v <;> simp only [Version.restore, restoreZipBackupV2, restoreZipBackupV3,
    restoreZipBackup, hname, hunzip, Version.extractConfig]

end Restore

/-! ## What a restore does to a table -/

/-- The local port and the columns that an archive restores, if it gets as far as the table. -/
def restoredConfig (v : Version) (P : Platform) (base : Path) (backupName : String)
    (archive : Option ZipStream) (d : Disk Bytes) : Option (Int32 × ContentValues) := do
  let name ← nameBeforeDot backupName
  match unzip base (components name) archive d with
  | (d', .complete) =>
      readConfig v P base (components name) (ensureDirectory base (components name) d')
  | (_, .failed) | (_, .thrown) => none

theorem table_extractConfig (v : Version) (P : Platform) (base : Path)
    {backupName stem : String} (hname : nameBeforeDot backupName = some stem) (s : Store) :
    (v.extractConfig P base backupName s).2.table =
      match readConfig v P base (components stem)
        (ensureDirectory base (components stem) s.disk) with
      | some (port, fields) => insertOrUpdate s.table port fields
      | none => s.table := by
  cases v with
  | v2 =>
    simp only [Version.extractConfig, extractConfigFromUnzippedBackupV2, hname]
    cases readConfig .v2 P base (components stem)
      (ensureDirectory base (components stem) s.disk) <;> rfl
  | v3 =>
    simp only [Version.extractConfig, extractConfigFromUnzippedBackupV3, hname]
    rcases readConfig .v3 P base (components stem)
      (ensureDirectory base (components stem) s.disk) with _ | ⟨port, fields⟩
    · rfl
    · dsimp only
      split
      · rfl
      · split <;> rfl

theorem table_restore (v : Version) (P : Platform) (base : Path) (backupName : String)
    (archive : Option ZipStream) (s : Store) :
    (v.restore P base backupName archive s).2.table =
      match restoredConfig v P base backupName archive s.disk with
      | some (port, fields) => insertOrUpdate s.table port fields
      | none => s.table := by
  cases hname : nameBeforeDot backupName with
  | none => simp [restore_of_noDot hname, restoredConfig, hname]
  | some stem =>
    simp only [restoredConfig, hname, Option.bind_eq_bind, Option.bind_some]
    rcases hunzip : unzip base (components stem) archive s.disk with ⟨d, _ | _ | _⟩
    · rw [restore_of_unzipped hname hunzip]
      exact table_extractConfig v P base hname { s with disk := d }
    · rw [restore_of_unzipFails hname hunzip]
    · rw [restore_of_unzipThrows hname hunzip]

/-- A restored row gets its port and a domain, and no directory name. -/
theorem savedFields_spec {v : Version} {P : Platform} {savedValues : JsonObject} {port : Int32}
    {fields : ContentValues} (h : v.savedFields P savedValues = some (port, fields)) :
    fields.port = some port ∧ fields.domain.isSome ∧ fields.filepath = none := by
  cases v <;>
    simp only [Version.savedFields, savedFieldsV2, savedFieldsV3, Option.bind_eq_bind,
      Option.bind_eq_some_iff, Option.pure_def, Option.some_inj, Prod.mk.injEq] at h
  · obtain ⟨_, -, _, -, _, -, _, -, _, -, _, -, _, -, rfl, rfl⟩ := h
    exact ⟨rfl, rfl, rfl⟩
  · obtain ⟨_, -, _, -, _, -, _, -, _, -, _, -, rfl, rfl⟩ := h
    exact ⟨rfl, rfl, rfl⟩

theorem restoredConfig_spec {v : Version} {P : Platform} {base : Path} {backupName : String}
    {archive : Option ZipStream} {d : Disk Bytes} {port : Int32} {fields : ContentValues}
    (h : restoredConfig v P base backupName archive d = some (port, fields)) :
    fields.port = some port ∧ fields.domain.isSome ∧ fields.filepath = none := by
  simp only [restoredConfig, Option.bind_eq_bind, Option.bind_eq_some_iff] at h
  obtain ⟨name, -, h⟩ := h
  split at h
  · simp only [readConfig, Option.bind_eq_bind, Option.bind_eq_some_iff] at h
    obtain ⟨content, -, savedValues, -, hfields⟩ := h
    exact savedFields_spec hfields
  · simp at h
  · simp at h

/-! ## Taking over an extracted directory -/

/-- Where a `config.json` was read there is a directory with that file. -/
theorem readConfig_spec {v : Version} {P : Platform} {base : Path} {dir : List String}
    {d : Disk Bytes} {config : Int32 × ContentValues}
    (h : readConfig v P base dir d = some config) :
    d.walk base dir = some (Path.normalize base dir) ∧
      d.node (Path.normalize base dir) = some .dir ∧
      d.IsFile (Path.normalize base dir ++ [configFileName]) := by
  simp only [readConfig, Option.bind_eq_bind, Option.bind_eq_some_iff] at h
  obtain ⟨content, hread, -⟩ := h
  rw [readFile] at hread
  split at hread
  · simp at hread
  obtain ⟨path, hwalk, hcontent⟩ := Option.bind_eq_some_iff.mp hread
  have hpath : path = Path.normalize base dir ++ [configFileName] := by
    rw [Disk.walk_eq_normalize hwalk, Path.normalize_append, Path.normalize_cons,
      Path.enter_name (by decide : Path.IsName configFileName), Path.normalize_nil]
  subst hpath
  rw [Disk.walk_append, Option.bind_eq_some_iff] at hwalk
  obtain ⟨out, hout, -⟩ := hwalk
  obtain rfl := Disk.walk_eq_normalize hout
  have hfile : d.IsFile (Path.normalize base dir ++ [configFileName]) := by
    simp [Disk.IsFile, hcontent]
  obtain ⟨_, hnode⟩ := Disk.isFile_iff.mp hfile
  have hexists : (d.node (Path.normalize base dir ++ [configFileName])).isSome := by simp [hnode]
  exact ⟨hout, Disk.node_parent hexists, hfile⟩

/-- The disk after `config.json` is deleted from the extracted directory. -/
def withoutConfig (base : Path) (dir : List String) (d : Disk Bytes) : Disk Bytes :=
  d.delete (Path.normalize base dir ++ [configFileName])

section TakeOver

variable {v : Version} {P : Platform} {base : Path} {dir : List String} {d : Disk Bytes}
  {config : Int32 × ContentValues}

theorem node_withoutConfig (h : readConfig v P base dir d = some config) (q : Path) :
    (withoutConfig base dir d).node q =
      if q = Path.normalize base dir ++ [configFileName] then none else d.node q := by
  refine Disk.node_delete_file (fun hdir ↦ ?_) q
  exact Disk.not_isFile_of_dir hdir (readConfig_spec h).2.2

theorem walk_withoutConfig (h : readConfig v P base dir d = some config) :
    (withoutConfig base dir d).walk base dir = some (Path.normalize base dir) := by
  rw [← (readConfig_spec h).1]
  refine Disk.walk_congr (fun q ↦ ?_) base dir
  have hnot : d.node (Path.normalize base dir ++ [configFileName]) ≠ some .dir := fun hdir ↦
    Disk.not_isFile_of_dir hdir (readConfig_spec h).2.2
  rw [Bool.eq_iff_iff, Disk.isDirectory_iff, Disk.isDirectory_iff, node_withoutConfig h]
  by_cases hq : q = Path.normalize base dir ++ [configFileName]
  · simp [hq, hnot]
  · rw [if_neg hq]

theorem deleteAt_config (h : readConfig v P base dir d = some config) :
    d.deleteAt base (dir ++ [configFileName]) = withoutConfig base dir d := by
  have hends : Disk.EndsInName (dir ++ [configFileName]) := by
    intro last hlast
    rw [List.getLast?_concat] at hlast
    obtain rfl := Option.some_inj.mp hlast
    decide
  obtain ⟨hwalk, hdir, -⟩ := readConfig_spec h
  rw [Disk.deleteAt, if_pos hends, Disk.walk_append, hwalk, Option.bind_some,
    Disk.walk_name (by decide) hdir]
  rfl

/-- Once its configuration is read, a v3 backup is taken over, or cleaned up. -/
theorem extractConfigV3_of_read {backupName stem : String} {port : Int32} {fields : ContentValues}
    {s : Store} (hname : nameBeforeDot backupName = some stem)
    (hensure : ensureDirectory base (components stem) s.disk = s.disk)
    (h : readConfig .v3 P base (components stem) s.disk = some (port, fields)) :
    extractConfigFromUnzippedBackupV3 P base backupName s =
      match (withoutConfig base (components stem) s.disk).renameAt base (components stem)
        (base ++ [Version.v3.portDir port]) with
      | some d => (.restored, ⟨insertOrUpdate s.table port fields, d⟩)
      | none => (.portExists port, ⟨insertOrUpdate s.table port fields,
          cleanUp base (components stem)
            (P.listing.order ((withoutConfig base (components stem) s.disk).listFiles
              (Path.normalize base (components stem))))
            (withoutConfig base (components stem) s.disk)⟩) := by
  simp only [extractConfigFromUnzippedBackupV3, hname, hensure, h,
    deleteAt_config h, walk_withoutConfig h, serviceDir_portDir]

end TakeOver

end Orbot.OnionService
