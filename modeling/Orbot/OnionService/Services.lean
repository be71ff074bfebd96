import Orbot.Foundation.System
import Orbot.OnionService.Backup
import Orbot.OnionService.Dialogs
import Orbot.OnionService.Hostnames

/-!
# The onion services as a transition system

The state is the table and the disk of one generation of services together with the services that
the torrc lists. The actions are those of the user, of other apps, of Orbot when it starts Tor and
of Tor itself, which writes keys and an address into a listed directory that has no address yet.
-/

namespace Orbot.OnionService

open Orbot.Foundation

/-- The store and the last generated torrc. -/
structure Services where
  store : Store
  torrc : List HiddenService

inductive Action where
  | create (name : String) (localPort onionPort : Int32) (authCookie : Bool)
  | appRequest (localPort onionPort : Int32) (name : String)
  | appRequestV2 (hsName : Option String) (hsPort hsRemotePort : Int32)
      (hsKey : Option (Option Bytes)) (authCookie : Bool)
  | toggle (id : ℕ) (isChecked : Bool)
  | generateTorrc (randomUUID : ℕ → Uuid)
  | torWrites (dir : Path) (hostname : Bytes) (keys : List Bytes)
  | refreshNames
  | restore (backupName : String) (archive : Option ZipStream)
  | delete (row : Row)

/-- The key files that Tor writes. -/
def Version.keyFiles : Version → List String
  | .v2 => [privateKeyFile]
  | .v3 => [secretKeyFile, publicKeyFile]

/-- The row that the create dialog inserts; only the v2 dialog has the switch for a cookie. -/
def Version.save : Version → String → Int32 → Int32 → Bool → ServiceTable → ServiceTable
  | .v2 => saveData
  | .v3 => fun serverName localPort onionPort _ ↦ doSave serverName localPort onionPort

/-- A row that draws a UUID when the torrc is generated. -/
def DrawsUuid (row : Row) : Prop :=
  isEnabled row ∧ row.columns.filepath = none ∧ row.columns.domain = none

instance (row : Row) : Decidable (DrawsUuid row) := inferInstanceAs (Decidable (_ ∧ _ ∧ _))

/-- The UUIDs of one generation differ from each other and from those in use. -/
structure FreshUuids (v : Version) (base : Path) (randomUUID : ℕ → Uuid) (s : Store) :
    Prop where
  distinct : ∀ row ∈ s.table.rows, ∀ other ∈ s.table.rows, DrawsUuid row → DrawsUuid other →
    v.uuidDir (randomUUID row.id) = v.uuidDir (randomUUID other.id) → row = other
  unused : ∀ row ∈ s.table.rows, DrawsUuid row → ∀ other ∈ s.table.rows,
    other.columns.filepath ≠ some (v.uuidDir (randomUUID row.id))
  missing : ∀ row ∈ s.table.rows, DrawsUuid row →
    s.disk.node (base ++ [v.uuidDir (randomUUID row.id)]) = none

instance (v : Version) (base : Path) (randomUUID : ℕ → Uuid) (s : Store) :
    Decidable (FreshUuids v base randomUUID s) :=
  decidable_of_iff
    ((∀ row ∈ s.table.rows, ∀ other ∈ s.table.rows, DrawsUuid row → DrawsUuid other →
        v.uuidDir (randomUUID row.id) = v.uuidDir (randomUUID other.id) → row = other) ∧
      (∀ row ∈ s.table.rows, DrawsUuid row → ∀ other ∈ s.table.rows,
        other.columns.filepath ≠ some (v.uuidDir (randomUUID row.id))) ∧
      (∀ row ∈ s.table.rows, DrawsUuid row →
        s.disk.node (base ++ [v.uuidDir (randomUUID row.id)]) = none))
    ⟨fun ⟨hdistinct, hunused, hmissing⟩ ↦ ⟨hdistinct, hunused, hmissing⟩,
      fun h ↦ ⟨h.distinct, h.unused, h.missing⟩⟩

/-- Write a file that does not exist yet. -/
def writeNew (dir : Path) (d : Disk Bytes) (file : String × Bytes) : Disk Bytes :=
  if d.node (dir ++ [file.1]) = none then (d.openAndWrite dir [file.1] file.2).getD d else d

/-- Tor creates the directory of a service and writes the files that are not there. -/
def writeServiceFiles (v : Version) (dir : Path) (hostname : Bytes) (keys : List Bytes)
    (d : Disk Bytes) : Disk Bytes :=
  ((hostnameFile, hostname) :: v.keyFiles.zip keys).foldl (writeNew dir) (d.mkdirs dir)

/-- The base directory of a generation of services. -/
def Version.base (v : Version) (filesDir : Path) : Path := filesDir ++ [v.servicesDir]

/-- When an action can occur. The list of services shows those of the user or of the apps. -/
def Enabled (v : Version) (base : Path) (s : Services) : Action → Prop
  | .create name localPort onionPort _ => checkInput localPort onionPort name = true
  | .appRequest _ _ _ => v = .v3
  | .appRequestV2 _ _ _ _ _ => v = .v2
  | .toggle _ _ | .refreshNames | .restore _ _ => True
  | .generateTorrc randomUUID => FreshUuids v base randomUUID s.store
  | .torWrites dir _ _ => (∃ service ∈ s.torrc, service.dir = dir) ∧
      s.store.disk.node dir.dropLast = some .dir ∧
      s.store.disk.node (dir ++ [hostnameFile]) = none
  | .delete row => row ∈ s.store.table.rows ∧
      (row.columns.createdByUser = 0 ∨ row.columns.createdByUser = 1)

instance (v : Version) (base : Path) (s : Services) :
    ∀ action, Decidable (Enabled v base s action)
  | .create _ _ _ _ => inferInstanceAs (Decidable (_ = true))
  | .appRequest _ _ _ | .appRequestV2 _ _ _ _ _ => inferInstanceAs (Decidable (_ = _))
  | .toggle _ _ | .refreshNames | .restore _ _ => inferInstanceAs (Decidable True)
  | .generateTorrc _ => inferInstanceAs (Decidable (FreshUuids _ _ _ _))
  | .torWrites _ _ _ => inferInstanceAs (Decidable (_ ∧ _ ∧ _))
  | .delete _ => inferInstanceAs (Decidable (_ ∧ _))

/-- The state after an action. -/
def next (v : Version) (P : Platform) (base : Path) (s : Services) : Action → Services
  | .create name localPort onionPort authCookie =>
      { s with store := { s.store with
          table := v.save name localPort onionPort authCookie s.store.table } }
  | .appRequest localPort onionPort name =>
      { s with store := { s.store with
          table := enableV3OnionService localPort onionPort name s.store.table } }
  | .appRequestV2 hsName hsPort hsRemotePort hsKey authCookie =>
      { s with store :=
          enableHiddenServicePortV2 base hsName hsPort hsRemotePort hsKey authCookie s.store }
  | .toggle id isChecked =>
      { s with store := { s.store with table := onCheckedChanged id isChecked s.store.table } }
  | .generateTorrc randomUUID =>
      let (table, services) := addServicesToTorrc v base randomUUID s.store.table
      { store := { s.store with table := table }, torrc := services }
  | .torWrites dir hostname keys =>
      { s with store := { s.store with
          disk := writeServiceFiles v dir hostname keys s.store.disk } }
  | .refreshNames => { s with store := updateOnionNames v P base s.store }
  | .restore backupName archive =>
      { s with store := (v.restore P base backupName archive s.store).2 }
  | .delete row => { s with store := doDelete v base row.id row.columns.port s.store }

/-- The app after its installation: an empty table and an empty base directory. -/
def installed (base : Path) : Services where
  store := ⟨Table.empty, Disk.initial.mkdirs base⟩
  torrc := []

/-- The services of one generation. -/
def system (v : Version) (P : Platform) (filesDir : Path) : System Services Action where
  init := installed (v.base filesDir)
  enabled := Enabled v (v.base filesDir)
  next := next v P (v.base filesDir)

instance (v : Version) (P : Platform) (filesDir : Path) (s : Services) (action : Action) :
    Decidable ((system v P filesDir).enabled s action) :=
  inferInstanceAs (Decidable (Enabled v (v.base filesDir) s action))

/-! ## Runs on fixed inputs -/

/-- The private storage of the app. -/
def appFiles : Path := ["files"]

def firstUuid : Uuid := ⟨"00000000-0000-4000-8000-000000000001", by decide⟩

def secondUuid : Uuid := ⟨"00000000-0000-4000-8000-000000000002", by decide⟩

/-- Draw the second UUID for the row with id 2 and the first one for every other row. -/
def drawByRow (id : ℕ) : Uuid := if id = 2 then secondUuid else firstUuid

/-- A `config.json` of a backup, for both generations of services. -/
def backupConfig (port : Int32) (domain : String) : Bytes :=
  flatPlatform.encode (flatPlatform.printObject
    [("name", .string "w"), ("port", jsonInt port), ("onion_port", jsonInt 80),
      ("domain", .string domain), ("auth_cookie", jsonInt 0), ("created_by_user", jsonInt 1),
      ("enabled", jsonInt 1)])

/-- A restored service of port 9090 that the torrc has listed. -/
def restoredService : List Action :=
  [.restore "web.zip" (some (.entry hostnameFile (flatPlatform.encode "a.onion")
      (.entry secretKeyFile [1] (.entry publicKeyFile [2]
        (.entry configFileName (backupConfig 9090 "a.onion") .eof))))),
    .generateTorrc drawByRow]

def restoredRow : Row where
  id := 1
  columns :=
    { defaultColumns with
      name := "w"
      domain := some "a.onion"
      onionPort := 80
      createdByUser := 1
      port := 9090
      filepath := some "v39090" }

/-- A service from the create dialog, with the keys and the address that Tor has written. -/
def createdService : List Action :=
  [.create "blog" 8080 80 false, .generateTorrc drawByRow,
    .torWrites (Version.v3.base appFiles ++ [Version.v3.uuidDir firstUuid])
      (flatPlatform.encode "a.onion\n") [[1], [2]],
    .refreshNames]

def createdRow : Row where
  id := 1
  columns :=
    { defaultColumns with
      name := "blog"
      domain := some "a.onion"
      onionPort := 80
      createdByUser := 1
      port := 8080
      filepath := some (Version.v3.uuidDir firstUuid) }

end Orbot.OnionService
