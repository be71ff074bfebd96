import Orbot.OnionService.Columns

/-!
# Onion services in the torrc

`OrbotService.addV3OnionServicesToTorrc` and `addV2HiddenServicesToTorrc` write one block of lines
for each enabled row and store the directory name that they choose for a row without one. The two
functions differ in the prefix of the name, the version line and the v2 client authorization.
-/

namespace Orbot.OnionService

open Orbot.Foundation

/-- One service of the torrc. -/
structure HiddenService where
  id : ℕ
  version : Version
  /-- The canonical path of the directory. -/
  dir : Path
  onionPort : Int32
  localPort : Int32
  /-- The client of a `HiddenServiceAuthorizeClient` line. -/
  authorizedClient : Option String
  deriving DecidableEq

/-- The text of an absolute path. -/
def pathText (path : Path) : String :=
  String.join (path.map ("/" ++ ·))

theorem pathText_append_singleton (path : Path) (name : String) :
    pathText (path ++ [name]) = pathText path ++ ("/" ++ name) := by
  simp [pathText, String.join, List.foldl_append]

def Version.torrcVersion : Version → String
  | .v2 => "HiddenServiceVersion 2"
  | .v3 => "HiddenServiceVersion 3"

def HiddenService.dirLine (service : HiddenService) : String :=
  "HiddenServiceDir " ++ pathText service.dir

/-- The lines that a service adds to the torrc. -/
def HiddenService.lines (service : HiddenService) : List String :=
  [service.dirLine,
    service.version.torrcVersion,
    "HiddenServicePort " ++ decimal service.onionPort ++ " 127.0.0.1:" ++
      decimal service.localPort] ++
  match service.authorizedClient with
  | some client => ["HiddenServiceAuthorizeClient stealth " ++ client]
  | none => []

/-- The directory name for a row without one: random for a new service, the one of its local port
for a restored service. -/
def newPath (v : Version) (uuid : Uuid) (columns : Columns) : String :=
  if columns.domain = none then v.uuidDir uuid else v.portDir columns.port

/-- The canonical directory of a service under the base directory. -/
def serviceDir (base : Path) (path : String) : Path :=
  Path.normalize base (components path)

/-- The block that the generation writes for a row with directory name `path`. -/
def hiddenService (v : Version) (base : Path) (row : Row) (path : String) : HiddenService where
  id := row.id
  version := v
  dir := serviceDir base path
  onionPort := row.columns.onionPort
  localPort := row.columns.port
  authorizedClient :=
    if v = .v2 ∧ row.columns.authCookie = 1 then some row.columns.name else none

/-- The loop over the cursor: the rows still to list and the table as updated so far. -/
def addServices (v : Version) (base : Path) (randomUUID : ℕ → Uuid) :
    List Row → ServiceTable → ServiceTable × List HiddenService
  | [], t => (t, [])
  | row :: rest, t =>
      match row.columns.filepath with
      | some path =>
          let (t', services) := addServices v base randomUUID rest t
          (t', hiddenService v base row path :: services)
      | none =>
          let path := newPath v (randomUUID row.id) row.columns
          let (t', services) := addServices v base randomUUID rest
            (updateValues t (idIs row.id) { filepath := some path })
          (t', hiddenService v base row path :: services)

/-- Query the enabled rows and list each of them; `randomUUID` gives the UUID drawn for a row. -/
def addServicesToTorrc (v : Version) (base : Path) (randomUUID : ℕ → Uuid) (t : ServiceTable) :
    ServiceTable × List HiddenService :=
  addServices v base randomUUID (t.rows.filter isEnabled) t

def addV3OnionServicesToTorrc (mV3OnionBasePath : Path) (randomUUID : ℕ → Uuid)
    (t : ServiceTable) : ServiceTable × List HiddenService :=
  addServicesToTorrc .v3 mV3OnionBasePath randomUUID t

def addV2HiddenServicesToTorrc (mHSBasePath : Path) (randomUUID : ℕ → Uuid)
    (t : ServiceTable) : ServiceTable × List HiddenService :=
  addServicesToTorrc .v2 mHSBasePath randomUUID t

/-! ## What the generation does to a table -/

theorem normalize_prefixed (v : Version) (base : Path) (rest : String) :
    Path.normalize base [v.dirPrefix ++ rest] = base ++ [v.dirPrefix ++ rest] := by
  refine Path.normalize_names (fun name hname ↦ ?_) base
  rw [List.mem_singleton.mp hname]
  exact isName_dirPrefix

@[simp]
theorem serviceDir_portDir (v : Version) (base : Path) (port : Int32) :
    serviceDir base (v.portDir port) = base ++ [v.portDir port] := by
  rw [serviceDir, components_portDir]
  exact normalize_prefixed v base (decimal port)

@[simp]
theorem serviceDir_uuidDir (v : Version) (base : Path) (uuid : Uuid) :
    serviceDir base (v.uuidDir uuid) = base ++ [v.uuidDir uuid] := by
  rw [serviceDir, components_uuidDir]
  exact normalize_prefixed v base uuid.text

/-- The row after the generation: an enabled row has a directory name. -/
def assignPath (v : Version) (randomUUID : ℕ → Uuid) (row : Row) : Row :=
  if isEnabled row ∧ row.columns.filepath = none then
    { row with columns :=
        { row.columns with filepath := some (newPath v (randomUUID row.id) row.columns) } }
  else row

/-- The directory name that the generation lists a row under. -/
def listedPath (v : Version) (randomUUID : ℕ → Uuid) (row : Row) : String :=
  row.columns.filepath.getD (newPath v (randomUUID row.id) row.columns)

/-- The directory name that a row has, or that the generation gives it without drawing a UUID. -/
def usedName (v : Version) (row : Row) : Option String :=
  match row.columns.filepath with
  | some path => some path
  | none => if row.columns.domain = none then none else some (v.portDir row.columns.port)

theorem addServices_spec (v : Version) (base : Path) (randomUUID : ℕ → Uuid)
    (done pending : List Row) (t : ServiceTable) (hrows : t.rows = done ++ pending) :
    (addServices v base randomUUID (pending.filter isEnabled) t).1.rows =
        done ++ pending.map (assignPath v randomUUID) ∧
      (addServices v base randomUUID (pending.filter isEnabled) t).1.nextId = t.nextId ∧
      (addServices v base randomUUID (pending.filter isEnabled) t).2 =
        (pending.filter isEnabled).map fun row ↦
          hiddenService v base row (listedPath v randomUUID row) := by
  induction pending generalizing done t with
  | nil => simp [addServices, hrows]
  | cons row rest ih =>
    have hshift (next : Row) (t' : ServiceTable) (ht' : t'.rows = done ++ next :: rest) :=
      ih (done ++ [next]) t' (by simp [ht'])
    by_cases henabled : isEnabled row = true
    · rw [List.filter_cons_of_pos henabled]
      cases hpath : row.columns.filepath with
      | some path =>
        obtain ⟨htable, hnext, hservices⟩ := hshift row t hrows
        simp only [addServices, hpath]
        refine ⟨?_, hnext, ?_⟩
        · simp [htable, assignPath, hpath]
        · simp [hservices, listedPath, hpath]
      | none =>
        have hupdate := Table.rows_update_id hrows
          (ContentValues.apply { filepath := some (newPath v (randomUUID row.id) row.columns) })
        obtain ⟨htable, hnext, hservices⟩ := hshift _ _ hupdate
        simp only [addServices, hpath]
        refine ⟨?_, hnext, ?_⟩
        · refine htable.trans ?_
          simp [assignPath, henabled, hpath, ContentValues.apply]
        · simp only [List.map_cons, listedPath, hpath, Option.getD_none]
          exact congrArg _ hservices
    · obtain ⟨htable, hnext, hservices⟩ := hshift row t hrows
      rw [List.filter_cons_of_neg henabled]
      refine ⟨?_, hnext, hservices⟩
      rw [htable]
      simp [assignPath, henabled]

theorem rows_addServicesToTorrc (v : Version) (base : Path) (randomUUID : ℕ → Uuid)
    (t : ServiceTable) :
    (addServicesToTorrc v base randomUUID t).1.rows = t.rows.map (assignPath v randomUUID) :=
  (addServices_spec v base randomUUID [] t.rows t rfl).1

theorem services_addServicesToTorrc (v : Version) (base : Path) (randomUUID : ℕ → Uuid)
    (t : ServiceTable) :
    (addServicesToTorrc v base randomUUID t).2 =
      (t.rows.filter isEnabled).map fun row ↦
        hiddenService v base row (listedPath v randomUUID row) :=
  (addServices_spec v base randomUUID [] t.rows t rfl).2.2

@[simp]
theorem assignPath_id (v : Version) (randomUUID : ℕ → Uuid) (row : Row) :
    (assignPath v randomUUID row).id = row.id := by
  unfold assignPath
  split <;> rfl

/-- The generation changes no column but the directory name. -/
theorem assignPath_columns (v : Version) (randomUUID : ℕ → Uuid) (row : Row) :
    ∃ path, (assignPath v randomUUID row).columns = { row.columns with filepath := path } := by
  unfold assignPath
  split
  · exact ⟨_, rfl⟩
  · exact ⟨row.columns.filepath, rfl⟩

end Orbot.OnionService
