import Orbot.OnionService.Names

/-!
# A service keeps its directory

The generation of the torrc stores the directory name under which it lists a row, no operation
changes a stored name, and no row gets the id of another. So every torrc that lists a service gives
it the directory of the first one, whatever happens in between.
-/

namespace Orbot.OnionService

open Orbot.Foundation

/-- A later table: its rows are new ones or keep the directory name that they have. -/
structure PathsStay (t t' : ServiceTable) : Prop where
  nextId_le : t.nextId ≤ t'.nextId
  rows : ∀ row' ∈ t'.rows, t.nextId ≤ row'.id ∨ ∃ row ∈ t.rows, row'.id = row.id ∧
    ∀ name ∈ row.columns.filepath, row'.columns.filepath = some name

theorem PathsStay.refl (t : ServiceTable) : PathsStay t t :=
  ⟨le_rfl, fun row hrow ↦ .inr ⟨row, hrow, rfl, fun _ ↦ id⟩⟩

theorem PathsStay.insert (t : ServiceTable) (columns : Columns) :
    PathsStay t (t.insert columns) where
  nextId_le := Nat.le_succ _
  rows := (Table.forall_mem_insert columns).mpr ⟨(PathsStay.refl t).rows, .inl le_rfl⟩

/-- An update of other columns keeps the names. -/
theorem PathsStay.update (t : ServiceTable) (selection : Row → Bool) {values : ContentValues}
    (hpath : values.filepath = none) : PathsStay t (updateValues t selection values) := by
  refine ⟨le_rfl, fun row' hrow' ↦ .inr ?_⟩
  obtain ⟨row, hrow, hid, hcolumns⟩ := Table.evolves_update _ _ row' hrow'
  refine ⟨row, hrow, hid, fun name hname ↦ ?_⟩
  rw [hcolumns]
  split
  · simpa [ContentValues.apply, hpath] using hname
  · exact hname

theorem PathsStay.evolve {v : Version} {t t' : ServiceTable} (hnext : t'.nextId = t.nextId)
    (hevolves : Table.Evolves (KeepsName v) t t') : PathsStay t t' := by
  refine ⟨hnext.ge, fun row' hrow' ↦ .inr ?_⟩
  obtain ⟨row, hrow, hid, hfilepath, -⟩ := hevolves row' hrow'
  exact ⟨row, hrow, hid, fun name hname ↦ hfilepath.trans hname⟩

theorem PathsStay.generate (v : Version) (base : Path) (randomUUID : ℕ → Uuid)
    (t : ServiceTable) : PathsStay t (addServicesToTorrc v base randomUUID t).1 := by
  have hnext : (addServicesToTorrc v base randomUUID t).1.nextId = t.nextId :=
    (addServices_spec v base randomUUID [] t.rows t rfl).2.1
  refine ⟨hnext.ge, fun row' hrow' ↦ .inr ?_⟩
  obtain ⟨row, hrow, rfl⟩ := mem_addServicesToTorrc.mp hrow'
  refine ⟨row, hrow, assignPath_id v randomUUID row, fun name hname ↦ ?_⟩
  have hpath : row.columns.filepath = some name := hname
  rw [assignPath, if_neg fun h ↦ by simp [hpath] at h]
  exact hpath

theorem PathsStay.insertOrUpdate (t : ServiceTable) (port : Int32) {fields : ContentValues}
    (hpath : fields.filepath = none) : PathsStay t (insertOrUpdate t port fields) := by
  unfold OnionService.insertOrUpdate
  split
  · exact .update t _ hpath
  · exact .insert t _

theorem nextId_updateNames (step : Row → NameUpdate) (rows : List Row) (t : ServiceTable) :
    (updateNames step rows t).nextId = t.nextId := by
  induction rows generalizing t with
  | nil => rfl
  | cons row rest ih =>
    rw [updateNames]
    cases step row with
    | keep => exact ih t
    | set values => exact ih (updateValues t (idIs row.id) values)
    | abort => rfl

/-- Every step keeps the directory names that the table has. -/
theorem pathsStay_next (v : Version) (P : Platform) (base : Path) (s : Services)
    (action : Action) : PathsStay s.store.table (next v P base s action).store.table := by
  cases action with
  | create name localPort onionPort authCookie =>
    obtain ⟨columns, hinsert, -⟩ := table_save v name localPort onionPort authCookie s.store.table
    change PathsStay s.store.table (v.save name localPort onionPort authCookie s.store.table)
    rw [hinsert]
    exact .insert _ columns
  | appRequest localPort onionPort name => exact .insert _ _
  | appRequestV2 hsName hsPort hsRemotePort hsKey authCookie =>
    change PathsStay s.store.table (enableHiddenServicePortV2 base hsName hsPort hsRemotePort
      hsKey authCookie s.store).table
    rcases table_enableHiddenServicePortV2 base hsName hsPort hsRemotePort hsKey authCookie s.store
      with hsame | ⟨columns, hinsert, -⟩
    · rw [hsame]
      exact .refl _
    · rw [hinsert]
      exact .insert _ columns
  | toggle id isChecked => exact .update _ _ rfl
  | generateTorrc randomUUID => exact .generate v base randomUUID _
  | torWrites dir hostname keys => exact .refl _
  | refreshNames =>
    refine .evolve ?_ (evolves_updateOnionNames v P base s.store)
    cases v <;> exact nextId_updateNames _ _ _
  | restore backupName archive =>
    change PathsStay s.store.table (v.restore P base backupName archive s.store).2.table
    rw [table_restore]
    cases hconfig : restoredConfig v P base backupName archive s.store.disk with
    | none => exact .refl _
    | some config => exact .insertOrUpdate _ _ (restoredConfig_spec hconfig).2.2
  | delete row =>
    refine .evolve ?_ (evolves_doDelete v base row.id row.columns.port s.store)
    change (doDelete v base row.id row.columns.port s.store).table.nextId = _
    rw [table_doDelete]
    rfl

/-! ## The directory of a listed service -/

/-- The id was given, its row stores the name of the directory, and the torrc lists no other
directory for it. -/
structure HasDirectory (base : Path) (id : ℕ) (dir : Path) (s : Services) : Prop where
  given : id < s.store.table.nextId
  stored : ∀ row ∈ s.store.table.rows, row.id = id →
    ∃ name, row.columns.filepath = some name ∧ serviceDir base name = dir
  listed : ∀ service ∈ s.torrc, service.id = id → service.dir = dir

theorem HasDirectory.table {base : Path} {id : ℕ} {dir : Path} {s : Services}
    (h : HasDirectory base id dir s) {t' : ServiceTable} (hstay : PathsStay s.store.table t') :
    id < t'.nextId ∧ ∀ row ∈ t'.rows, row.id = id →
      ∃ name, row.columns.filepath = some name ∧ serviceDir base name = dir := by
  refine ⟨h.given.trans_le hstay.nextId_le, fun row' hrow' hid' ↦ ?_⟩
  rcases hstay.rows row' hrow' with hnew | ⟨row, hrow, hid, hkept⟩
  · exact absurd (h.given.trans_le hnew) (by omega)
  · obtain ⟨name, hname, hdir⟩ := h.stored row hrow (hid.symm.trans hid')
    exact ⟨name, hkept name hname, hdir⟩

/-- What a generation lists comes from the rows of the table. -/
theorem mem_services {v : Version} {base : Path} {randomUUID : ℕ → Uuid} {t : ServiceTable}
    {service : HiddenService} (h : service ∈ (addServicesToTorrc v base randomUUID t).2) :
    ∃ row ∈ t.rows, isEnabled row ∧
      service = hiddenService v base row (listedPath v randomUUID row) := by
  rw [services_addServicesToTorrc] at h
  obtain ⟨row, hrow, rfl⟩ := List.mem_map.mp h
  obtain ⟨hmem, henabled⟩ := List.mem_filter.mp hrow
  exact ⟨row, hmem, henabled, rfl⟩

/-- A step changes the list of services only by a generation. -/
theorem torrc_next (v : Version) (P : Platform) (base : Path) (s : Services) (action : Action) :
    (next v P base s action).torrc = s.torrc ∨ ∃ randomUUID,
      (next v P base s action).torrc =
        (addServicesToTorrc v base randomUUID s.store.table).2 ∧
      (next v P base s action).store.table =
        (addServicesToTorrc v base randomUUID s.store.table).1 := by
  cases action with
  | generateTorrc randomUUID => exact .inr ⟨randomUUID, rfl, rfl⟩
  | _ => exact .inl rfl

/-- A step keeps the directory of a service. -/
theorem hasDirectory_next (v : Version) (P : Platform) {base : Path} {id : ℕ} {dir : Path}
    {s : Services} (h : HasDirectory base id dir s) (action : Action) :
    HasDirectory base id dir (next v P base s action) := by
  obtain ⟨hgiven, hstored⟩ := h.table (pathsStay_next v P base s action)
  refine ⟨hgiven, hstored, fun service hservice hid ↦ ?_⟩
  rcases torrc_next v P base s action with hsame | ⟨randomUUID, htorrc, -⟩
  · rw [hsame] at hservice
    exact h.listed service hservice hid
  · rw [htorrc] at hservice
    obtain ⟨row, hrow, -, rfl⟩ := mem_services hservice
    obtain ⟨name, hname, hdir⟩ := h.stored row hrow hid
    simpa [hiddenService, listedPath, hname] using hdir

/-- Every listed service has its directory. -/
def TorrcStored (base : Path) (s : Services) : Prop :=
  ∀ service ∈ s.torrc, HasDirectory base service.id service.dir s

theorem torrcStored_next {v : Version} {P : Platform} {base : Path} {s : Services}
    (h : TorrcStored base s) (action : Action) : TorrcStored base (next v P base s action) := by
  intro service hservice
  rcases torrc_next v P base s action with hsame | ⟨randomUUID, htorrc, htable⟩
  · rw [hsame] at hservice
    exact hasDirectory_next v P (h service hservice) action
  · rw [htorrc] at hservice
    obtain ⟨row, hrow, henabled, rfl⟩ := mem_services hservice
    refine ⟨?_, fun row' hrow' hid ↦ ?_, fun other hother hid ↦ ?_⟩
    · exact (s.store.table.ids_lt row hrow).trans_le (pathsStay_next v P base s action).nextId_le
    · rw [htable] at hrow'
      obtain ⟨old, hold, rfl⟩ := mem_addServicesToTorrc.mp hrow'
      rw [assignPath_id] at hid
      obtain rfl := s.store.table.eq_of_id_eq hold hrow hid
      refine ⟨listedPath v randomUUID old, ?_, rfl⟩
      cases hpath : old.columns.filepath <;> simp [assignPath, listedPath, henabled, hpath]
    · rw [htorrc] at hother
      obtain ⟨otherRow, hotherRow, -, rfl⟩ := mem_services hother
      obtain rfl := s.store.table.eq_of_id_eq hotherRow hrow hid
      rfl

/-- Once a torrc has listed a service with a directory, every later torrc that lists the service
gives it the same directory, along every list of actions of either generation of services. -/
theorem service_keeps_directory (v : Version) (P : Platform) (filesDir : Path)
    (before after : List Action) {service later : HiddenService}
    (h : service ∈
      ((system v P filesDir).run (installed (v.base filesDir)) before).torrc)
    (hlater : later ∈
      ((system v P filesDir).run (installed (v.base filesDir)) (before ++ after)).torrc)
    (hid : later.id = service.id) : later.dir = service.dir := by
  have hstored : TorrcStored (v.base filesDir)
      ((system v P filesDir).run (installed (v.base filesDir)) before) :=
    (system v P filesDir).preserved_run (TorrcStored (v.base filesDir))
      (fun _ action hstate ↦ torrcStored_next hstate action)
      (fun _ hmem ↦ absurd hmem List.not_mem_nil) before
  rw [System.run_append] at hlater
  have hkept := (system v P filesDir).preserved_run
    (HasDirectory (v.base filesDir) service.id service.dir)
    (fun _ action hstate ↦ hasDirectory_next v P hstate action) (hstored service h) after
  exact hkept.listed later hlater hid

/-- A created service that is listed, and a restore for its port before the next generation. -/
def listedService : List Action :=
  [.create "blog" 8080 81 false, .generateTorrc drawByRow]

def restoredAfterListing : List Action :=
  [.restore "web.zip" (some (.entry configFileName (backupConfig 8080 "b.onion") .eof)),
    .generateTorrc fun _ ↦ secondUuid]

/-- The service on port 8080 as a torrc lists it with an onion port. -/
def blogService (onionPort : Int32) : HiddenService where
  id := 1
  version := .v3
  dir := Version.v3.base appFiles ++ [Version.v3.uuidDir firstUuid]
  onionPort := onionPort
  localPort := 8080
  authorizedClient := none

theorem service_keeps_directory_restoredAfterListing :
    (blogService 80).dir = (blogService 81).dir :=
  service_keeps_directory .v3 flatPlatform appFiles listedService restoredAfterListing
    (by decide +kernel) (by decide +kernel) rfl

end Orbot.OnionService
