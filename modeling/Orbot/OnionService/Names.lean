import Orbot.OnionService.Services

/-!
# Directory names of services

Every stored directory name was drawn for its row or is made of the row's local port, in every
state that a run reaches. So the directory of a service is a child of the base directory.
-/

namespace Orbot.OnionService

open Orbot.Foundation

theorem usedName_eq_some {v : Version} {row : Row} {name : String} :
    usedName v row = some name ↔ row.columns.filepath = some name ∨
      (row.columns.filepath = none ∧ row.columns.domain ≠ none ∧
        v.portDir row.columns.port = name) := by
  unfold usedName
  cases row.columns.filepath with
  | some path => simp
  | none => by_cases hdomain : row.columns.domain = none <;> simp [hdomain]

/-- A directory name was drawn or is the name of the local port. -/
def IsServiceName (v : Version) (port : Int32) (name : String) : Prop :=
  (∃ uuid, name = v.uuidDir uuid) ∨ name = v.portDir port

theorem IsServiceName.serviceDir {v : Version} {port : Int32} {name : String}
    (h : IsServiceName v port name) (base : Path) : serviceDir base name = base ++ [name] := by
  rcases h with ⟨uuid, rfl⟩ | rfl
  · exact serviceDir_uuidDir v base uuid
  · exact serviceDir_portDir v base port

/-- A name made of a port is the name of that port only. -/
theorem IsServiceName.eq_port {v : Version} {port other : Int32}
    (h : IsServiceName v port (v.portDir other)) : port = other := by
  rcases h with ⟨uuid, hdrawn⟩ | hport
  · exact absurd hdrawn.symm (v.uuidDir_ne_portDir uuid other)
  · exact (v.portDir_injective hport).symm

/-- The stored directory names of a table are service names. -/
def WellNamed (v : Version) (t : ServiceTable) : Prop :=
  ∀ row ∈ t.rows, ∀ name, row.columns.filepath = some name →
    IsServiceName v row.columns.port name

theorem WellNamed.usedName {v : Version} {t : ServiceTable} (h : WellNamed v t) {row : Row}
    (hrow : row ∈ t.rows) {name : String} (hname : usedName v row = some name) :
    IsServiceName v row.columns.port name := by
  rcases usedName_eq_some.mp hname with hpath | ⟨-, -, hport⟩
  · exact h row hrow name hpath
  · exact .inr hport.symm

/-! ## Steps -/

/-- A change of a row that concerns neither its directory nor its port. -/
def KeepsName (v : Version) (row row' : Row) : Prop :=
  row'.columns.filepath = row.columns.filepath ∧ row'.columns.port = row.columns.port ∧
    OnionService.usedName v row' = OnionService.usedName v row

theorem KeepsName.refl (v : Version) (row : Row) : KeepsName v row row := ⟨rfl, rfl, rfl⟩

theorem WellNamed.evolve {v : Version} {t t' : ServiceTable} (h : WellNamed v t)
    (hevolves : Table.Evolves (KeepsName v) t t') : WellNamed v t' := by
  intro row' hrow' name hname
  obtain ⟨row, hrow, -, hfilepath, hport, -⟩ := hevolves row' hrow'
  rw [hport]
  exact h row hrow name (hfilepath ▸ hname)

theorem WellNamed.insert {v : Version} {t : ServiceTable} (h : WellNamed v t)
    {columns : Columns} (hpath : columns.filepath = none) : WellNamed v (t.insert columns) := by
  refine (Table.forall_mem_insert columns).mpr ⟨h, fun name hname ↦ ?_⟩
  simp [hpath] at hname

theorem usedName_assignPath (v : Version) (randomUUID : ℕ → Uuid) (row : Row) :
    usedName v (assignPath v randomUUID row) =
      if DrawsUuid row then some (v.uuidDir (randomUUID row.id)) else usedName v row := by
  by_cases hassign : isEnabled row ∧ row.columns.filepath = none
  · by_cases hdomain : row.columns.domain = none
    · simp [assignPath, usedName, DrawsUuid, newPath, hassign, hdomain]
    · simp [assignPath, usedName, DrawsUuid, newPath, hassign, hdomain]
  · rw [assignPath, if_neg hassign, if_neg (fun h ↦ hassign ⟨h.1, h.2.1⟩)]

theorem mem_addServicesToTorrc {v : Version} {base : Path} {randomUUID : ℕ → Uuid}
    {t : ServiceTable} {row' : Row} :
    row' ∈ (addServicesToTorrc v base randomUUID t).1.rows ↔
      ∃ row ∈ t.rows, assignPath v randomUUID row = row' := by
  rw [rows_addServicesToTorrc, List.mem_map]

theorem WellNamed.generate {v : Version} {t : ServiceTable} (h : WellNamed v t) (base : Path)
    (randomUUID : ℕ → Uuid) : WellNamed v (addServicesToTorrc v base randomUUID t).1 := by
  intro row' hrow' name hname
  obtain ⟨row, hrow, rfl⟩ := mem_addServicesToTorrc.mp hrow'
  obtain ⟨path, hcolumns⟩ := assignPath_columns v randomUUID row
  have hused : OnionService.usedName v (assignPath v randomUUID row) = some name :=
    usedName_eq_some.mpr (.inl hname)
  rw [usedName_assignPath] at hused
  rw [hcolumns]
  split at hused
  · exact .inl ⟨_, (Option.some_inj.mp hused).symm⟩
  · exact h.usedName hrow hused

/-- The columns of a restored row. -/
theorem apply_restored {fields : ContentValues} {port : Int32} (hport : fields.port = some port)
    (hdomain : fields.domain.isSome) (hpath : fields.filepath = none) (columns : Columns) :
    (fields.apply columns).filepath = columns.filepath ∧ (fields.apply columns).port = port ∧
      (fields.apply columns).domain ≠ none := by
  simp [ContentValues.apply, hpath, hport, Option.isSome_iff_ne_none.mp hdomain]

theorem WellNamed.insertOrUpdate {v : Version} {t : ServiceTable} (h : WellNamed v t)
    {port : Int32} {fields : ContentValues} (hport : fields.port = some port)
    (hdomain : fields.domain.isSome) (hpath : fields.filepath = none) :
    WellNamed v (insertOrUpdate t port fields) := by
  have happly := apply_restored hport hdomain hpath
  unfold OnionService.insertOrUpdate
  split
  · intro row' hrow' name hname
    obtain ⟨row, hrow, -, hcolumns⟩ := t.evolves_update (portIs port) fields.apply row' hrow'
    rw [hcolumns] at hname ⊢
    split at hname
    · next hselected =>
      have hrowPort : row.columns.port = port := by simpa [portIs] using hselected
      rw [(happly row.columns).1] at hname
      rw [if_pos hselected, (happly row.columns).2.1, ← hrowPort]
      exact h row hrow name hname
    · next hselected =>
      rw [if_neg hselected]
      exact h row hrow name hname
  · exact h.insert (happly defaultColumns).1

theorem evolves_onCheckedChanged (v : Version) (id : ℕ) (isChecked : Bool) (t : ServiceTable) :
    Table.Evolves (KeepsName v) t (onCheckedChanged id isChecked t) := by
  intro row' hrow'
  obtain ⟨row, hrow, hid, hcolumns⟩ := Table.evolves_update _ _ row' hrow'
  refine ⟨row, hrow, hid, ?_⟩
  unfold KeepsName usedName
  rw [hcolumns]
  split <;> exact ⟨rfl, rfl, rfl⟩

theorem evolves_updateOnionNames (v : Version) (P : Platform) (base : Path) (s : Store) :
    Table.Evolves (KeepsName v) s.table (updateOnionNames v P base s).table := by
  have hset {row row' : Row} {values : ContentValues} (hpath : row.columns.filepath.isSome)
      (hvalues : values.filepath = none ∧ values.port = none)
      (hcolumns : row'.columns = values.apply row.columns) : KeepsName v row row' := by
    obtain ⟨path, hpath⟩ := Option.isSome_iff_exists.mp hpath
    simp [KeepsName, usedName, hcolumns, ContentValues.apply, hvalues, hpath]
  intro row' hrow'
  cases v with
  | v2 =>
    obtain ⟨row, hrow, hid, rfl | ⟨values, hstep, hcolumns⟩⟩ :=
      evolves_updateNames _ _ row' hrow'
    · exact ⟨row', hrow, rfl, .refl _ _⟩
    · obtain ⟨hpath, address, cookie, rfl⟩ := v2NameUpdate_eq_set hstep
      exact ⟨row, hrow, hid, hset hpath ⟨rfl, rfl⟩ hcolumns⟩
  | v3 =>
    obtain ⟨row, hrow, hid, rfl | ⟨values, hstep, hcolumns⟩⟩ :=
      evolves_updateNames _ _ row' hrow'
    · exact ⟨row', hrow, rfl, .refl _ _⟩
    · obtain ⟨path, content, -, hpath, -, rfl⟩ := v3NameUpdate_eq_set hstep
      exact ⟨row, hrow, hid, hset (by simp [hpath]) ⟨rfl, rfl⟩ hcolumns⟩

theorem evolves_doDelete (v : Version) (base : Path) (id : ℕ) (port : Int32) (s : Store) :
    Table.Evolves (KeepsName v) s.table (doDelete v base id port s).table := by
  rw [table_doDelete]
  intro row' hrow'
  obtain ⟨old, hold, hid, rfl⟩ := Table.evolves_delete _ row' hrow'
  exact ⟨row', hold, rfl, .refl _ _⟩

/-- The columns of a new service. -/
theorem table_save (v : Version) (name : String) (localPort onionPort : Int32)
    (authCookie : Bool) (t : ServiceTable) :
    ∃ columns : Columns, v.save name localPort onionPort authCookie t = t.insert columns ∧
      columns.filepath = none ∧ columns.domain = none := by
  cases v <;> exact ⟨_, rfl, rfl, rfl⟩

/-- A request of an app inserts a new row, or leaves the table as it is. -/
theorem table_enableHiddenServicePortV2 (base : Path) (hsName : Option String)
    (hsPort hsRemotePort : Int32) (hsKey : Option (Option Bytes)) (authCookie : Bool) (s : Store) :
    (enableHiddenServicePortV2 base hsName hsPort hsRemotePort hsKey authCookie s).table = s.table ∨
      ∃ columns : Columns,
        (enableHiddenServicePortV2 base hsName hsPort hsRemotePort hsKey authCookie s).table =
          s.table.insert columns ∧
        columns.filepath = none ∧ columns.domain = none := by
  dsimp only [enableHiddenServicePortV2]
  split
  · exact .inr ⟨_, rfl, rfl, rfl⟩
  · exact .inl rfl

theorem wellNamed_next {v : Version} {P : Platform} {base : Path} {s : Services}
    {action : Action} (h : WellNamed v s.store.table) :
    WellNamed v (next v P base s action).store.table := by
  cases action with
  | create name localPort onionPort authCookie =>
    obtain ⟨columns, hinsert, hpath, -⟩ := table_save v name localPort onionPort authCookie
      s.store.table
    change WellNamed v (v.save name localPort onionPort authCookie s.store.table)
    rw [hinsert]
    exact h.insert hpath
  | appRequest localPort onionPort name => exact h.insert rfl
  | appRequestV2 hsName hsPort hsRemotePort hsKey authCookie =>
    change WellNamed v (enableHiddenServicePortV2 base hsName hsPort hsRemotePort hsKey authCookie
      s.store).table
    rcases table_enableHiddenServicePortV2 base hsName hsPort hsRemotePort hsKey authCookie s.store
      with hsame | ⟨columns, hinsert, hpath, -⟩
    · rwa [hsame]
    · rw [hinsert]
      exact h.insert hpath
  | toggle id isChecked => exact h.evolve (evolves_onCheckedChanged v id isChecked _)
  | generateTorrc randomUUID => exact h.generate base randomUUID
  | torWrites dir hostname keys => exact h
  | refreshNames => exact h.evolve (evolves_updateOnionNames v P base s.store)
  | restore backupName archive =>
    change WellNamed v (v.restore P base backupName archive s.store).2.table
    rw [table_restore]
    cases hconfig : restoredConfig v P base backupName archive s.store.disk with
    | none => exact h
    | some config =>
      obtain ⟨hport, hdomain, hpath⟩ := restoredConfig_spec hconfig
      exact h.insertOrUpdate hport hdomain hpath
  | delete row => exact h.evolve (evolves_doDelete v base row.id row.columns.port s.store)

/-- In every state that a run reaches the stored names are service names. -/
theorem wellNamed_of_reachableBy {v : Version} {P : Platform} {filesDir : Path}
    {ok : Services → Action → Prop} {s : Services}
    (h : (system v P filesDir).ReachableBy ok s) : WellNamed v s.store.table := by
  have hinit : WellNamed v (system v P filesDir).init.store.table := by
    intro row hrow
    simp [system, installed] at hrow
  exact (system v P filesDir).invariant_of_reachableBy (fun s ↦ WellNamed v s.store.table) hinit
    (fun _ _ hstate _ _ ↦ wellNamed_next hstate) h

end Orbot.OnionService
