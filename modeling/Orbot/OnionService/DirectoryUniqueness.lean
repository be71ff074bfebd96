import Orbot.OnionService.Names

/-!
# Different services have different directories

No two rows use one directory name: the names drawn for new services are fresh, and a name made of
a local port belongs to the one restored service of that port. A restore breaks this when several
rows on its port have no directory yet, since it gives all of them an address at once, and the
generation of the torrc then names all their directories after the port.
-/

namespace Orbot.OnionService

open Orbot.Foundation

/-! ## Distinct names -/

/-- The stored names are service names, and no two rows use one name. -/
structure NamesDistinct (v : Version) (t : ServiceTable) : Prop where
  named : WellNamed v t
  distinct : ∀ row ∈ t.rows, ∀ other ∈ t.rows, row ≠ other → ∀ name,
    usedName v row = some name → usedName v other ≠ some name

theorem namesDistinct_empty (v : Version) : NamesDistinct v Table.empty :=
  ⟨fun row hrow ↦ by simp at hrow, by simp⟩

theorem NamesDistinct.evolve {v : Version} {t t' : ServiceTable} (h : NamesDistinct v t)
    (hevolves : Table.Evolves (KeepsName v) t t') : NamesDistinct v t' := by
  refine ⟨h.named.evolve hevolves, ?_⟩
  intro row' hrow' other' hother' hne name hname
  obtain ⟨row, hrow, other, hother, hdiff, ⟨-, -, hused⟩, ⟨-, -, husedOther⟩⟩ :=
    hevolves.exists_pair hrow' hother' hne
  rw [husedOther]
  exact h.distinct row hrow other hother hdiff name (hused ▸ hname)

/-- A new row may use no name, or one that no other row uses. -/
theorem NamesDistinct.insert {v : Version} {t : ServiceTable} (h : NamesDistinct v t)
    (columns : Columns) (hpath : columns.filepath = none)
    (hfree : ∀ row ∈ t.rows, ∀ name, usedName v ⟨t.nextId, columns⟩ = some name →
      usedName v row ≠ some name) :
    NamesDistinct v (t.insert columns) := by
  refine ⟨h.named.insert hpath, ?_⟩
  intro row hrow other hother hne name hname hotherName
  rcases List.mem_append.mp hrow with hold | hnew <;>
    rcases List.mem_append.mp hother with holdOther | hnewOther
  · exact h.distinct row hold other holdOther hne name hname hotherName
  · rw [List.mem_singleton.mp hnewOther] at hotherName
    exact hfree row hold name hotherName hname
  · rw [List.mem_singleton.mp hnew] at hname
    exact hfree other holdOther name hname hotherName
  · exact hne ((List.mem_singleton.mp hnew).trans (List.mem_singleton.mp hnewOther).symm)

/-- A service without an address and a directory uses no name. -/
theorem NamesDistinct.insert_new {v : Version} {t : ServiceTable} (h : NamesDistinct v t)
    {columns : Columns} (hpath : columns.filepath = none) (hdomain : columns.domain = none) :
    NamesDistinct v (t.insert columns) := by
  refine h.insert columns hpath fun row _ name hname ↦ ?_
  simp [usedName, hpath, hdomain] at hname

/-! ## The generation of the torrc -/

theorem NamesDistinct.generate {v : Version} {base : Path} {randomUUID : ℕ → Uuid} {s : Store}
    (h : NamesDistinct v s.table) (hfresh : FreshUuids v base randomUUID s) :
    NamesDistinct v (addServicesToTorrc v base randomUUID s.table).1 := by
  -- a drawn name differs from every other name
  have hdrawn {row other : Row} (hrow : row ∈ s.table.rows) (hother : other ∈ s.table.rows)
      (hdraws : DrawsUuid row) (hne : row ≠ other) :
      usedName v (assignPath v randomUUID other) ≠ some (v.uuidDir (randomUUID row.id)) := by
    rw [usedName_assignPath]
    split
    · next hdrawsOther =>
      intro hsame
      exact hne (hfresh.distinct row hrow other hother hdraws hdrawsOther
        (Option.some_inj.mp hsame).symm)
    · intro hsame
      rcases usedName_eq_some.mp hsame with hpath | ⟨-, -, hport⟩
      · exact hfresh.unused row hrow hdraws other hother hpath
      · exact v.uuidDir_ne_portDir _ _ hport.symm
  refine ⟨h.named.generate base randomUUID, ?_⟩
  intro row' hrow' other' hother' hne name hname hotherName
  obtain ⟨row, hrow, rfl⟩ := mem_addServicesToTorrc.mp hrow'
  obtain ⟨other, hother, rfl⟩ := mem_addServicesToTorrc.mp hother'
  have hdiff : row ≠ other := fun h ↦ hne (congrArg _ h)
  by_cases hdraws : DrawsUuid row
  · rw [usedName_assignPath, if_pos hdraws] at hname
    exact hdrawn hrow hother hdraws hdiff (hname ▸ hotherName)
  · by_cases hdrawsOther : DrawsUuid other
    · rw [usedName_assignPath, if_pos hdrawsOther] at hotherName
      exact hdrawn hother hrow hdrawsOther hdiff.symm (hotherName ▸ hname)
    · rw [usedName_assignPath, if_neg hdraws] at hname
      rw [usedName_assignPath, if_neg hdrawsOther] at hotherName
      exact h.distinct row hrow other hother hdiff name hname hotherName

theorem pathText_append_singleton_inj {path : Path} {name other : String}
    (h : pathText (path ++ [name]) = pathText (path ++ [other])) : name = other := by
  rw [pathText_append_singleton, pathText_append_singleton] at h
  exact (String.append_right_inj "/").mp ((String.append_right_inj _).mp h)

/-- Distinct names give distinct lines in the torrc. -/
theorem NamesDistinct.nodup_dirLine {v : Version} {base : Path} {randomUUID : ℕ → Uuid}
    {s : Store} (h : NamesDistinct v s.table) (hfresh : FreshUuids v base randomUUID s) :
    ((addServicesToTorrc v base randomUUID s.table).2.map HiddenService.dirLine).Nodup := by
  have hgenerated := h.generate hfresh
  have hlisted {row : Row} (hrow : row ∈ s.table.rows.filter isEnabled) :
      assignPath v randomUUID row ∈ (addServicesToTorrc v base randomUUID s.table).1.rows ∧
        usedName v (assignPath v randomUUID row) = some (listedPath v randomUUID row) ∧
        serviceDir base (listedPath v randomUUID row) =
          base ++ [listedPath v randomUUID row] := by
    obtain ⟨hmem, henabled⟩ := List.mem_filter.mp hrow
    have hassigned : assignPath v randomUUID row ∈
        (addServicesToTorrc v base randomUUID s.table).1.rows :=
      mem_addServicesToTorrc.mpr ⟨row, hmem, rfl⟩
    have hname : usedName v (assignPath v randomUUID row) =
        some (listedPath v randomUUID row) := by
      cases hpath : row.columns.filepath <;>
        simp [usedName, assignPath, listedPath, henabled, hpath]
    exact ⟨hassigned, hname, (hgenerated.named.usedName hassigned hname).serviceDir base⟩
  rw [services_addServicesToTorrc, List.map_map]
  refine List.Nodup.map_on ?_ (s.table.ids_nodup.of_map.filter _)
  intro row hrow other hother hline
  obtain ⟨hassigned, hname, hdir⟩ := hlisted hrow
  obtain ⟨hassignedOther, hnameOther, hdirOther⟩ := hlisted hother
  have hsame : listedPath v randomUUID row = listedPath v randomUUID other := by
    have htext : pathText (serviceDir base (listedPath v randomUUID row)) =
        pathText (serviceDir base (listedPath v randomUUID other)) :=
      (String.append_right_inj _).mp hline
    rw [hdir, hdirOther] at htext
    exact pathText_append_singleton_inj htext
  by_contra hne
  refine hgenerated.distinct _ hassigned _ hassignedOther (fun heq ↦ hne ?_) _ hname
    (hsame ▸ hnameOther)
  refine Table.eq_of_id_eq (List.mem_filter.mp hrow).1 (List.mem_filter.mp hother).1 ?_
  simpa using congrArg Record.id heq

/-! ## Restoring a backup -/

/-- A row whose directory is named after the local port `port`, or will be once it has an
address. -/
def TakesPortDir (v : Version) (port : Int32) (row : Row) : Prop :=
  row.columns.port = port ∧
    (row.columns.filepath = none ∨ row.columns.filepath = some (v.portDir port))

instance (v : Version) (port : Int32) (row : Row) : Decidable (TakesPortDir v port row) :=
  inferInstanceAs (Decidable (_ ∧ (_ ∨ _)))

theorem NamesDistinct.takesPortDir {v : Version} {t : ServiceTable} (h : NamesDistinct v t)
    {row : Row} (hrow : row ∈ t.rows) {port : Int32}
    (hname : usedName v row = some (v.portDir port)) : TakesPortDir v port row := by
  refine ⟨(h.named.usedName hrow hname).eq_port, ?_⟩
  exact (usedName_eq_some.mp hname).elim .inr fun hnone ↦ .inl hnone.1

/-- A restored row keeps its name, or has none and takes the one of the port. -/
theorem usedName_of_restored {v : Version} {port : Int32} {fields : ContentValues}
    (hport : fields.port = some port) (hdomain : fields.domain.isSome)
    (hpath : fields.filepath = none) {row row' : Row} {name : String} (hcolumns : row'.columns =
      if portIs port row then fields.apply row.columns else row.columns)
    (hused : usedName v row' = some name) :
    usedName v row = some name ∨ (name = v.portDir port ∧ TakesPortDir v port row) := by
  rw [usedName_eq_some, hcolumns] at hused
  split at hused
  · next hselected =>
    have hrowPort : row.columns.port = port := by simpa [portIs] using hselected
    obtain ⟨hsame, hnew, -⟩ := apply_restored hport hdomain hpath row.columns
    rw [hsame, hnew] at hused
    rcases hused with hstored | ⟨hnone, -, rfl⟩
    · exact .inl (usedName_eq_some.mpr (.inl hstored))
    · exact .inr ⟨rfl, hrowPort, .inl hnone⟩
  · exact .inl (usedName_eq_some.mpr hused)

/-- The names stay distinct when the rows of the port are updated and at most one of them takes
the directory of the port. -/
theorem NamesDistinct.update_restored {v : Version} {t : ServiceTable} (h : NamesDistinct v t)
    {port : Int32} {fields : ContentValues} (hport : fields.port = some port)
    (hdomain : fields.domain.isSome) (hpath : fields.filepath = none)
    (hnamed : WellNamed v (updateValues t (portIs port) fields))
    (hone : ∀ row ∈ t.rows, ∀ other ∈ t.rows, TakesPortDir v port row →
      TakesPortDir v port other → row = other) :
    NamesDistinct v (updateValues t (portIs port) fields) := by
  have hname {row row' : Row} {name : String} (hcolumns : row'.columns =
        if portIs port row then fields.apply row.columns else row.columns)
      (hused : usedName v row' = some name) :
      usedName v row = some name ∨ (name = v.portDir port ∧ TakesPortDir v port row) :=
    usedName_of_restored hport hdomain hpath hcolumns hused
  have htakes {row row' : Row} (hrow : row ∈ t.rows) (hcolumns : row'.columns =
        if portIs port row then fields.apply row.columns else row.columns)
      (hused : usedName v row' = some (v.portDir port)) : TakesPortDir v port row :=
    (hname hcolumns hused).elim (h.takesPortDir hrow) And.right
  refine ⟨hnamed, ?_⟩
  intro row' hrow' other' hother' hne name hused husedOther
  obtain ⟨row, hrow, other, hother, hdiff, hcolumns, hcolumnsOther⟩ :=
    (t.evolves_update (portIs port) fields.apply).exists_pair hrow' hother' hne
  by_cases hshared : name = v.portDir port
  · subst hshared
    exact hdiff (hone row hrow other hother (htakes hrow hcolumns hused)
      (htakes hother hcolumnsOther husedOther))
  · have hkept := (hname hcolumns hused).resolve_right fun h ↦ hshared h.1
    have hkeptOther := (hname hcolumnsOther husedOther).resolve_right fun h ↦ hshared h.1
    exact h.distinct row hrow other hother hdiff name hkept hkeptOther

/-- A restore keeps the names distinct when at most one row takes the directory of its port. -/
theorem NamesDistinct.insertOrUpdate {v : Version} {t : ServiceTable} (h : NamesDistinct v t)
    {port : Int32} {fields : ContentValues} (hport : fields.port = some port)
    (hdomain : fields.domain.isSome) (hpath : fields.filepath = none)
    (hone : ∀ row ∈ t.rows, ∀ other ∈ t.rows, TakesPortDir v port row →
      TakesPortDir v port other → row = other) :
    NamesDistinct v (insertOrUpdate t port fields) := by
  have hnamed := h.named.insertOrUpdate hport hdomain hpath
  unfold OnionService.insertOrUpdate at hnamed ⊢
  split
  · next hany =>
    rw [if_pos hany] at hnamed
    exact h.update_restored hport hdomain hpath hnamed hone
  · next hnone =>
    obtain ⟨hsame, hnew, hsome⟩ := apply_restored hport hdomain hpath defaultColumns
    refine h.insert _ hsame fun row hrow name hused hrowName ↦ hnone ?_
    have hname : v.portDir port = name := by
      rcases usedName_eq_some.mp hused with hstored | ⟨-, -, hportName⟩
      · rw [hsame] at hstored
        simp [defaultColumns] at hstored
      · rwa [hnew] at hportName
    subst hname
    refine List.any_eq_true.mpr ⟨row, hrow, ?_⟩
    simpa [portIs] using (h.takesPortDir hrow hrowName).1

/-! ## Runs -/

/-- A restore meets at most one row that takes the directory of the restored port. -/
def RestoresOneRow (v : Version) (P : Platform) (base : Path) (s : Services) : Action → Prop
  | .restore backupName archive =>
      match restoredConfig v P base backupName archive s.store.disk with
      | some (port, _) => ∀ row ∈ s.store.table.rows, ∀ other ∈ s.store.table.rows,
          TakesPortDir v port row → TakesPortDir v port other → row = other
      | none => True
  | _ => True

instance (v : Version) (P : Platform) (base : Path) (s : Services) :
    ∀ action, Decidable (RestoresOneRow v P base s action)
  | .restore _ _ => by
      unfold RestoresOneRow
      dsimp only
      split <;> infer_instance
  | .create _ _ _ _ | .appRequest _ _ _ | .appRequestV2 _ _ _ _ _ | .toggle _ _
  | .generateTorrc _ | .torWrites _ _ _ | .refreshNames | .delete _ =>
      inferInstanceAs (Decidable True)

/-- The names are distinct, and the torrc was made from such names. -/
structure DirectoriesDistinct (v : Version) (s : Services) : Prop where
  names : NamesDistinct v s.store.table
  torrc : (s.torrc.map HiddenService.dirLine).Nodup

/-- One step keeps the directories distinct. -/
theorem directoriesDistinct_next {v : Version} {P : Platform} {base : Path} {s : Services}
    {action : Action} (h : DirectoriesDistinct v s) (henabled : Enabled v base s action)
    (hok : RestoresOneRow v P base s action) :
    DirectoriesDistinct v (next v P base s action) := by
  cases action with
  | create name localPort onionPort authCookie =>
    obtain ⟨columns, hinsert, hpath, hdomain⟩ := table_save v name localPort onionPort authCookie
      s.store.table
    refine ⟨?_, h.torrc⟩
    change NamesDistinct v (v.save name localPort onionPort authCookie s.store.table)
    rw [hinsert]
    exact h.names.insert_new hpath hdomain
  | appRequest localPort onionPort name => exact ⟨h.names.insert_new rfl rfl, h.torrc⟩
  | appRequestV2 hsName hsPort hsRemotePort hsKey authCookie =>
    refine ⟨?_, h.torrc⟩
    change NamesDistinct v (enableHiddenServicePortV2 base hsName hsPort hsRemotePort hsKey
      authCookie s.store).table
    rcases table_enableHiddenServicePortV2 base hsName hsPort hsRemotePort hsKey authCookie s.store
      with hsame | ⟨columns, hinsert, hpath, hdomain⟩
    · rw [hsame]
      exact h.names
    · rw [hinsert]
      exact h.names.insert_new hpath hdomain
  | toggle id isChecked =>
    exact ⟨h.names.evolve (evolves_onCheckedChanged v id isChecked _), h.torrc⟩
  | generateTorrc randomUUID =>
    exact ⟨h.names.generate henabled, h.names.nodup_dirLine henabled⟩
  | torWrites dir hostname keys => exact ⟨h.names, h.torrc⟩
  | refreshNames =>
    exact ⟨h.names.evolve (evolves_updateOnionNames v P base s.store), h.torrc⟩
  | restore backupName archive =>
    refine ⟨?_, h.torrc⟩
    change NamesDistinct v (v.restore P base backupName archive s.store).2.table
    rw [table_restore]
    cases hconfig : restoredConfig v P base backupName archive s.store.disk with
    | none => exact h.names
    | some config =>
      obtain ⟨hport, hdomain, hpath⟩ := restoredConfig_spec hconfig
      simp only [RestoresOneRow, hconfig] at hok
      exact h.names.insertOrUpdate hport hdomain hpath hok
  | delete row =>
    exact ⟨h.names.evolve (evolves_doDelete v base row.id row.columns.port s.store), h.torrc⟩

/-- In every run whose restores meet at most one row that takes the directory of their port, the
torrc never names one directory for two services. -/
theorem torrc_directories_distinct (v : Version) (P : Platform) (filesDir : Path) (s : Services)
    (h : (system v P filesDir).ReachableBy (RestoresOneRow v P (v.base filesDir)) s) :
    (s.torrc.map HiddenService.dirLine).Nodup := by
  have hinv : DirectoriesDistinct v s :=
    (system v P filesDir).invariant_of_reachableBy (DirectoriesDistinct v)
      ⟨namesDistinct_empty v, List.nodup_nil⟩
      (fun _ _ hstate henabled hok ↦ directoriesDistinct_next hstate henabled hok) h
  exact hinv.torrc

/-- A service with a UUID and a restored service on another port. -/
def separatePorts : List Action :=
  [.create "blog" 8080 80 false, .generateTorrc drawByRow,
    .restore "web.zip" (some (.entry "config.json" (backupConfig 9090 "a.onion") .eof)),
    .generateTorrc drawByRow]

theorem torrc_directories_distinct_separatePorts :
    (((system .v3 flatPlatform appFiles).run (installed (Version.v3.base appFiles))
      separatePorts).torrc.map HiddenService.dirLine).Nodup :=
  torrc_directories_distinct .v3 flatPlatform appFiles _ ⟨separatePorts, by decide +kernel, rfl⟩

/-- Two new services on one port, and a restore for that port before they have a directory. -/
def sharedPort : List Action :=
  [.create "blog" 8080 80 false, .create "wiki" 8080 81 false,
    .restore "web.zip" (some (.entry "config.json" (backupConfig 8080 "a.onion") .eof)),
    .generateTorrc drawByRow]

theorem sharedPort_listsTwice :
    (system .v3 flatPlatform appFiles).Admissible (fun _ _ ↦ True)
        (system .v3 flatPlatform appFiles).init sharedPort ∧
      ¬ (((system .v3 flatPlatform appFiles).run (system .v3 flatPlatform appFiles).init
        sharedPort).torrc.map HiddenService.dirLine).Nodup := by
  decide +kernel

/-- After `sharedPort` both services have the directory of the port. -/
theorem torrc_directories_shared :
    ¬ ∀ (v : Version) (P : Platform) (filesDir : Path) (s : Services),
      (system v P filesDir).Reachable s → (s.torrc.map HiddenService.dirLine).Nodup := by
  intro h
  obtain ⟨hrun, hshared⟩ := sharedPort_listsTwice
  exact hshared (h .v3 flatPlatform appFiles _ ⟨sharedPort, hrun, rfl⟩)

end Orbot.OnionService
