import Orbot.OnionService.Extraction
import Orbot.OnionService.Names

/-!
# The addresses of the table and of the disk

The domain of a v3 row and the hostname file in its directory are written by different operations.
They agree along every run in which Tor writes into the directory of an addressed row only that
row's address, and a restore leaves no other address in the directories of the rows it meets.
-/

namespace Orbot.OnionService

open Orbot.Foundation

/-- Where the address of the directory `name` is. -/
def hostnamePath (base : Path) (name : String) : Path := serviceDir base name ++ [hostnameFile]

/-- A hostname file, if there is one, holds the address `domain`. -/
def HoldsAddress (P : Platform) (hostname : Option Bytes) (domain : String) : Prop :=
  ∀ content ∈ hostname, trimmedContent P content = domain

/-- `Q` holds of the directory and the domain of every row with a non-empty domain. -/
def EveryAddress (rows : List Row) (Q : String → String → Prop) : Prop :=
  ∀ row ∈ rows, ∀ name ∈ usedName .v3 row, ∀ domain ∈ row.columns.domain, domain ≠ "" →
    Q name domain

/-- Every row with a non-empty domain has the address that is in its directory, if one is. -/
def AddressesAgree (P : Platform) (base : Path) (s : Store) : Prop :=
  EveryAddress s.table.rows fun name domain ↦
    HoldsAddress P (s.disk.content (hostnamePath base name)) domain

instance (P : Platform) (hostname : Option Bytes) (domain : String) :
    Decidable (HoldsAddress P hostname domain) :=
  inferInstanceAs (Decidable (∀ content ∈ hostname, _))

instance (rows : List Row) (Q : String → String → Prop)
    [∀ name domain, Decidable (Q name domain)] : Decidable (EveryAddress rows Q) :=
  inferInstanceAs (Decidable (∀ row ∈ rows, ∀ name ∈ usedName .v3 row,
    ∀ domain ∈ row.columns.domain, domain ≠ "" → _))

instance (P : Platform) (base : Path) (s : Store) : Decidable (AddressesAgree P base s) :=
  inferInstanceAs (Decidable (EveryAddress _ _))

theorem HoldsAddress.none {P : Platform} {domain : String} : HoldsAddress P none domain :=
  fun _ h ↦ by simp at h

theorem holdsAddress_some {P : Platform} {content : Bytes} {domain : String} :
    HoldsAddress P (some content) domain ↔ trimmedContent P content = domain := by
  simp [HoldsAddress]

/-- When the file that was there agrees, the one that may replace it has to. -/
theorem holdsAddress_or {P : Platform} {written before : Option Bytes} {domain : String}
    (h : HoldsAddress P before domain) :
    HoldsAddress P (written.or before) domain ↔ HoldsAddress P written domain := by
  cases written with
  | none => exact iff_of_true h .none
  | some content => rfl

theorem holdsAddress_unless {P : Platform} {gone : Prop} [Decidable gone]
    {hostname : Option Bytes} {domain : String} :
    HoldsAddress P (if gone then none else hostname) domain ↔
      (¬ gone → HoldsAddress P hostname domain) := by
  split
  · next h => exact iff_of_true .none fun hnot ↦ absurd h hnot
  · next h => rw [forall_prop_of_true h]

theorem EveryAddress.imp {rows rows' : List Row} {Q Q' : String → String → Prop}
    (h : EveryAddress rows Q)
    (hrows : ∀ row' ∈ rows', row'.columns.domain ≠ none → ∃ row ∈ rows,
      row'.columns.domain = row.columns.domain ∧ usedName .v3 row' = usedName .v3 row)
    (himp : ∀ name domain, Q name domain → Q' name domain) : EveryAddress rows' Q' := by
  intro row' hrow' name hname domain hdomain hne
  obtain ⟨row, hrow, hsame, hused⟩ := hrows row' hrow' (by simp [Option.mem_def.mp hdomain])
  exact himp name domain (h row hrow name (hused ▸ hname) domain (hsame ▸ hdomain) hne)

theorem everyAddress_congr {rows : List Row} {Q Q' : String → String → Prop}
    (h : ∀ row ∈ rows, ∀ name, usedName .v3 row = some name → ∀ domain,
      row.columns.domain = some domain → domain ≠ "" → (Q name domain ↔ Q' name domain)) :
    EveryAddress rows Q ↔ EveryAddress rows Q' := by
  refine forall₂_congr fun row hrow ↦ forall₂_congr fun name hname ↦ ?_
  exact forall₃_congr fun domain hdomain hne ↦ h row hrow name hname domain hdomain hne

/-! ## Steps of the table -/

section Table

variable {P : Platform} {base : Path} {s : Store}

/-- A table whose addressed rows all come from addressed rows of the old one. -/
theorem AddressesAgree.rows (h : AddressesAgree P base s) {t' : ServiceTable}
    (hrows : ∀ row' ∈ t'.rows, row'.columns.domain ≠ none → ∃ row ∈ s.table.rows,
      row'.columns.domain = row.columns.domain ∧ usedName .v3 row' = usedName .v3 row) :
    AddressesAgree P base { s with table := t' } :=
  EveryAddress.imp h hrows fun _ _ ↦ id

/-- A new row has no domain. -/
theorem AddressesAgree.insert (h : AddressesAgree P base s) {columns : Columns}
    (hdomain : columns.domain = none) :
    AddressesAgree P base { s with table := s.table.insert columns } := by
  apply h.rows
  rw [Table.forall_mem_insert]
  exact ⟨fun row hrow _ ↦ ⟨row, hrow, rfl, rfl⟩, fun hsome ↦ absurd hdomain hsome⟩

theorem AddressesAgree.toggle (h : AddressesAgree P base s) (id : ℕ) (isChecked : Bool) :
    AddressesAgree P base { s with table := onCheckedChanged id isChecked s.table } := by
  refine h.rows fun row' hrow' _ ↦ ?_
  obtain ⟨row, hrow, -, hcolumns⟩ := Table.evolves_update _ _ row' hrow'
  refine ⟨row, hrow, ?_⟩
  unfold usedName
  rw [hcolumns]
  split <;> exact ⟨rfl, rfl⟩

/-- Only a row without a domain gets another directory name. -/
theorem AddressesAgree.generate (h : AddressesAgree P base s) (randomUUID : ℕ → Uuid) :
    AddressesAgree P base
      { s with table := (addServicesToTorrc .v3 base randomUUID s.table).1 } := by
  refine h.rows fun row' hrow' hsome ↦ ?_
  obtain ⟨row, hrow, rfl⟩ := mem_addServicesToTorrc.mp hrow'
  obtain ⟨path, hcolumns⟩ := assignPath_columns .v3 randomUUID row
  have hdomain : (assignPath .v3 randomUUID row).columns.domain = row.columns.domain := by
    rw [hcolumns]
  rw [hdomain] at hsome
  refine ⟨row, hrow, hdomain, ?_⟩
  rw [usedName_assignPath, if_neg fun hdraws ↦ hsome hdraws.2.2]

/-- The refresh reads the address that it stores. -/
theorem AddressesAgree.refresh (h : AddressesAgree P base s) :
    AddressesAgree P base (updateV3OnionNames P base s) := by
  intro row' hrow' name hname domain hdomain hne
  obtain ⟨row, hrow, -, rfl | ⟨values, hstep, hcolumns⟩⟩ := evolves_updateNames _ _ row' hrow'
  · exact h row' hrow name hname domain hdomain hne
  · obtain ⟨path, content, -, hpath, hcontent, rfl⟩ := v3NameUpdate_eq_set hstep
    have hused : usedName .v3 row' = some path := by
      simp [usedName, hcolumns, ContentValues.apply, hpath]
    obtain rfl : path = name := Option.some_inj.mp (hused.symm.trans hname)
    have hstored : trimmedContent P content = domain := by
      simpa [hcolumns, ContentValues.apply] using hdomain
    intro found hfound
    have hsame : some content = some found :=
      (Disk.content_eq_some.mpr hcontent).symm.trans hfound
    rwa [← Option.some_inj.mp hsame]

theorem AddressesAgree.delete (h : AddressesAgree P base s) (id : ℕ) (port : Int32) :
    AddressesAgree P base (doDelete .v3 base id port s) := by
  refine EveryAddress.imp h (fun row hrow _ ↦ ?_) fun name domain hholds content hcontent ↦ ?_
  · rw [table_doDelete] at hrow
    exact ⟨row, (List.mem_filter.mp hrow).1, rfl, rfl⟩
  · have hne : serviceDir base (Version.v3.portDir port) ≠ [] := by simp
    have hnode := Disk.content_eq_some.mp hcontent
    rw [doDelete, doDeleteV3, node_recursivelyDeleteDirectory _ hne] at hnode
    split at hnode
    · simp at hnode
    · exact hholds content (Disk.content_eq_some.mpr hnode)

end Table

/-! ## Tor -/

/-- A hostname file is not a file of another name. -/
theorem append_hostnameFile_ne {dir dir' : Path} {file : String} (hfile : file ≠ hostnameFile) :
    dir ++ [hostnameFile] ≠ dir' ++ [file] := by
  intro h
  exact hfile (by simpa using (List.append_inj' h rfl).2.symm)

theorem content_eq_of_node {d d' : Disk Bytes} {path path' : Path}
    (h : d'.node path' = d.node path) : d'.content path' = d.content path := by
  rw [Disk.content, Disk.content, h]

theorem content_mkdirs (d : Disk Bytes) (path q : Path) :
    (d.mkdirs path).content q = d.content q := by
  rcases d.node_mkdirs path q with hsame | ⟨-, hnone, hdir⟩
  · exact content_eq_of_node hsame
  · simp [Disk.content, hnone, hdir]

theorem content_writeNew_of_ne {dir q : Path} {d : Disk Bytes} {file : String × Bytes}
    (hname : Path.IsName file.1) (h : q ≠ dir ++ [file.1]) :
    (writeNew dir d file).content q = d.content q := by
  unfold writeNew
  split
  · cases hopen : d.openAndWrite dir [file.1] file.2 with
    | none => rfl
    | some d' =>
      obtain ⟨hwritable, -, rfl⟩ := Disk.openAndWrite_eq_some hopen
      rw [Path.normalize_names (by simpa using hname)] at hwritable
      refine content_eq_of_node ?_
      rw [Option.getD_some, Disk.node_write, if_neg]
      rwa [Path.normalize_names (by simpa using hname)]
  · rfl

/-- In a directory the missing file is written. -/
theorem content_writeNew {dir : Path} {d : Disk Bytes} {file : String × Bytes}
    (hname : Path.IsName file.1) (hdir : d.node dir = some .dir)
    (hmissing : d.node (dir ++ [file.1]) = none) :
    (writeNew dir d file).content (dir ++ [file.1]) = some file.2 := by
  have hwritable : d.Writable (dir ++ [file.1]) :=
    ⟨by simp, by simpa using hdir, by simp [hmissing]⟩
  rw [writeNew, if_pos hmissing,
    Disk.openAndWrite_names (by simpa using hname) (by simp) hwritable, Option.getD_some,
    Disk.content_eq_some, Disk.node_write, if_pos rfl]

/-- The key files leave every hostname file as it is. -/
theorem content_writeKeys {dir dir' : Path} (files : List (String × Bytes))
    (hfiles : ∀ file ∈ files, Path.IsName file.1 ∧ file.1 ≠ hostnameFile) (d : Disk Bytes) :
    (files.foldl (writeNew dir) d).content (dir' ++ [hostnameFile]) =
      d.content (dir' ++ [hostnameFile]) := by
  induction files generalizing d with
  | nil => rfl
  | cons file rest ih =>
    obtain ⟨hname, hne⟩ := hfiles file (by simp)
    rw [List.foldl_cons, ih (fun f hf ↦ hfiles f (by simp [hf])),
      content_writeNew_of_ne hname (append_hostnameFile_ne hne)]

/-- Below a file nothing is written. -/
theorem writeNew_of_isFile {dir : Path} {d : Disk Bytes} (h : d.IsFile dir)
    (file : String × Bytes) : writeNew dir d file = d := by
  have hnot : d.node dir ≠ some .dir := fun hdir ↦ Disk.not_isFile_of_dir hdir h
  unfold writeNew
  rw [Disk.openAndWrite, Disk.walk_name_of_not_dir hnot, Option.bind_none, Option.getD_none,
    ite_self]

/-- `mkdirs` of a missing path in a directory creates it. -/
theorem node_mkdirs_of_parent {dir : Path} {d : Disk Bytes} (hmissing : d.node dir = none)
    (hparent : d.node dir.dropLast = some .dir) : (d.mkdirs dir).node dir = some .dir := by
  obtain rfl | ⟨above, name, rfl⟩ := List.eq_nil_or_concat' dir
  · simp at hmissing
  · rw [List.dropLast_concat] at hparent
    rw [Disk.mkdirs_child hparent, if_pos hmissing, Disk.node_mkdir]
    simp [hparent, hmissing]

/-- Tor writes the address of one directory, unless a file is in the place of the directory. -/
theorem content_writeServiceFiles {dir : Path} {hostname : Bytes} {keys : List Bytes}
    {d : Disk Bytes} (hparent : d.node dir.dropLast = some .dir)
    (hmissing : d.node (dir ++ [hostnameFile]) = none) (dir' : Path) :
    (writeServiceFiles .v3 dir hostname keys d).content (dir' ++ [hostnameFile]) =
      if dir' = dir ∧ ¬ d.IsFile dir then some hostname
      else d.content (dir' ++ [hostnameFile]) := by
  have hkeys : ∀ file ∈ Version.v3.keyFiles.zip keys,
      Path.IsName file.1 ∧ file.1 ≠ hostnameFile := by
    have hnames : ∀ name ∈ Version.v3.keyFiles, Path.IsName name ∧ name ≠ hostnameFile := by
      decide
    exact fun file hfile ↦ hnames file.1 (List.of_mem_zip hfile).1
  have hname : Path.IsName hostnameFile := by decide
  rw [writeServiceFiles, List.foldl_cons, content_writeKeys _ hkeys]
  by_cases hdir' : dir' = dir
  · subst hdir'
    have hwritten (hdir : (d.mkdirs dir').node dir' = some .dir) :
        (writeNew dir' (d.mkdirs dir') (hostnameFile, hostname)).content
          (dir' ++ [hostnameFile]) = some hostname := by
      refine content_writeNew hname hdir ?_
      rcases d.node_mkdirs dir' (dir' ++ [hostnameFile]) with hsame | ⟨hunder, -⟩
      · exact hsame.trans hmissing
      · exact absurd hunder.length_le (by simp)
    rcases d.node_cases dir' with hnone | hdir | hfile
    · rw [hwritten (node_mkdirs_of_parent hnone hparent), if_pos]
      simp [Disk.isFile_iff, hnone]
    · rw [hwritten (by rwa [Disk.mkdirs_of_isDirectory hdir]),
        if_pos ⟨rfl, Disk.not_isFile_of_dir hdir⟩]
    · rw [if_neg fun h ↦ h.2 hfile]
      have hsettled : d.Settled dir' := .inr ⟨dir', by simp [List.mem_inits], hfile⟩
      rw [Disk.mkdirs_of_settled hsettled, writeNew_of_isFile hfile]
  · rw [if_neg fun h ↦ hdir' h.1, content_writeNew_of_ne hname, content_mkdirs]
    exact fun h ↦ hdir' (List.append_cancel_right h)

/-- Tor writes into the directory of an addressed row only the address of the row. -/
def TorWritesOwn (P : Platform) (base dir : Path) (hostname : Bytes) (s : Store) : Prop :=
  ¬ s.disk.IsFile dir → EveryAddress s.table.rows fun name domain ↦
    serviceDir base name = dir → trimmedContent P hostname = domain

theorem addressesAgree_torWrites_iff {P : Platform} {base dir : Path} {hostname : Bytes}
    {keys : List Bytes} {s : Store} (h : AddressesAgree P base s)
    (hparent : s.disk.node dir.dropLast = some .dir)
    (hmissing : s.disk.node (dir ++ [hostnameFile]) = none) :
    AddressesAgree P base
        { s with disk := writeServiceFiles .v3 dir hostname keys s.disk } ↔
      TorWritesOwn P base dir hostname s := by
  have hcontent (dir' : Path) :
      (writeServiceFiles .v3 dir hostname keys s.disk).content (dir' ++ [hostnameFile]) =
        if dir' = dir ∧ ¬ s.disk.IsFile dir then some hostname
        else s.disk.content (dir' ++ [hostnameFile]) :=
    content_writeServiceFiles hparent hmissing dir'
  unfold TorWritesOwn
  by_cases hfile : s.disk.IsFile dir
  · refine iff_of_true ?_ fun hnot ↦ absurd hfile hnot
    refine EveryAddress.imp h (fun row hrow _ ↦ ⟨row, hrow, rfl, rfl⟩) fun name domain hholds ↦ ?_
    rw [hostnamePath, hcontent, if_neg fun h ↦ h.2 hfile]
    exact hholds
  · rw [forall_prop_of_true hfile]
    refine everyAddress_congr fun row hrow name hname domain hdomain hne ↦ ?_
    rw [hostnamePath, hcontent]
    by_cases hdir : serviceDir base name = dir
    · rw [if_pos ⟨hdir, hfile⟩, holdsAddress_some, forall_prop_of_true hdir]
    · rw [if_neg fun h ↦ hdir h.1]
      exact iff_of_true (h row hrow name hname domain hdomain hne) fun h ↦ absurd h hdir

/-! ## The hostname files of an archive -/

/-- After writes a file is the last one written, or the one that was there. -/
theorem content_after {d d' : Disk Bytes} {puts : List (Put Bytes)}
    (hnode : ∀ q, d'.node q = d.nodeAfter puts q) (path : Path) :
    d'.content path = (Put.lastContent path puts).or (d.content path) := by
  have hpath := hnode path
  cases hwritten : Put.lastContent path puts with
  | some content =>
    rw [Disk.nodeAfter_of_written hwritten] at hpath
    rw [Option.some_or, Disk.content_eq_some, hpath]
  | none =>
    rw [Disk.nodeAfter_of_not_written hwritten] at hpath
    rw [Option.none_or]
    split at hpath
    · next hdir =>
      have hnone : d.content path = none := by
        have hnot := (hdir.2 path ((List.mem_inits _ _).mpr List.prefix_rfl)).1
        simpa [Disk.IsFile] using hnot
      rw [hnone, Disk.content, hpath]
    · exact content_eq_of_node hpath

/-- The hostname file of a directory once the archive is extracted: the last one that it writes
there, or the one from before. -/
def extractedHostname (d : Disk Bytes) (puts : List (Put Bytes)) (dir : Path) : Option Bytes :=
  (Put.lastContent (dir ++ [hostnameFile]) puts).or (d.content (dir ++ [hostnameFile]))

/-- The rename takes the path away, or the clean-up after a collision removes it in whatever
order. -/
def TakenAway (base : Path) (dir : List String) (d : Disk Bytes) (puts : List (Put Bytes))
    (port : Int32) (path : Path) : Prop :=
  if CanRename base dir port d puts then Path.normalize base dir <+: path
  else ¬ DependsOnOrder base dir d puts path ∧ CleanedAway base dir d puts path

instance (base : Path) (dir : List String) (d : Disk Bytes) (puts : List (Put Bytes))
    (port : Int32) (path : Path) : Decidable (TakenAway base dir d puts port path) := by
  unfold TakenAway
  infer_instance

/-- The hostname file that is in the directory `name` of a row of the port: when the directory of
the port is renamed from the archive's, that of the archive, else the row's own. -/
def RestoredAddress (P : Platform) (base : Path) (dir : List String) (d : Disk Bytes)
    (puts : List (Put Bytes)) (port : Int32) (name domain : String) : Prop :=
  if CanRename base dir port d puts ∧ name = Version.v3.portDir port then
    HoldsAddress P (extractedHostname d puts (Path.normalize base dir)) domain
  else ¬ TakenAway base dir d puts port (hostnamePath base name) →
    HoldsAddress P (extractedHostname d puts (serviceDir base name)) domain

instance (P : Platform) (base : Path) (dir : List String) (d : Disk Bytes)
    (puts : List (Put Bytes)) (port : Int32) (name domain : String) :
    Decidable (RestoredAddress P base dir d puts port name domain) := by
  unfold RestoredAddress
  infer_instance

/-- The directory names that the rows of the port have once they have an address; without such a
row a new one is inserted. -/
def restoredNames (t : ServiceTable) (port : Int32) : List String :=
  if t.rows.any (portIs port) then
    (t.rows.filter (portIs port)).map fun row ↦
      row.columns.filepath.getD (Version.v3.portDir port)
  else [Version.v3.portDir port]

/-- The archive writes no other address over that of a row it does not restore, and the hostname
file for every row of the restored port holds the restored address. -/
def ConfigAgrees (P : Platform) (base : Path) (dir : List String) (puts : List (Put Bytes))
    (s : Store) : Option (Int32 × ContentValues) → Prop
  | none => EveryAddress s.table.rows fun name domain ↦
      HoldsAddress P (Put.lastContent (hostnamePath base name) puts) domain
  | some (port, fields) =>
      EveryAddress (s.table.rows.filter fun row ↦ !portIs port row) (fun name domain ↦
        ¬ TakenAway base dir s.disk puts port (hostnamePath base name) →
          HoldsAddress P (Put.lastContent (hostnamePath base name) puts) domain) ∧
      ∀ domain ∈ fields.domain, domain ≠ "" → ∀ name ∈ restoredNames s.table port,
        RestoredAddress P base dir s.disk puts port name domain

instance (P : Platform) (base : Path) (dir : List String) (puts : List (Put Bytes)) (s : Store) :
    ∀ config, Decidable (ConfigAgrees P base dir puts s config)
  | none => by unfold ConfigAgrees; infer_instance
  | some (_, _) => by unfold ConfigAgrees; infer_instance

/-- The entries of the archive meet `ConfigAgrees` for the `config.json` that they lead to. -/
def RestoreAgrees (P : Platform) (base : Path) (backupName : String) (archive : Option ZipStream)
    (s : Store) : Prop :=
  ∀ stem ∈ nameBeforeDot backupName,
    ConfigAgrees P base (components stem) (extraction base (components stem) archive s.disk).1 s
      (archivedConfig .v3 P base (components stem) s.disk
        (extraction base (components stem) archive s.disk))

instance (P : Platform) (base : Path) (backupName : String) (archive : Option ZipStream)
    (s : Store) : Decidable (RestoreAgrees P base backupName archive s) :=
  inferInstanceAs (Decidable (∀ stem ∈ nameBeforeDot backupName, _))

section RestoredAddresses

variable {t : ServiceTable} {port : Int32} {fields : ContentValues} {restored : String}
  {Q : String → String → Prop}

theorem everyAddress_append (rows rows' : List Row) :
    EveryAddress (rows ++ rows') Q ↔ EveryAddress rows Q ∧ EveryAddress rows' Q :=
  List.forall_mem_append

/-- A row of the restored port has the restored address, in its own directory or that of the
port. -/
theorem everyAddress_restoredRow_iff (hport : fields.port = some port)
    (hdomain : fields.domain = some restored) (hpath : fields.filepath = none) (row : Row) :
    EveryAddress [{ row with columns := fields.apply row.columns }] Q ↔
      (restored ≠ "" → Q (row.columns.filepath.getD (Version.v3.portDir port)) restored) := by
  have hused : usedName .v3 { row with columns := fields.apply row.columns } =
      some (row.columns.filepath.getD (Version.v3.portDir port)) := by
    unfold usedName
    cases hfilepath : row.columns.filepath <;>
      simp [ContentValues.apply, hpath, hport, hdomain, hfilepath]
  have hcolumns : (fields.apply row.columns).domain = some restored := by
    simp [ContentValues.apply, hdomain]
  simp [EveryAddress, hused, hcolumns]

theorem everyAddress_updateValues_iff (hport : fields.port = some port)
    (hdomain : fields.domain = some restored) (hpath : fields.filepath = none) :
    EveryAddress (updateValues t (portIs port) fields).rows Q ↔
      EveryAddress (t.rows.filter fun row ↦ !portIs port row) Q ∧
        ∀ row ∈ t.rows.filter (portIs port), restored ≠ "" →
          Q (row.columns.filepath.getD (Version.v3.portDir port)) restored := by
  constructor
  · intro h
    constructor
    · intro row hrow
      obtain ⟨hrow, hother⟩ := List.mem_filter.mp hrow
      exact h row (List.mem_map.mpr ⟨row, hrow, if_neg (by simpa using hother)⟩)
    · intro row hrow
      obtain ⟨hrow, hselected⟩ := List.mem_filter.mp hrow
      have hchanged : EveryAddress [{ row with columns := fields.apply row.columns }] Q := by
        intro changed hchanged
        rw [List.mem_singleton.mp hchanged]
        exact h _ (List.mem_map.mpr ⟨row, hrow, if_pos hselected⟩)
      exact (everyAddress_restoredRow_iff hport hdomain hpath row).mp hchanged
  · intro ⟨hothers, hrows⟩ changed hchanged
    obtain ⟨row, hrow, rfl⟩ := List.mem_map.mp hchanged
    by_cases hselected : portIs port row = true
    · have hrestored := hrows row (List.mem_filter.mpr ⟨hrow, hselected⟩)
      rw [if_pos hselected]
      exact (everyAddress_restoredRow_iff hport hdomain hpath row).mpr hrestored _
        (List.mem_singleton_self _)
    · rw [if_neg hselected]
      exact hothers row (List.mem_filter.mpr ⟨hrow, by simpa using hselected⟩)

theorem everyAddress_insertValues_iff (hport : fields.port = some port)
    (hdomain : fields.domain = some restored) (hpath : fields.filepath = none) :
    EveryAddress (insertValues t fields).rows Q ↔
      EveryAddress t.rows Q ∧ (restored ≠ "" → Q (Version.v3.portDir port) restored) := by
  have hnew := everyAddress_restoredRow_iff (Q := Q) hport hdomain hpath ⟨t.nextId, defaultColumns⟩
  exact (everyAddress_append _ _).trans (and_congr_right' hnew)

/-- The addresses after an insertion or update are those of the other rows and the restored one. -/
theorem everyAddress_insertOrUpdate_iff (hport : fields.port = some port)
    (hdomain : fields.domain.isSome) (hpath : fields.filepath = none) :
    EveryAddress (insertOrUpdate t port fields).rows Q ↔
      EveryAddress (t.rows.filter fun row ↦ !portIs port row) Q ∧
        ∀ domain ∈ fields.domain, domain ≠ "" → ∀ name ∈ restoredNames t port, Q name domain := by
  obtain ⟨restored, hrestored⟩ := Option.isSome_iff_exists.mp hdomain
  have hrestoredDomain (domain : String) : domain ∈ fields.domain ↔ restored = domain := by
    rw [hrestored, Option.mem_some_iff]
  unfold insertOrUpdate restoredNames
  simp only [hrestoredDomain, forall_eq']
  split
  · rw [everyAddress_updateValues_iff hport hrestored hpath, List.forall_mem_map]
    exact and_congr_right'
      ⟨fun h hne row hrow ↦ h row hrow hne, fun h row hrow hne ↦ h hne row hrow⟩
  · next hnone =>
    have hall : (t.rows.filter fun row ↦ !portIs port row) = t.rows := by
      apply List.filter_eq_self.mpr
      intro row hrow
      simpa using fun hselected ↦ hnone (List.any_eq_true.mpr ⟨row, hrow, hselected⟩)
    rw [everyAddress_insertValues_iff hport hrestored hpath, hall]
    simp only [List.forall_mem_singleton]

end RestoredAddresses

section Restore

variable {P : Platform} {base : Path} {backupName stem : String} {archive : Option ZipStream}
  {s : Store} {puts : List (Put Bytes)} {port : Int32} {fields : ContentValues}

theorem restoredConfig_withListing (hname : nameBeforeDot backupName = some stem)
    (listing : Listing) (d : Disk Bytes) :
    restoredConfig .v3 (P.withListing listing) base backupName archive d =
      archivedConfig .v3 P base (components stem) d
        (extraction base (components stem) archive d) := by
  rw [restoredConfig_eq .v3 _ base hname]
  rcases extraction base (components stem) archive d with ⟨puts, _ | _ | _⟩ <;> rfl

/-- A restore that does not get to the table only extracts. -/
theorem disk_restore_of_none (hname : nameBeforeDot backupName = some stem)
    (hconfig : archivedConfig .v3 P base (components stem) s.disk
      (extraction base (components stem) archive s.disk) = none) (listing : Listing) (q : Path) :
    (Version.v3.restore (P.withListing listing) base backupName archive s).2.disk.node q =
      s.disk.nodeAfter (extraction base (components stem) archive s.disk).1 q := by
  rcases hextraction : extraction base (components stem) archive s.disk with
    ⟨puts, _ | _ | _⟩
  · rw [hextraction] at hconfig
    obtain ⟨d, hrestore, hnode⟩ := @restore_of_noConfig .v3 (P.withListing listing) base
      backupName stem archive s puts hname hextraction hconfig
    rw [hrestore]
    exact hnode q
  · obtain ⟨d, hrestore, hnode⟩ := @restore_of_failed .v3 (P.withListing listing) base backupName
      stem archive s puts hname hextraction
    rw [hrestore]
    exact hnode q
  · obtain ⟨d, hrestore, hnode⟩ := @restore_of_thrown .v3 (P.withListing listing) base backupName
      stem archive s puts hname hextraction
    rw [hrestore]
    exact hnode q

theorem append_hostnameFile_eq_iff {name other : String} :
    base ++ [name] <+: base ++ [other] ++ [hostnameFile] ↔ other = name := by
  rw [List.append_assoc, List.prefix_append_right_inj]
  simp [eq_comm]

/-- The hostname file in the directory `name` after a restore that gets to the table. -/
def restoredHostname (base : Path) (dir : List String) (d : Disk Bytes)
    (puts : List (Put Bytes)) (port : Int32) (name : String) : Option Bytes :=
  if CanRename base dir port d puts ∧ name = Version.v3.portDir port then
    extractedHostname d puts (Path.normalize base dir)
  else if TakenAway base dir d puts port (hostnamePath base name) then none
  else extractedHostname d puts (serviceDir base name)

/-- After the extraction a hostname file is the extracted one. -/
theorem content_extracted (hextraction : extraction base (components stem) archive s.disk =
    (puts, .complete)) {d : Disk Bytes} {path dir : Path}
    (h : d.node path = s.disk.nodeAfter puts (dir ++ [hostnameFile])) :
    d.content path = extractedHostname s.disk puts dir := by
  obtain ⟨extracted, -, hextracted⟩ := unzip_of_extraction hextraction
  rw [extractedHostname, ← content_after hextracted]
  exact content_eq_of_node (h.trans (hextracted _).symm)

theorem content_restore_renamed (hname : nameBeforeDot backupName = some stem)
    (hextraction : extraction base (components stem) archive s.disk = (puts, .complete))
    (hconfig : savedConfig .v3 P base (components stem) (s.disk.nodeAfter puts) =
      some (port, fields)) (hcan : CanRename base (components stem) port s.disk puts)
    {name : String} (hdir : serviceDir base name = base ++ [name]) (listing : Listing) :
    (Version.v3.restore (P.withListing listing) base backupName archive s).2.disk.content
        (hostnamePath base name) =
      restoredHostname base (components stem) s.disk puts port name := by
  have hnode (dir : Path) : nodeLeft base (components stem) s.disk puts (dir ++ [hostnameFile]) =
      s.disk.nodeAfter puts (dir ++ [hostnameFile]) :=
    if_neg (append_hostnameFile_ne (by decide))
  obtain ⟨d, hrestore, hrenamed⟩ := restoreV3_renames hname hextraction hconfig hcan
  specialize hrenamed (hostnamePath base name)
  simp only [restoredHostname, hrestore, TakenAway, hcan, true_and, if_true]
  rw [hostnamePath, hdir] at hrenamed ⊢
  by_cases hport : name = Version.v3.portDir port
  · subst hport
    rw [if_pos (append_hostnameFile_eq_iff.mpr rfl), List.drop_left' (by simp), hnode]
      at hrenamed
    rw [if_pos rfl]
    exact content_extracted hextraction hrenamed
  · rw [if_neg fun h ↦ hport (append_hostnameFile_eq_iff.mp h), hnode] at hrenamed
    rw [if_neg hport]
    split at hrenamed
    · next hmoved => rw [if_pos hmoved, Disk.content, hrenamed]
    · next hkept =>
      rw [if_neg hkept]
      exact content_extracted hextraction hrenamed

/-- After a collision the hostname file is the one that `restoredHostname` says, but where the order
of the listing matters: then it may be missing. -/
theorem content_restore_collided (hname : nameBeforeDot backupName = some stem)
    (hextraction : extraction base (components stem) archive s.disk = (puts, .complete))
    (hconfig : savedConfig .v3 P base (components stem) (s.disk.nodeAfter puts) =
      some (port, fields)) (hcannot : ¬ CanRename base (components stem) port s.disk puts)
    (name : String) :
    (∀ listing, (Version.v3.restore (P.withListing listing) base backupName archive
        s).2.disk.content (hostnamePath base name) ∈
      [restoredHostname base (components stem) s.disk puts port name, none]) ∧
    ∃ listing, (Version.v3.restore (P.withListing listing) base backupName archive
        s).2.disk.content (hostnamePath base name) =
      restoredHostname base (components stem) s.disk puts port name := by
  simp only [restoredHostname, TakenAway, hcannot, false_and, if_false]
  rw [hostnamePath]
  by_cases horder : DependsOnOrder base (components stem) s.disk puts
    (serviceDir base name ++ [hostnameFile])
  · simp only [horder, not_true_eq_false, false_and, if_false]
    constructor
    · intro listing
      obtain ⟨d, hrestore, hcases, -⟩ := restoreV3_collides hname hextraction hconfig hcannot listing
      rw [hrestore]
      rcases hcases (serviceDir base name ++ [hostnameFile]) with hnone | hsame
      · simp [Disk.content, hnone]
      · simp [content_extracted hextraction hsame]
    · obtain ⟨-, -, ⟨listing, hsame⟩⟩ :=
        restoreV3_dependsOnOrder hname hextraction hconfig hcannot horder
      exact ⟨listing, content_extracted hextraction hsame⟩
  · have hsame (listing : Listing) : (Version.v3.restore (P.withListing listing) base backupName
        archive s).2.disk.content (serviceDir base name ++ [hostnameFile]) =
          if CleanedAway base (components stem) s.disk puts (serviceDir base name ++ [hostnameFile])
          then none else extractedHostname s.disk puts (serviceDir base name) := by
      obtain ⟨d, hrestore, -, hnode⟩ := restoreV3_collides hname hextraction hconfig hcannot listing
      rw [hrestore]
      have hpath := hnode _ horder
      split at hpath
      · next hgone => rw [if_pos hgone, Disk.content, hpath]
      · next hkept =>
        rw [if_neg hkept]
        exact content_extracted hextraction hpath
    simp only [horder, not_false_eq_true, true_and]
    exact ⟨fun listing ↦ by simp [hsame listing], P.listing, hsame P.listing⟩

/-- Over all orders of the listing, an address fits the hostname file of a directory when it fits
the one that `restoredHostname` says. -/
theorem holdsAddress_restore_iff (hname : nameBeforeDot backupName = some stem)
    (hextraction : extraction base (components stem) archive s.disk = (puts, .complete))
    (hconfig : savedConfig .v3 P base (components stem) (s.disk.nodeAfter puts) =
      some (port, fields)) {name : String} (hdir : serviceDir base name = base ++ [name])
    (domain : String) :
    (∀ listing, HoldsAddress P ((Version.v3.restore (P.withListing listing) base backupName archive
        s).2.disk.content (hostnamePath base name)) domain) ↔
      HoldsAddress P (restoredHostname base (components stem) s.disk puts port name) domain := by
  by_cases hcan : CanRename base (components stem) port s.disk puts
  · have hsame := content_restore_renamed hname hextraction hconfig hcan hdir
    refine ⟨fun h ↦ hsame P.listing ▸ h P.listing, fun h listing ↦ ?_⟩
    rwa [hsame]
  · obtain ⟨hcases, listing, hsame⟩ :=
      content_restore_collided hname hextraction hconfig hcan name
    refine ⟨fun h ↦ hsame ▸ h listing, fun h listing ↦ ?_⟩
    have hmem := hcases listing
    simp only [List.mem_cons, List.not_mem_nil, or_false] at hmem
    rcases hmem with hrestored | hnone
    · rwa [hrestored]
    · rw [hnone]
      exact .none

theorem serviceDir_of_mem_restoredNames (hnamed : WellNamed .v3 s.table) {name : String}
    (h : name ∈ restoredNames s.table port) : serviceDir base name = base ++ [name] := by
  unfold restoredNames at h
  split at h
  · obtain ⟨row, hrow, rfl⟩ := List.mem_map.mp h
    have hmem := (List.mem_filter.mp hrow).1
    cases hpath : row.columns.filepath with
    | none => simp
    | some path => exact (hnamed row hmem path hpath).serviceDir base
  · rw [List.mem_singleton.mp h]
    simp

/-- For the rows that a restore leaves alone only what the archive writes matters. -/
theorem configAgrees_iff (hnamed : WellNamed .v3 s.table) (h : AddressesAgree P base s)
    {dir : List String} :
    ConfigAgrees P base dir puts s (some (port, fields)) ↔
      EveryAddress (s.table.rows.filter fun row ↦ !portIs port row) (fun name domain ↦
        HoldsAddress P (restoredHostname base dir s.disk puts port name) domain) ∧
      ∀ domain ∈ fields.domain, domain ≠ "" → ∀ name ∈ restoredNames s.table port,
        HoldsAddress P (restoredHostname base dir s.disk puts port name) domain := by
  refine and_congr ?_ ?_
  · refine everyAddress_congr fun row hrow name hused domain hdomain hne ↦ ?_
    obtain ⟨hrow, hother⟩ := List.mem_filter.mp hrow
    have hservice := hnamed.usedName hrow hused
    have hdiff : name ≠ Version.v3.portDir port := by
      rintro rfl
      simp [portIs, hservice.eq_port] at hother
    rw [restoredHostname, if_neg fun hand ↦ hdiff hand.2, holdsAddress_unless]
    refine imp_congr_right fun _ ↦ ?_
    exact (holdsAddress_or (h row hrow name hused domain hdomain hne)).symm
  · refine forall₂_congr fun domain _ ↦ forall₂_congr fun _ name ↦ forall_congr' fun _ ↦ ?_
    rw [RestoredAddress, restoredHostname]
    split
    · rfl
    · exact holdsAddress_unless.symm

/-- A restore of a configuration keeps table and disk in agreement, in whatever order directories
are listed, when its entries agree. -/
theorem addressesAgree_restore_config (hnamed : WellNamed .v3 s.table)
    (h : AddressesAgree P base s) (hname : nameBeforeDot backupName = some stem)
    (hextraction : extraction base (components stem) archive s.disk = (puts, .complete))
    (hconfig : savedConfig .v3 P base (components stem) (s.disk.nodeAfter puts) =
      some (port, fields)) :
    (∀ listing, AddressesAgree P base
        (Version.v3.restore (P.withListing listing) base backupName archive s).2) ↔
      ConfigAgrees P base (components stem) puts s (some (port, fields)) := by
  have hrestored (listing : Listing) : restoredConfig .v3 (P.withListing listing) base backupName
      archive s.disk = some (port, fields) := by
    rw [restoredConfig_withListing hname, hextraction]
    exact hconfig
  obtain ⟨hport, hdomain, hpath⟩ := restoredConfig_spec (hrestored P.listing)
  have hagrees (listing : Listing) : AddressesAgree P base
      (Version.v3.restore (P.withListing listing) base backupName archive s).2 ↔
        EveryAddress (s.table.rows.filter fun row ↦ !portIs port row) (fun name domain ↦
          HoldsAddress P ((Version.v3.restore (P.withListing listing) base backupName archive
            s).2.disk.content (hostnamePath base name)) domain) ∧
        ∀ domain ∈ fields.domain, domain ≠ "" → ∀ name ∈ restoredNames s.table port,
          HoldsAddress P ((Version.v3.restore (P.withListing listing) base backupName archive
            s).2.disk.content (hostnamePath base name)) domain := by
    have htable := table_restore .v3 (P.withListing listing) base backupName archive s
    rw [hrestored listing] at htable
    rw [AddressesAgree, htable]
    exact everyAddress_insertOrUpdate_iff hport hdomain hpath
  have hiff {name : String} (hdir : serviceDir base name = base ++ [name]) (domain : String) :=
    holdsAddress_restore_iff hname hextraction hconfig hdir domain
  have hothers {row : Row} (hrow : row ∈ s.table.rows.filter fun row ↦ !portIs port row)
      {name : String} (hused : usedName .v3 row = some name) :
      serviceDir base name = base ++ [name] :=
    (hnamed.usedName (List.mem_filter.mp hrow).1 hused).serviceDir base
  simp only [hagrees, configAgrees_iff hnamed h, forall_and]
  refine and_congr ?_ ?_
  · constructor
    · intro hrows row hrow name hused domain hdomain hne
      exact (hiff (hothers hrow hused) domain).mp fun listing ↦
        hrows listing row hrow name hused domain hdomain hne
    · intro hrows listing row hrow name hused domain hdomain hne
      exact (hiff (hothers hrow hused) domain).mpr
        (hrows row hrow name hused domain hdomain hne) listing
  · constructor
    · intro hrows domain hdomain hne name hmem
      exact (hiff (serviceDir_of_mem_restoredNames hnamed hmem) domain).mp fun listing ↦
        hrows listing domain hdomain hne name hmem
    · intro hrows listing domain hdomain hne name hmem
      exact (hiff (serviceDir_of_mem_restoredNames hnamed hmem) domain).mpr
        (hrows domain hdomain hne name hmem) listing

/-- A restore keeps table and disk in agreement, in whatever order directories are listed, exactly
when its archive agrees with the rows. -/
theorem addressesAgree_restore_iff (hnamed : WellNamed .v3 s.table) (h : AddressesAgree P base s)
    (backupName : String) (archive : Option ZipStream) :
    (∀ listing, AddressesAgree P base
        (Version.v3.restore (P.withListing listing) base backupName archive s).2) ↔
      RestoreAgrees P base backupName archive s := by
  unfold RestoreAgrees
  cases hname : nameBeforeDot backupName with
  | none =>
    simp only [restore_of_noDot hname, Option.mem_def, reduceCtorEq, false_implies, implies_true,
      iff_true]
    exact fun _ ↦ h
  | some stem =>
    simp only [Option.mem_def, Option.some_inj, forall_eq']
    cases hconfig : archivedConfig .v3 P base (components stem) s.disk
      (extraction base (components stem) archive s.disk) with
    | none =>
      have hiff (listing : Listing) : AddressesAgree P base
          (Version.v3.restore (P.withListing listing) base backupName archive s).2 ↔
            ConfigAgrees P base (components stem)
              (extraction base (components stem) archive s.disk).1 s none := by
        have htable := table_restore .v3 (P.withListing listing) base backupName archive s
        rw [restoredConfig_withListing hname, hconfig] at htable
        rw [AddressesAgree, htable, ConfigAgrees]
        refine everyAddress_congr fun row hrow name hused domain hdomain hne ↦ ?_
        rw [content_after (disk_restore_of_none hname hconfig listing)]
        exact holdsAddress_or (h row hrow name hused domain hdomain hne)
      exact ⟨fun h ↦ (hiff P.listing).mp (h P.listing), fun h listing ↦ (hiff listing).mpr h⟩
    | some config =>
      obtain ⟨port, fields⟩ := config
      rcases hextraction : extraction base (components stem) archive s.disk with
        ⟨puts, _ | _ | _⟩
      · rw [hextraction] at hconfig
        exact addressesAgree_restore_config hnamed h hname hextraction hconfig
      · simp [hextraction, archivedConfig] at hconfig
      · simp [hextraction, archivedConfig] at hconfig

end Restore

/-! ## Runs -/

/-- The two conditions on a step: what Tor writes, and what a restore brings. -/
def KeepsAddresses (P : Platform) (base : Path) (s : Services) : Action → Prop
  | .torWrites dir hostname _ => TorWritesOwn P base dir hostname s.store
  | .restore backupName archive => RestoreAgrees P base backupName archive s.store
  | _ => True

instance (P : Platform) (base : Path) (s : Services) :
    ∀ action, Decidable (KeepsAddresses P base s action)
  | .torWrites _ _ _ => by unfold KeepsAddresses TorWritesOwn; infer_instance
  | .restore _ _ => by unfold KeepsAddresses; infer_instance
  | .create _ _ _ _ | .appRequest _ _ _ | .appRequestV2 _ _ _ _ _ | .toggle _ _
  | .generateTorrc _ | .refreshNames | .delete _ => inferInstanceAs (Decidable True)

/-- A step keeps the agreement, in whatever order directories are listed, if and only if it meets
the conditions. -/
theorem addressesAgree_next_iff {P : Platform} {base : Path} {s : Services} {action : Action}
    (hnamed : WellNamed .v3 s.store.table) (h : AddressesAgree P base s.store)
    (henabled : Enabled .v3 base s action) :
    (∀ listing, AddressesAgree P base (next .v3 (P.withListing listing) base s action).store) ↔
      KeepsAddresses P base s action := by
  cases action with
  | create name localPort onionPort authCookie =>
    exact iff_of_true (fun _ ↦ h.insert rfl) trivial
  | appRequest localPort onionPort name => exact iff_of_true (fun _ ↦ h.insert rfl) trivial
  | appRequestV2 hsName hsPort hsRemotePort hsKey authCookie => simp [Enabled] at henabled
  | toggle id isChecked => exact iff_of_true (fun _ ↦ h.toggle id isChecked) trivial
  | generateTorrc randomUUID => exact iff_of_true (fun _ ↦ h.generate randomUUID) trivial
  | torWrites dir hostname keys =>
    obtain ⟨-, hparent, hmissing⟩ := henabled
    have hiff := @addressesAgree_torWrites_iff P base dir hostname keys s.store h hparent hmissing
    exact ⟨fun hall ↦ hiff.mp (hall P.listing), fun hown _ ↦ hiff.mpr hown⟩
  | refreshNames => exact iff_of_true (fun _ ↦ h.refresh) trivial
  | restore backupName archive => exact addressesAgree_restore_iff hnamed h backupName archive
  | delete row => exact iff_of_true (fun _ ↦ h.delete row.id row.columns.port) trivial

/-- In every run whose steps meet the two conditions the addresses of the table agree with those
on the disk. -/
theorem addresses_agree (P : Platform) (filesDir : Path) (s : Services)
    (h : (system .v3 P filesDir).ReachableBy
      (KeepsAddresses P (Version.v3.base filesDir)) s) :
    AddressesAgree P (Version.v3.base filesDir) s.store := by
  have hinv : WellNamed .v3 s.store.table ∧
      AddressesAgree P (Version.v3.base filesDir) s.store := by
    refine (system .v3 P filesDir).invariant_of_reachableBy
      (fun s ↦ WellNamed .v3 s.store.table ∧
        AddressesAgree P (Version.v3.base filesDir) s.store) ?_ ?_ h
    · constructor <;> intro row hrow <;> simp [system, installed] at hrow
    · rintro state action ⟨hnamed, hagree⟩ henabled hok
      exact ⟨wellNamed_next hnamed, (addressesAgree_next_iff hnamed hagree henabled).mpr hok P.listing⟩
  exact hinv.2

theorem addresses_agree_restoredService :
    AddressesAgree flatPlatform (Version.v3.base appFiles)
      ((system .v3 flatPlatform appFiles).run (installed (Version.v3.base appFiles))
        restoredService).store :=
  addresses_agree flatPlatform appFiles _ ⟨restoredService, by decide +kernel, rfl⟩

/-- A service of the app whose port is restored with the address of another service. -/
def restoredOverCreated : List Action :=
  createdService ++ [.restore "web.zip"
    (some (.entry configFileName (backupConfig 8080 "b.onion") .eof))]

theorem restoredOverCreated_disagrees :
    (system .v3 flatPlatform appFiles).Admissible (fun _ _ ↦ True)
        (system .v3 flatPlatform appFiles).init restoredOverCreated ∧
      ¬ AddressesAgree flatPlatform (Version.v3.base appFiles)
        ((system .v3 flatPlatform appFiles).run (system .v3 flatPlatform appFiles).init
          restoredOverCreated).store := by
  decide +kernel

/-- The restored address is in the row, the old one in its directory. -/
theorem addresses_disagree :
    ¬ ∀ (P : Platform) (filesDir : Path) (s : Services), (system .v3 P filesDir).Reachable s →
      AddressesAgree P (Version.v3.base filesDir) s.store := by
  intro h
  obtain ⟨hrun, hdisagree⟩ := restoredOverCreated_disagrees
  exact hdisagree (h flatPlatform appFiles _ ⟨restoredOverCreated, hrun, rfl⟩)

end Orbot.OnionService
