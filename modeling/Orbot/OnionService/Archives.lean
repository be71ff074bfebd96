import Orbot.OnionService.Names

/-!
# Archives of plain files

A backup is an archive of files with plain names. It is made from the directory named after a local
port and from the only row with that port; extracting it into an empty store gives a directory with
the same files, under the name of the archive.
-/

namespace Orbot.OnionService

open Orbot.Foundation

/-- The archive with the given files. -/
def archiveOf : List (String × Bytes) → ZipStream
  | [] => .eof
  | (name, content) :: rest => .entry name content (archiveOf rest)

/-- A file name that stays below its directory. -/
def IsPlainName (name : String) : Prop :=
  name ≠ "" ∧ '/' ∉ name.toList ∧ Path.IsName name ∧ '\x00' ∉ name.toList

instance (name : String) : Decidable (IsPlainName name) :=
  inferInstanceAs (Decidable (_ ∧ _ ∧ _ ∧ _))

theorem IsPlainName.components {name : String} (h : IsPlainName name) :
    components name = [name] :=
  components_of_name h.1 h.2.1

theorem IsPlainName.not_directoryEntry {name : String} (h : IsPlainName name) :
    isDirectoryEntry name = false := by
  rw [isDirectoryEntry, decide_eq_false_iff_not]
  exact fun hlast ↦ h.2.1 (List.mem_of_getLast? hlast)

theorem IsPlainName.isName {name : String} (h : IsPlainName name) : Path.IsName name := h.2.2.1

theorem valid_of_plain {path : List String} (h : ∀ name ∈ path, IsPlainName name) :
    isInvalid path = false := by
  rw [isInvalid, List.any_eq_false]
  intro name hname
  simpa using (h name hname).2.2.2

/-! ## Extracting plain files -/

/-- Plain files with different names are all written into the output directory. -/
theorem extractEntries_archiveOf {base : Path} {stem : String} (hstem : IsPlainName stem)
    (files : List (String × Bytes)) (hplain : ∀ file ∈ files, IsPlainName file.1)
    (hnodup : (files.map Prod.fst).Nodup) (d : Disk Bytes)
    (hdir : d.node (base ++ [stem]) = some .dir)
    (hfree : ∀ file ∈ files, d.node (base ++ [stem, file.1]) ≠ some .dir) :
    ∃ d', extractEntries base [stem] (archiveOf files) d = (d', .complete) ∧
      (∀ file ∈ files, d'.node (base ++ [stem, file.1]) = some (.file file.2)) ∧
      ∀ q, (∀ file ∈ files, q ≠ base ++ [stem, file.1]) → d'.node q = d.node q := by
  induction files generalizing d with
  | nil => exact ⟨d, rfl, by simp, fun _ _ ↦ rfl⟩
  | cons file rest ih =>
    obtain ⟨name, content⟩ := file
    obtain ⟨hfresh, hrest⟩ := List.nodup_cons.mp hnodup
    have hname : IsPlainName name := hplain (name, content) (by simp)
    have hwritable : d.Writable (base ++ [stem, name]) := by
      refine ⟨by simp, ?_, hfree (name, content) (by simp)⟩
      rw [List.append_cons, List.dropLast_concat]
      exact hdir
    have hvalid : isInvalid [stem, name] = false := valid_of_plain (by simp [hstem, hname])
    have hopen : writeFile base [stem, name] content d = some (d.write _ content hwritable) := by
      rw [writeFile, hvalid, if_neg Bool.false_ne_true]
      exact Disk.openAndWrite_names (by simp [hstem.isName, hname.isName]) (by simp) hwritable
    have hother {other : String × Bytes} (hmem : other ∈ rest) : other.1 ≠ name := fun h ↦
      hfresh (List.mem_map.mpr ⟨other, hmem, h⟩)
    obtain ⟨d', hd', hwritten, hkept⟩ := ih (fun f hf ↦ hplain f (by simp [hf])) hrest
      (d.write _ content hwritable) (by
        rw [Disk.node_write, if_neg (fun h ↦ by simpa using congrArg List.length h)]
        exact hdir) (fun f hf ↦ by
        rw [Disk.node_write, if_neg (by simpa using hother hf)]
        exact hfree f (by simp [hf]))
    refine ⟨d', ?_, ?_, ?_⟩
    · rw [archiveOf, extractEntries, hname.not_directoryEntry, if_neg (by simp),
        hname.components]
      simp only [List.cons_append, List.nil_append, hopen]
      exact hd'
    · intro f hf
      rcases List.mem_cons.mp hf with rfl | hmem
      · rw [hkept _ (fun other hmem ↦ by simpa using (hother hmem).symm), Disk.node_write,
          if_pos rfl]
      · exact hwritten f hmem
    · intro q hq
      rw [hkept q (fun f hf ↦ hq f (by simp [hf])), Disk.node_write,
        if_neg (hq (name, content) (by simp))]

/-! ## Extracting into an empty store -/

theorem nameBeforeDot_zip (stem : String) : nameBeforeDot (stem ++ ".zip") = some stem := by
  have hlist : (stem ++ ".zip").toList = stem.toList ++ '.' :: ['z', 'i', 'p'] := by simp
  rw [nameBeforeDot, hlist, lastIndexOf_append (by decide)]
  simp

/-- Nothing is below the base directory after the installation. -/
theorem node_installed (base : Path) :
    (installed base).store.disk.node base = some .dir ∧
      ∀ q, ¬ q <+: base → (installed base).store.disk.node q = none := by
  have hinitial (q : Path) :
      (Disk.initial : Disk Bytes).node q = if q = [] then some .dir else none := by
    by_cases hq : q = []
    · simp [hq]
    · rw [if_neg hq, Disk.node, Disk.initial, List.lookup_cons, beq_false_of_ne hq]
      rfl
  have hcases (q : Path) := (Disk.initial : Disk Bytes).node_mkdirs base q
  constructor
  · rcases (Disk.initial : Disk Bytes).settled_mkdirs base with hdir | ⟨above, -, hfile⟩
    · exact hdir
    · obtain ⟨content, hcontent⟩ := Disk.isFile_iff.mp hfile
      rcases hcases above with hsame | ⟨-, -, hdir⟩
      · rw [hsame, hinitial] at hcontent
        split at hcontent <;> simp at hcontent
      · simp [hdir] at hcontent
  · intro q hq
    have hne : q ≠ [] := by
      rintro rfl
      exact hq List.nil_prefix
    rcases hcases q with hsame | ⟨hunder, -⟩
    · exact hsame.trans (by rw [hinitial, if_neg hne])
    · exact absurd hunder hq

/-- Extracting plain files into an empty base directory. -/
theorem unzip_archiveOf {base : Path} {stem : String} (hstem : IsPlainName stem)
    {files : List (String × Bytes)} (hplain : ∀ file ∈ files, IsPlainName file.1)
    (hnodup : (files.map Prod.fst).Nodup) {d : Disk Bytes} (hbase : d.node base = some .dir)
    (hmissing : ∀ q, ¬ q <+: base → d.node q = none) :
    ∃ d', unzip base [stem] (some (archiveOf files)) d = (d', .complete) ∧
      d'.node (base ++ [stem]) = some .dir ∧
      (∀ file ∈ files, d'.node (base ++ [stem, file.1]) = some (.file file.2)) ∧
      ∀ name, name ≠ stem → d'.node (base ++ [name]) = none := by
  have hbelow (name : String) (rest : List String) : ¬ base ++ name :: rest <+: base := by
    intro hunder
    have := hunder.length_le
    rw [List.length_append, List.length_cons] at this
    omega
  have hfresh : d.node (base ++ [stem]) = none := hmissing _ (hbelow stem [])
  have hmkdirs (q : Path) : (d.mkdirs (base ++ [stem])).node q =
      if q = base ++ [stem] then some .dir else d.node q := by
    rw [Disk.mkdirs_child hbase, if_pos hfresh, Disk.node_mkdir]
    simp [hbase, hfresh]
  have houtput : Path.normalize base [stem] = base ++ [stem] :=
    Path.normalize_names (by simpa using hstem.isName) base
  have hvalid : isInvalid [stem] = false := valid_of_plain (by simpa using hstem)
  obtain ⟨d', hextract, hwritten, hkept⟩ := extractEntries_archiveOf hstem _ hplain hnodup
    (d.mkdirs (base ++ [stem])) (by rw [hmkdirs, if_pos rfl]) (fun file _ ↦ by
      rw [hmkdirs, if_neg (by simp), hmissing _ (hbelow stem [file.1])]
      simp)
  refine ⟨d', ?_, ?_, hwritten, fun name hname ↦ ?_⟩
  · rw [unzip, extractFromZipInputStream, makeDirectories_of_valid hvalid, houtput]
    exact hextract
  · rw [hkept _ (fun _ _ ↦ by simp), hmkdirs, if_pos rfl]
  · rw [hkept _ (fun _ _ ↦ by simp), hmkdirs, if_neg (by simpa using hname),
      hmissing _ (hbelow name [])]

/-- The `config.json` of an extracted directory is read. -/
theorem readConfig_extracted {v : Version} {P : Platform} {base : Path} {stem : String}
    (hstem : IsPlainName stem) {config : Bytes} {savedValues : JsonObject}
    (hparse : P.parseObject (P.decode config) = some savedValues) {d : Disk Bytes}
    (hdir : d.node (base ++ [stem]) = some .dir)
    (hconfig : d.node (base ++ [stem, configFileName]) = some (.file config)) :
    ensureDirectory base [stem] d = d ∧
      readConfig v P base [stem] d = v.savedFields P savedValues := by
  have hexists : (d.node (base ++ [stem])).isSome := by simp [hdir]
  have hwalk : d.walk base [stem] = some (base ++ [stem]) :=
    Disk.walk_names (by simpa using hstem.isName) hexists
  have hnames : ∀ component ∈ [stem, configFileName], Path.IsName component := by
    simp only [List.mem_cons, List.not_mem_nil, or_false, forall_eq_or_imp, forall_eq]
    exact ⟨hstem.isName, by decide⟩
  have hplain : IsPlainName configFileName := by decide
  have hvalid : isInvalid [stem, configFileName] = false :=
    valid_of_plain (by simp [hstem, hplain])
  have hfile : readFile base [stem, configFileName] d = some config := by
    rw [readFile, hvalid, if_neg Bool.false_ne_true, Disk.readFile_names hnames,
      Disk.content_eq_some, hconfig]
  constructor
  · rw [ensureDirectory, hwalk, if_pos (by simpa using hdir)]
  · simp [readConfig, hfile, hparse]

/-! ## Listing a restored row -/

section Addressed

variable {v : Version} {row : Row} (randomUUID : ℕ → Uuid)

/-- A row with an address and no directory name gets the directory of its port. -/
theorem usedName_addressed (hpath : row.columns.filepath = none)
    (hdomain : row.columns.domain ≠ none) :
    usedName v (assignPath v randomUUID row) = some (v.portDir row.columns.port) := by
  rw [usedName_assignPath, if_neg (fun h ↦ hdomain h.2.2)]
  exact usedName_eq_some.mpr (.inr ⟨hpath, hdomain, rfl⟩)

/-- The torrc generated from such a row alone. -/
theorem torrc_addressed (hpath : row.columns.filepath = none)
    (hdomain : row.columns.domain ≠ none) (base : Path) {t : ServiceTable}
    (hrows : t.rows = [row]) :
    (addServicesToTorrc v base randomUUID t).2.map HiddenService.dir =
      if isEnabled (assignPath v randomUUID row) then [base ++ [v.portDir row.columns.port]]
      else [] := by
  have henabled : isEnabled (assignPath v randomUUID row) = isEnabled row := by
    obtain ⟨path, hassigned⟩ := assignPath_columns v randomUUID row
    rw [isEnabled, hassigned]
    rfl
  have hlisted : listedPath v randomUUID row = v.portDir row.columns.port := by
    rw [listedPath, hpath, Option.getD_none, newPath, if_neg hdomain]
  rw [services_addServicesToTorrc, hrows, henabled]
  by_cases hon : isEnabled row = true
  · simp [hon, hiddenService, hlisted]
  · simp [hon]

end Addressed

/-! ## Writing an archive -/

theorem isName_portDir (v : Version) (port : Int32) : Path.IsName (v.portDir port) :=
  isName_dirPrefix

theorem zip_saved_iff {base : Path} {d : Disk Bytes} {files : List (List String)}
    {archive : ZipStream} :
    zip base d true (some files) = .saved archive ↔ zipEntries base d files = some archive := by
  cases h : zipEntries base d files <;> simp [zip, h]

/-- The archived files of a directory. -/
theorem zipEntries_directory {base : Path} {d : Disk Bytes} {dir : String}
    (hdir : Path.IsName dir) {names : List String} (hnames : ∀ name ∈ names, Path.IsName name) :
    zipEntries base d (names.map fun name ↦ [dir, name]) =
      (names.mapM fun name ↦ (d.content (base ++ [dir, name])).map (Prod.mk name)).map
        archiveOf := by
  induction names with
  | nil => rfl
  | cons name rest ih =>
    have hread : d.readFile base [dir, name] = d.content (base ++ [dir, name]) :=
      Disk.readFile_names (by simp [hdir, hnames name])
    rw [List.map_cons, zipEntries, hread, ih fun other hother ↦ hnames other (by simp [hother]),
      List.mapM_cons]
    cases d.content (base ++ [dir, name]) with
    | none => rfl
    | some content =>
      cases rest.mapM fun name ↦ (d.content (base ++ [dir, name])).map (Prod.mk name) <;> rfl

/-- `config.json` is written, and only that, when the port has one row and the file can be
opened. -/
theorem createFilesForZipping_cases (P : Platform) (v : Version) (config : Columns → JsonObject)
    (names : List String) (base : Path) (port : Int32) (s : Store) :
    (∃ row, ∃ h : s.disk.Writable (base ++ [v.portDir port, configFileName]),
      s.table.rows.filter (portIs port) = [row] ∧
      createFilesForZipping P v config names base port s =
        (some (names.map fun name ↦ [v.portDir port, name]),
          { s with disk := s.disk.write _ (P.encode (P.printObject (config row.columns))) h })) ∨
    (¬ (s.disk.Writable (base ++ [v.portDir port, configFileName]) ∧
        ∃ row, s.table.rows.filter (portIs port) = [row]) ∧
      createFilesForZipping P v config names base port s = (none, s)) := by
  have hnames : ∀ component ∈ [v.portDir port, configFileName], Path.IsName component := by
    simp only [List.mem_cons, List.not_mem_nil, or_false, forall_eq_or_imp, forall_eq]
    exact ⟨isName_portDir v port, by decide⟩
  unfold createFilesForZipping
  split
  · next row hrow =>
    by_cases hwritable : s.disk.Writable (base ++ [v.portDir port, configFileName])
    · refine .inl ⟨row, hwritable, hrow, ?_⟩
      rw [Disk.openAndWrite_names hnames (by simp) hwritable]
    · refine .inr ⟨fun h ↦ hwritable h.1, ?_⟩
      split
      · next d' hopen =>
        obtain ⟨h, -⟩ := Disk.openAndWrite_eq_some hopen
        rw [Path.normalize_names hnames] at h
        exact absurd h hwritable
      · rfl
  · next hrows =>
    refine .inr ⟨?_, rfl⟩
    rintro ⟨-, row, hrow⟩
    exact hrows row hrow

/-- A file of an archive: the written `config.json`, or a file of the directory. -/
def archivedFile (P : Platform) (config : JsonObject) (base : Path) (dir : String)
    (d : Disk Bytes) (name : String) : Option (String × Bytes) :=
  if name = configFileName then some (name, P.encode (P.printObject config))
  else (d.content (base ++ [dir, name])).map (Prod.mk name)

/-- A backup that begins with the hostname file is saved when the port has one row, and its
directory the files and room for `config.json`. -/
theorem createFilesForZipping_saved_iff {P : Platform} (v : Version)
    (config : Columns → JsonObject) {names : List String}
    (hnames : ∀ name ∈ hostnameFile :: names, Path.IsName name) {base : Path} {port : Int32}
    {s : Store} {archive : ZipStream} :
    zip base (createFilesForZipping P v config (hostnameFile :: names) base port s).2.disk true
        (createFilesForZipping P v config (hostnameFile :: names) base port s).1 =
          .saved archive ↔
      ∃ row, s.table.rows.filter (portIs port) = [row] ∧
        s.disk.node (base ++ [v.portDir port, configFileName]) ≠ some .dir ∧
        ∃ files, (hostnameFile :: names).mapM
          (archivedFile P (config row.columns) base (v.portDir port) s.disk) = some files ∧
          archiveOf files = archive := by
  rcases createFilesForZipping_cases P v config (hostnameFile :: names) base port s with
    ⟨row, hwritable, hrow, hfiles⟩ | ⟨hnot, hfiles⟩
  · have hcontents : (fun name ↦ ((s.disk.write _ (P.encode (P.printObject (config row.columns)))
        hwritable).content (base ++ [v.portDir port, name])).map (Prod.mk name)) =
          archivedFile P (config row.columns) base (v.portDir port) s.disk := by
      funext name
      rw [archivedFile, Disk.content, Disk.node_write]
      by_cases hname : name = configFileName
      · simp [hname]
      · rw [if_neg (by simpa using hname), if_neg hname, Disk.content]
    rw [hfiles, zip_saved_iff, zipEntries_directory (isName_portDir v port) hnames, hcontents,
      hrow, Option.map_eq_some_iff]
    constructor
    · intro hsome
      exact ⟨row, rfl, hwritable.2.2, hsome⟩
    · rintro ⟨row', hsame, -, hsome⟩
      rwa [List.singleton_inj.mp hsame]
  · rw [hfiles]
    simp only [zip, if_true, reduceCtorEq, false_iff]
    rintro ⟨row, hrow, hconfig, files, hsome, -⟩
    rw [List.mapM_cons, archivedFile, if_neg (by decide)] at hsome
    obtain ⟨file, hfile, -⟩ := Option.bind_eq_some_iff.mp hsome
    obtain ⟨hostname, hhostname, -⟩ := Option.map_eq_some_iff.mp hfile
    refine hnot ⟨⟨by simp, ?_, hconfig⟩, row, hrow⟩
    have hexists : (s.disk.node (base ++ [v.portDir port] ++ [hostnameFile])).isSome := by
      simp [Disk.content_eq_some.mp hhostname]
    rw [List.append_cons, List.dropLast_concat]
    exact Disk.node_parent hexists

end Orbot.OnionService
