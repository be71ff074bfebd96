import Orbot.Foundation.DiskWrites
import Orbot.OnionService.Backup

/-!
# What a restore extracts

The entries that an extraction gets to, told from the archive and the disk before it: all of them,
or those before the first file that cannot be opened. From them follow the configuration that is
read, whether the extracted directory can be renamed, and what the clean-up after a collision
removes.
-/

namespace Orbot.OnionService

open Orbot.Foundation

/-! ## The writes of an archive -/

/-- A file can be opened for writing where paths lead to what `node` says. -/
def CanOpen (node : Path → Option (Node Bytes)) (base : Path) (path : List String) : Prop :=
  isInvalid path = false ∧ Disk.LeadsOver node base path ∧ Path.normalize base path ≠ [] ∧
    node (Path.normalize base path).dropLast = some .dir ∧
    node (Path.normalize base path) ≠ some .dir

instance (node : Path → Option (Node Bytes)) (base : Path) (path : List String) :
    Decidable (CanOpen node base path) :=
  inferInstanceAs (Decidable (_ ∧ _ ∧ _ ∧ _ ∧ _))

/-- The directory that is asked for, if the path is valid. -/
def directoryPut (base : Path) (path : List String) : List (Put Bytes) :=
  if isInvalid path then [] else [.dir (Path.normalize base path)]

/-- The writes of the entries after those in `puts`, and how the loop ends: at the first file that
cannot be opened after the writes before it, or with the archive. -/
def entryPuts (base : Path) (output : List String) (d : Disk Bytes) :
    ZipStream → List (Put Bytes) → List (Put Bytes) × Extraction
  | .eof, puts => (puts, .complete)
  | .broken, puts => (puts, .failed)
  | .undecodable, puts => (puts, .thrown)
  | .entry name content rest, puts =>
      if isDirectoryEntry name then
        entryPuts base output d rest (directoryPut base (output ++ components name) ++ puts)
      else if CanOpen (d.nodeAfter puts) base (output ++ components name) then
        entryPuts base output d rest (.file (entryPath base output name) content :: puts)
      else (puts, .failed)
  | .brokenEntry name blocks, puts =>
      if isDirectoryEntry name then
        (directoryPut base (output ++ components name) ++ puts, .failed)
      else if CanOpen (d.nodeAfter puts) base (output ++ components name) then
        (.file (entryPath base output name) blocks :: puts, .failed)
      else (puts, .failed)

/-- The writes of an extraction, newest first, and how it ends. -/
def extraction (base : Path) (output : List String) (archive : Option ZipStream)
    (d : Disk Bytes) : List (Put Bytes) × Extraction :=
  match archive with
  | some zis => entryPuts base output d zis (directoryPut base output)
  | none => ([], .failed)

section Writes

variable {base : Path} {output : List String} {d d' : Disk Bytes} {puts : List (Put Bytes)}

theorem makeDirectories_after {path : List String} (h : d.putAll puts = some d') :
    d.putAll (directoryPut base path ++ puts) = some (makeDirectories base path d') := by
  unfold directoryPut makeDirectories
  split
  · exact h
  · exact Option.bind_eq_some_iff.mpr ⟨d', h, rfl⟩

/-- A file is opened on a disk when its path is valid, can be resolved and leads to no directory
in a directory. -/
theorem writeFile_isSome_iff {path : List String} {content : Bytes} :
    (writeFile base path content d).isSome ↔ CanOpen d.node base path := by
  unfold writeFile CanOpen
  split
  · next hinvalid => simp [hinvalid]
  · next hvalid =>
    rw [and_iff_right (by simpa using hvalid), Option.isSome_iff_exists]
    constructor
    · rintro ⟨d', hopen⟩
      obtain ⟨hwritable, hwalk, -⟩ := Disk.openAndWrite_eq_some hopen
      exact ⟨(Disk.walk_eq_some_iff.mp hwalk).1, hwritable⟩
    · rintro ⟨hleads, hplace⟩
      have hwritable : d.Writable (Path.normalize base path) := hplace
      refine ⟨d.write _ content hwritable, ?_⟩
      rw [Disk.openAndWrite, Disk.walk_eq_some_iff.mpr ⟨hleads, rfl⟩, Option.bind_some,
        dif_pos hwritable]

theorem writeFile_after {path : List String} {content : Bytes} (h : d.putAll puts = some d')
    (hopen : CanOpen (d.nodeAfter puts) base path) :
    ∃ written, writeFile base path content d' = some written ∧
      d.putAll (.file (Path.normalize base path) content :: puts) = some written := by
  rw [← funext (Disk.node_putAll h)] at hopen
  obtain ⟨written, hwritten⟩ :=
    Option.isSome_iff_exists.mp (writeFile_isSome_iff.mpr hopen)
  refine ⟨written, hwritten, Option.bind_eq_some_iff.mpr ⟨d', h, ?_⟩⟩
  obtain ⟨-, hwritable, -, rfl⟩ := writeFile_eq_some hwritten
  exact dif_pos hwritable

theorem writeFile_refused {path : List String} (content : Bytes) (h : d.putAll puts = some d')
    (hclosed : ¬ CanOpen (d.nodeAfter puts) base path) :
    writeFile base path content d' = none := by
  rw [← funext (Disk.node_putAll h), ← @writeFile_isSome_iff base d' path content] at hclosed
  simpa using hclosed

/-- The loop carries out the writes of the entries. -/
theorem extractEntries_eq (zis : ZipStream) (h : d.putAll puts = some d') :
    ∃ d'', extractEntries base output zis d' = (d'', (entryPuts base output d zis puts).2) ∧
      d.putAll (entryPuts base output d zis puts).1 = some d'' := by
  induction zis generalizing d' puts with
  | eof => exact ⟨d', rfl, h⟩
  | broken => exact ⟨d', rfl, h⟩
  | undecodable => exact ⟨d', rfl, h⟩
  | entry name content rest ih =>
    rw [extractEntries, entryPuts]
    split
    · exact ih (makeDirectories_after h)
    · by_cases hopen : CanOpen (d.nodeAfter puts) base (output ++ components name)
      · obtain ⟨written, hwritten, hputs⟩ := @writeFile_after base d d' puts _ content h hopen
        rw [if_pos hopen, hwritten]
        exact ih hputs
      · rw [if_neg hopen, writeFile_refused content h hopen]
        exact ⟨d', rfl, h⟩
  | brokenEntry name blocks =>
    rw [extractEntries, entryPuts]
    split
    · exact ⟨_, rfl, makeDirectories_after h⟩
    · by_cases hopen : CanOpen (d.nodeAfter puts) base (output ++ components name)
      · obtain ⟨written, hwritten, hputs⟩ := @writeFile_after base d d' puts _ blocks h hopen
        rw [if_pos hopen, hwritten]
        exact ⟨written, rfl, hputs⟩
      · rw [if_neg hopen, writeFile_refused blocks h hopen]
        exact ⟨d', rfl, h⟩

/-- An extraction carries out its writes, and ends as they say. -/
theorem unzip_eq (base : Path) (output : List String) (archive : Option ZipStream)
    (d : Disk Bytes) :
    ∃ d', unzip base output archive d = (d', (extraction base output archive d).2) ∧
      d.putAll (extraction base output archive d).1 = some d' := by
  cases archive with
  | none => exact ⟨d, rfl, rfl⟩
  | some zis =>
    have houtput : d.putAll (directoryPut base output) = some (makeDirectories base output d) := by
      have hmade := @makeDirectories_after base d d [] output rfl
      rwa [List.append_nil] at hmade
    obtain ⟨d', hunzip, hputs⟩ := extractEntries_eq zis houtput
    exact ⟨d', hunzip, hputs⟩

end Writes

/-! ## The configuration -/

/-- What `config.json` says where paths lead to what `node` says. -/
def savedConfig (v : Version) (P : Platform) (base : Path) (dir : List String)
    (node : Path → Option (Node Bytes)) : Option (Int32 × ContentValues) :=
  if isInvalid (dir ++ [configFileName]) = false ∧
      Disk.LeadsOver node base (dir ++ [configFileName]) then
    match node (Path.normalize base (dir ++ [configFileName])) with
    | some (.file content) => (P.parseObject (P.decode content)).bind (v.savedFields P)
    | _ => none
  else none

theorem readConfig_eq (v : Version) (P : Platform) (base : Path) (dir : List String)
    (d : Disk Bytes) : readConfig v P base dir d = savedConfig v P base dir d.node := by
  rw [readConfig, savedConfig, readFile]
  cases hinvalid : isInvalid (dir ++ [configFileName]) with
  | true => simp
  | false =>
    rw [if_neg Bool.false_ne_true, Disk.readFile]
    by_cases hleads : Disk.LeadsOver d.node base (dir ++ [configFileName])
    · rw [if_pos ⟨rfl, hleads⟩, Disk.walk_eq_some_iff.mpr ⟨hleads, rfl⟩, Option.bind_some,
        Disk.content]
      cases d.node (Path.normalize base (dir ++ [configFileName])) with
      | none => rfl
      | some found => cases found <;> rfl
    · have hwalk : d.walk base (dir ++ [configFileName]) = none := by
        by_contra hsome
        obtain ⟨found, hfound⟩ := Option.ne_none_iff_exists'.mp hsome
        exact hleads (Disk.walk_eq_some_iff.mp hfound).1
      rw [if_neg fun h ↦ hleads h.2, hwalk]
      rfl

/-- The configuration that an archive restores, if it is extracted to its end. -/
def archivedConfig (v : Version) (P : Platform) (base : Path) (dir : List String)
    (d : Disk Bytes) : List (Put Bytes) × Extraction → Option (Int32 × ContentValues)
  | (puts, .complete) => savedConfig v P base dir (d.nodeAfter puts)
  | (_, .failed) | (_, .thrown) => none

/-- A configuration is read from what the archive was extracted to. -/
theorem restoredConfig_eq (v : Version) (P : Platform) (base : Path) {backupName stem : String}
    (hname : nameBeforeDot backupName = some stem) (archive : Option ZipStream)
    (d : Disk Bytes) :
    restoredConfig v P base backupName archive d =
      archivedConfig v P base (components stem) d
        (extraction base (components stem) archive d) := by
  simp only [restoredConfig, hname, Option.bind_eq_bind, Option.bind_some]
  obtain ⟨d', hunzip, hputs⟩ := unzip_eq base (components stem) archive d
  have hnode := Disk.node_putAll hputs
  rw [hunzip]
  rcases hextraction : extraction base (components stem) archive d with ⟨puts, _ | _ | _⟩
  · rw [hextraction] at hunzip
    simp only [ensureDirectory_unzipped hunzip, archivedConfig, readConfig_eq]
    rw [funext hnode, hextraction]
  · rfl
  · rfl

/-! ## Renaming the extracted directory -/

/-- The directory `dir` can be renamed to that of the port after the writes: it is that directory,
or there is nothing but perhaps an empty directory in its place. -/
def CanRename (base : Path) (dir : List String) (port : Int32) (d : Disk Bytes)
    (puts : List (Put Bytes)) : Prop :=
  Disk.EndsInName dir ∧
    (Path.normalize base dir = base ++ [Version.v3.portDir port] ∨
      ¬ Path.normalize base dir <+: base ++ [Version.v3.portDir port] ∧
        d.nodeAfter puts base = some .dir ∧
        (d.nodeAfter puts (base ++ [Version.v3.portDir port]) = none ∨
          d.nodeAfter puts (base ++ [Version.v3.portDir port]) = some .dir ∧
            d.namesAfter puts (base ++ [Version.v3.portDir port]) = []))

instance (base : Path) (dir : List String) (port : Int32) (d : Disk Bytes)
    (puts : List (Put Bytes)) : Decidable (CanRename base dir port d puts) :=
  inferInstanceAs (Decidable (_ ∧ (_ ∨ _ ∧ _ ∧ (_ ∨ _ ∧ _))))

section TakeOver

variable {v : Version} {P : Platform} {base : Path} {dir : List String} {d d' : Disk Bytes}
  {puts : List (Put Bytes)} {config : Int32 × ContentValues}

theorem listFiles_eq_nil_after (hnode : ∀ q, d'.node q = d.nodeAfter puts q) (path : Path) :
    d'.listFiles path = [] ↔ d.namesAfter puts path = [] := by
  simp only [Disk.listFiles_eq_nil, Disk.namesAfter_eq_nil, hnode]

/-- Without `config.json` the extracted directory is renamed when it can be. -/
theorem renameAt_isSome_iff (hnode : ∀ q, d'.node q = d.nodeAfter puts q)
    (h : readConfig v P base dir d' = some config) (port : Int32) :
    ((withoutConfig base dir d').renameAt base dir
        (base ++ [Version.v3.portDir port])).isSome ↔ CanRename base dir port d puts := by
  have hconfig := node_withoutConfig h
  have hdir : (withoutConfig base dir d').node (Path.normalize base dir) = some .dir := by
    rw [hconfig, if_neg (by simp)]
    exact (readConfig_spec h).2.1
  unfold CanRename Disk.renameAt
  by_cases hends : Disk.EndsInName dir
  · rw [if_pos hends, and_iff_right hends, walk_withoutConfig h, Option.bind_some, Disk.renameTo]
    by_cases hself : Path.normalize base dir = base ++ [Version.v3.portDir port]
    · rw [if_pos ⟨hdir, hself⟩]
      exact iff_of_true rfl (.inl hself)
    · rw [if_neg fun h ↦ hself h.2, or_iff_right hself]
      have hmovable : (withoutConfig base dir d').Movable (Path.normalize base dir)
          (base ++ [Version.v3.portDir port]) ↔
            ¬ Path.normalize base dir <+: base ++ [Version.v3.portDir port] ∧
              d.nodeAfter puts base = some .dir ∧
              (d.nodeAfter puts (base ++ [Version.v3.portDir port]) = none ∨
                d.nodeAfter puts (base ++ [Version.v3.portDir port]) = some .dir ∧
                  d.namesAfter puts (base ++ [Version.v3.portDir port]) = []) := by
        rw [Disk.Movable, and_iff_right hdir, List.dropLast_concat]
        refine and_congr_right fun houtside ↦ ?_
        have hbase : base ≠ Path.normalize base dir ++ [configFileName] := by
          intro h
          have hunder : Path.normalize base dir <+: base := ⟨[configFileName], h.symm⟩
          exact houtside (hunder.trans (List.prefix_append _ _))
        have htarget : base ++ [Version.v3.portDir port] ≠
            Path.normalize base dir ++ [configFileName] := fun h ↦
          houtside ⟨[configFileName], h.symm⟩
        have hempty : (withoutConfig base dir d').listFiles (base ++ [Version.v3.portDir port]) =
            [] ↔ d'.listFiles (base ++ [Version.v3.portDir port]) = [] := by
          refine Disk.listFiles_congr_nil fun name ↦ ?_
          rw [hconfig, if_neg]
          intro h
          exact hself (List.append_inj' h rfl).1.symm
        rw [and_iff_right (by simp), hconfig, if_neg hbase, hconfig, if_neg htarget, hempty,
          listFiles_eq_nil_after hnode, hnode, hnode]
      rw [← hmovable]
      split
      · next hmoves => exact iff_of_true rfl hmoves
      · next hmoves => exact iff_of_false (by simp) hmoves
  · rw [if_neg hends]
    exact iff_of_false (by simp) fun h ↦ hends h.1

end TakeOver

/-! ## The clean-up after a collision -/

section CleanUp

variable {base : Path} {dir : List String} {d : Disk Bytes}

/-- Removing `name` from the directory takes away a directory that `dir` leads over. -/
def CutsPath (base : Path) (dir : List String) (d : Disk Bytes) (name : String) : Prop :=
  Path.IsName name ∧ d.listFiles (Path.normalize base dir ++ [name]) = [] ∧
    ∃ front ∈ dir.inits, Path.normalize base front = Path.normalize base dir ++ [name]

instance (base : Path) (dir : List String) (d : Disk Bytes) (name : String) :
    Decidable (CutsPath base dir d name) :=
  inferInstanceAs (Decidable (_ ∧ _ ∧ ∃ front ∈ dir.inits, _))

/-- While the directory is found, a name in it is deleted. -/
theorem deleteAt_name {name : String} (hname : Path.IsName name)
    (hwalk : d.walk base dir = some (Path.normalize base dir))
    (hdir : d.node (Path.normalize base dir) = some .dir) :
    d.deleteAt base (dir ++ [name]) = d.delete (Path.normalize base dir ++ [name]) := by
  have hends : Disk.EndsInName (dir ++ [name]) := by
    intro last hlast
    rw [List.getLast?_concat] at hlast
    exact Option.some_inj.mp hlast ▸ hname
  rw [Disk.deleteAt, if_pos hends, Disk.walk_append, hwalk, Option.bind_some,
    Disk.walk_name hname hdir]

/-- The directory is still found after a deletion that cuts no path. -/
theorem walk_delete {name : String} (hname : Path.IsName name)
    (hwalk : d.walk base dir = some (Path.normalize base dir))
    (hspares : ¬ CutsPath base dir d name) :
    (d.delete (Path.normalize base dir ++ [name])).walk base dir =
      some (Path.normalize base dir) := by
  refine Disk.walk_eq_some_iff.mpr ⟨fun front hfront hne ↦ ?_, rfl⟩
  rw [Disk.node_delete, if_neg]
  · exact (Disk.walk_eq_some_iff.mp hwalk).1 front hfront hne
  · rintro ⟨hpath, -, hempty⟩
    exact hspares ⟨hname, hempty, front, hfront, hpath⟩

/-- After a deletion that cuts the path the directory is not found. -/
theorem walk_delete_cut {name : String} (hcuts : CutsPath base dir d name) :
    (d.delete (Path.normalize base dir ++ [name])).walk base dir = none := by
  obtain ⟨-, hempty, front, hfront, hpath⟩ := hcuts
  by_contra hsome
  obtain ⟨found, hfound⟩ := Option.ne_none_iff_exists'.mp hsome
  have hne : front ≠ dir := by
    rintro rfl
    simpa using congrArg List.length hpath
  have hleads := (Disk.walk_eq_some_iff.mp hfound).1 front hfront hne
  rw [Disk.node_delete, if_pos ⟨hpath, by simp, hempty⟩] at hleads
  simp at hleads

/-- A directory that is not found is not cleaned up. -/
theorem cleanUp_of_lost (names : List String) (h : d.walk base dir = none) :
    cleanUp base dir names d = d := by
  have hrefused (path : List String) (hwalk : d.walk base path = none) :
      d.deleteAt base path = d := by
    rw [Disk.deleteAt, hwalk, ite_self]
  induction names with
  | nil => exact hrefused dir h
  | cons name rest ih =>
    rw [cleanUp, hrefused _ (by rw [Disk.walk_append, h, Option.bind_none])]
    exact ih

/-- While no path is cut, the clean-up deletes the names in the directory. -/
theorem cleanUp_append (names more : List String)
    (hwalk : d.walk base dir = some (Path.normalize base dir))
    (hdir : d.node (Path.normalize base dir) = some .dir)
    (hspares : ∀ name ∈ names, ¬ CutsPath base dir d name) :
    cleanUp base dir (names ++ more) d = cleanUp base dir more
        (d.deleteAll (Path.normalize base dir) (names.filter (Path.IsName ·))) ∧
      (d.deleteAll (Path.normalize base dir) (names.filter (Path.IsName ·))).walk base dir =
        some (Path.normalize base dir) := by
  induction names generalizing d with
  | nil => exact ⟨rfl, hwalk⟩
  | cons name rest ih =>
    rw [List.cons_append, cleanUp]
    by_cases hname : Path.IsName name
    · rw [deleteAt_name hname hwalk hdir, List.filter_cons_of_pos (by simpa using hname),
        Disk.deleteAll]
      refine ih (walk_delete hname hwalk (hspares name List.mem_cons_self)) ?_ fun other hother ↦ ?_
      · rw [Disk.node_delete, if_neg (by simp)]
        exact hdir
      · rintro ⟨hother', hempty, hfront⟩
        refine hspares other (List.mem_cons_of_mem _ hother) ⟨hother', ?_, hfront⟩
        exact (d.listFiles_deleteAll_below _ [name] other).mp hempty
    · have hrefused : ¬ Disk.EndsInName (dir ++ [name]) := fun h ↦ hname (h name (by simp))
      rw [Disk.deleteAt, if_neg hrefused, List.filter_cons_of_neg (by simpa using hname)]
      exact ih hwalk hdir fun other hother ↦ hspares other (List.mem_cons_of_mem _ hother)

/-- The clean-up stops at the first name that cuts the path. -/
theorem cleanUp_cut (names more : List String) {name : String}
    (hwalk : d.walk base dir = some (Path.normalize base dir))
    (hdir : d.node (Path.normalize base dir) = some .dir)
    (hspares : ∀ other ∈ names, ¬ CutsPath base dir d other) (hcuts : CutsPath base dir d name) :
    cleanUp base dir (names ++ name :: more) d =
      d.deleteAll (Path.normalize base dir) (names.filter (Path.IsName ·) ++ [name]) := by
  obtain ⟨hcleanUp, hwalk'⟩ := cleanUp_append names (name :: more) hwalk hdir hspares
  have hdir' : (d.deleteAll (Path.normalize base dir)
      (names.filter (Path.IsName ·))).node (Path.normalize base dir) = some .dir := by
    rw [Disk.node_deleteAll, if_neg]
    · exact hdir
    · rintro ⟨⟨other, -, h⟩, -⟩
      simpa using congrArg List.length h
  have hcuts' : CutsPath base dir
      (d.deleteAll (Path.normalize base dir) (names.filter (Path.IsName ·))) name :=
    ⟨hcuts.1, (d.listFiles_deleteAll_below _ _ name).mpr hcuts.2.1, hcuts.2.2⟩
  rw [hcleanUp, cleanUp, deleteAt_name hcuts.1 hwalk' hdir',
    cleanUp_of_lost more (walk_delete_cut hcuts'), Disk.deleteAll_append]
  rfl

/-- Whatever its order is, the clean-up only takes away. -/
theorem node_cleanUp_cases (names : List String) (d : Disk Bytes) (q : Path) :
    (cleanUp base dir names d).node q = none ∨ (cleanUp base dir names d).node q = d.node q := by
  have hdeleted (d : Disk Bytes) (path : List String) :
      (d.deleteAt base path).node q = none ∨ (d.deleteAt base path).node q = d.node q := by
    rw [Disk.node_deleteAt]
    split
    · exact .inl rfl
    · exact .inr rfl
  induction names generalizing d with
  | nil => exact hdeleted d dir
  | cons name rest ih =>
    rw [cleanUp]
    rcases ih (d.deleteAt base (dir ++ [name])) with hnone | hsame
    · exact .inl hnone
    · rw [hsame]
      exact hdeleted d (dir ++ [name])

/-- A name that can be deleted is deleted when it comes first. -/
theorem node_cleanUp_first (rest : List String) {name : String} (hname : Path.IsName name)
    (hwalk : d.walk base dir = some (Path.normalize base dir))
    (hdir : d.node (Path.normalize base dir) = some .dir)
    (hempty : d.listFiles (Path.normalize base dir ++ [name]) = []) :
    (cleanUp base dir (name :: rest) d).node (Path.normalize base dir ++ [name]) = none := by
  rw [cleanUp, deleteAt_name hname hwalk hdir]
  have hgone : (d.delete (Path.normalize base dir ++ [name])).node
      (Path.normalize base dir ++ [name]) = none := by
    rw [Disk.node_delete, if_pos ⟨rfl, by simp, hempty⟩]
  exact (node_cleanUp_cases rest _ _).elim id fun hsame ↦ hsame.trans hgone

/-- The clean-up of a directory without a name that cuts the path. -/
theorem node_cleanUp_spared {names : List String}
    (hnames : ∀ name, name ∈ names ↔ name ∈ d.listFiles (Path.normalize base dir))
    (hwalk : d.walk base dir = some (Path.normalize base dir))
    (hdir : d.node (Path.normalize base dir) = some .dir)
    (hspares : ∀ name ∈ names, ¬ CutsPath base dir d name) (q : Path) :
    (cleanUp base dir names d).node q =
      if (∃ name ∈ d.listFiles (Path.normalize base dir), Path.IsName name ∧
          q = Path.normalize base dir ++ [name] ∧ d.listFiles q = []) ∨
        (q = Path.normalize base dir ∧ Disk.EndsInName dir ∧ q ≠ [] ∧
          ∀ name ∈ d.listFiles (Path.normalize base dir), Path.IsName name ∧
            d.listFiles (Path.normalize base dir ++ [name]) = [])
      then none else d.node q := by
  obtain ⟨hcleanUp, hstill⟩ := cleanUp_append names [] hwalk hdir hspares
  rw [List.append_nil] at hcleanUp
  have hdeleted (q : Path) : (d.deleteAll (Path.normalize base dir)
      (names.filter (Path.IsName ·))).node q =
        if ∃ name ∈ d.listFiles (Path.normalize base dir), Path.IsName name ∧
          q = Path.normalize base dir ++ [name] ∧ d.listFiles q = [] then none else d.node q := by
    rw [Disk.node_deleteAll]
    refine if_congr ?_ rfl rfl
    simp only [List.mem_filter, decide_eq_true_iff, hnames]
    constructor
    · rintro ⟨⟨name, ⟨hmem, hname⟩, hq⟩, hempty⟩
      exact ⟨name, hmem, hname, hq, hempty⟩
    · rintro ⟨name, hmem, hname, hq, hempty⟩
      exact ⟨⟨name, ⟨hmem, hname⟩, hq⟩, hempty⟩
  have hemptied : (d.deleteAll (Path.normalize base dir)
      (names.filter (Path.IsName ·))).listFiles (Path.normalize base dir) = [] ↔
      ∀ name ∈ d.listFiles (Path.normalize base dir), Path.IsName name ∧
        d.listFiles (Path.normalize base dir ++ [name]) = [] := by
    rw [Disk.listFiles_eq_nil]
    refine forall_congr' fun name ↦ ?_
    rw [hdeleted, Disk.mem_listFiles]
    split
    · next hgone =>
      obtain ⟨other, -, hother, hsame, hempty⟩ := hgone
      obtain rfl : name = other := by simpa using hsame
      exact iff_of_true rfl fun _ ↦ ⟨hother, hempty⟩
    · next hkept =>
      rw [← Option.not_isSome_iff_eq_none]
      refine ⟨fun hnone hsome ↦ absurd hsome hnone, fun h hsome ↦ hkept ?_⟩
      obtain ⟨hname, hempty⟩ := h hsome
      exact ⟨name, Disk.mem_listFiles.mpr hsome, hname, rfl, hempty⟩
  have hremoves : (d.deleteAll (Path.normalize base dir)
      (names.filter (Path.IsName ·))).Removes base dir q ↔
        q = Path.normalize base dir ∧ Disk.EndsInName dir ∧ q ≠ [] ∧
          ∀ name ∈ d.listFiles (Path.normalize base dir), Path.IsName name ∧
            d.listFiles (Path.normalize base dir ++ [name]) = [] := by
    rw [← hemptied, Disk.Removes, hstill, Option.some_inj]
    constructor
    · rintro ⟨hends, rfl, hne, hempty⟩
      exact ⟨rfl, hends, hne, hempty⟩
    · rintro ⟨rfl, hends, hne, hempty⟩
      exact ⟨hends, rfl, hne, hempty⟩
  rw [hcleanUp, cleanUp, Disk.node_deleteAt, hdeleted]
  split
  · next hremoved => rw [if_pos (.inr (hremoves.mp hremoved))]
  · next hkept => exact if_congr (or_iff_left (hkept ∘ hremoves.mpr)).symm rfl rfl

/-- What the clean-up of a directory leaves at a path that no other name's turn decides about: it
removes the files and empty directories with a name, and the directory if all that was in it is
removed and its path is not cut. -/
theorem node_cleanUp {names : List String}
    (hnames : ∀ name, name ∈ names ↔ name ∈ d.listFiles (Path.normalize base dir))
    (hwalk : d.walk base dir = some (Path.normalize base dir))
    (hdir : d.node (Path.normalize base dir) = some .dir) {q : Path}
    (hdecided : ∀ name ∈ d.listFiles (Path.normalize base dir), Path.IsName name →
      q = Path.normalize base dir ++ [name] → d.listFiles q = [] →
        ∀ cut ∈ d.listFiles (Path.normalize base dir), CutsPath base dir d cut → cut = name) :
    (cleanUp base dir names d).node q =
      if (∃ name ∈ d.listFiles (Path.normalize base dir), Path.IsName name ∧
          q = Path.normalize base dir ++ [name] ∧ d.listFiles q = []) ∨
        (q = Path.normalize base dir ∧ Disk.EndsInName dir ∧ q ≠ [] ∧
          ∀ name ∈ d.listFiles (Path.normalize base dir), Path.IsName name ∧
            d.listFiles (Path.normalize base dir ++ [name]) = [] ∧ ¬ CutsPath base dir d name)
      then none else d.node q := by
  by_cases hspares : ∀ name ∈ names, ¬ CutsPath base dir d name
  · rw [node_cleanUp_spared hnames hwalk hdir hspares]
    refine if_congr (or_congr_right ?_) rfl rfl
    refine and_congr_right fun _ ↦ and_congr_right fun _ ↦ and_congr_right fun _ ↦ ?_
    refine forall₂_congr fun name hname ↦ and_congr_right fun _ ↦ ?_
    rw [and_iff_left (hspares name ((hnames name).mpr hname))]
  · -- the first name that cuts the path ends the clean-up
    obtain ⟨cut, hfirst⟩ : ∃ cut, names.find? (CutsPath base dir d ·) = some cut := by
      rw [← Option.isSome_iff_exists, List.find?_isSome]
      simpa using hspares
    obtain ⟨hcuts, first, more, rfl, hbefore⟩ := List.find?_eq_some_iff_append.mp hfirst
    rw [decide_eq_true_iff] at hcuts
    have hcut := (hnames cut).mp (by simp)
    have hkeeps : ¬ (q = Path.normalize base dir ∧ Disk.EndsInName dir ∧ q ≠ [] ∧
        ∀ name ∈ d.listFiles (Path.normalize base dir), Path.IsName name ∧
          d.listFiles (Path.normalize base dir ++ [name]) = [] ∧ ¬ CutsPath base dir d name) :=
      fun h ↦ (h.2.2.2 cut hcut).2.2 hcuts
    rw [cleanUp_cut first more hwalk hdir (fun name hname ↦ by simpa using hbefore name hname)
      hcuts, Disk.node_deleteAll]
    refine if_congr ?_ rfl rfl
    rw [or_iff_left hkeeps]
    constructor
    · rintro ⟨⟨name, hmem, hq⟩, hempty⟩
      refine ⟨name, ?_, ?_, hq, hempty⟩
      · refine (hnames name).mp ?_
        rcases List.mem_append.mp hmem with hmem | hmem
        · exact List.mem_append_left _ (List.mem_filter.mp hmem).1
        · rw [List.mem_singleton.mp hmem]
          simp
      · rcases List.mem_append.mp hmem with hmem | hmem
        · simpa using (List.mem_filter.mp hmem).2
        · exact List.mem_singleton.mp hmem ▸ hcuts.1
    · rintro ⟨name, hmem, hname, hq, hempty⟩
      obtain rfl := hdecided name hmem hname hq hempty cut hcut hcuts
      exact ⟨⟨cut, by simp, hq⟩, hempty⟩

end CleanUp

/-- After the writes, removing `name` from the extracted directory takes away a directory that
`dir` leads over. -/
def CutsPathAfter (base : Path) (dir : List String) (d : Disk Bytes) (puts : List (Put Bytes))
    (name : String) : Prop :=
  Path.IsName name ∧ d.namesAfter puts (Path.normalize base dir ++ [name]) = [] ∧
    ∃ front ∈ dir.inits, Path.normalize base front = Path.normalize base dir ++ [name]

instance (base : Path) (dir : List String) (d : Disk Bytes) (puts : List (Put Bytes))
    (name : String) : Decidable (CutsPathAfter base dir d puts name) :=
  inferInstanceAs (Decidable (_ ∧ _ ∧ ∃ front ∈ dir.inits, _))

/-- The clean-up after the writes removes `path`: a file or an empty directory in the extracted
directory, or that directory when there is nothing else in it. -/
def CleanedAway (base : Path) (dir : List String) (d : Disk Bytes) (puts : List (Put Bytes))
    (path : Path) : Prop :=
  (∃ name ∈ d.namesAfter puts (Path.normalize base dir), Path.IsName name ∧
      path = Path.normalize base dir ++ [name] ∧ d.namesAfter puts path = []) ∨
    (path = Path.normalize base dir ∧ Disk.EndsInName dir ∧ path ≠ [] ∧
      ∀ name ∈ d.namesAfter puts (Path.normalize base dir), Path.IsName name ∧
        d.namesAfter puts (Path.normalize base dir ++ [name]) = [] ∧
        ¬ CutsPathAfter base dir d puts name)

/-- Whether the clean-up removes `path` depends on the order of the listing: it is one of the files
and empty directories to delete, and none is found once another one has cut the path. -/
def DependsOnOrder (base : Path) (dir : List String) (d : Disk Bytes) (puts : List (Put Bytes))
    (path : Path) : Prop :=
  ∃ name ∈ d.namesAfter puts (Path.normalize base dir), name ≠ configFileName ∧
    Path.IsName name ∧ path = Path.normalize base dir ++ [name] ∧ d.namesAfter puts path = [] ∧
    ∃ cut ∈ d.namesAfter puts (Path.normalize base dir),
      CutsPathAfter base dir d puts cut ∧ cut ≠ name

instance (base : Path) (dir : List String) (d : Disk Bytes) (puts : List (Put Bytes))
    (path : Path) : Decidable (CleanedAway base dir d puts path) :=
  inferInstanceAs (Decidable ((∃ name ∈ d.namesAfter puts _, _) ∨ (_ ∧ _ ∧ _ ∧
    ∀ name ∈ d.namesAfter puts _, _)))

instance (base : Path) (dir : List String) (d : Disk Bytes) (puts : List (Put Bytes))
    (path : Path) : Decidable (DependsOnOrder base dir d puts path) :=
  inferInstanceAs (Decidable (∃ name ∈ d.namesAfter puts _, _ ∧ _ ∧ _ ∧ _ ∧
    ∃ cut ∈ d.namesAfter puts _, _ ∧ _))

/-- What paths lead to when `config.json` is deleted after the writes. -/
def nodeLeft (base : Path) (dir : List String) (d : Disk Bytes) (puts : List (Put Bytes))
    (path : Path) : Option (Node Bytes) :=
  if path = Path.normalize base dir ++ [configFileName] then none else d.nodeAfter puts path

section Restore

variable {v : Version} {P : Platform} {base : Path} {dir : List String} {d d' : Disk Bytes}
  {puts : List (Put Bytes)} {config : Int32 × ContentValues}

theorem node_withoutConfig_after (hnode : ∀ q, d'.node q = d.nodeAfter puts q)
    (h : readConfig v P base dir d' = some config) (q : Path) :
    (withoutConfig base dir d').node q = nodeLeft base dir d puts q := by
  rw [node_withoutConfig h, hnode, nodeLeft]

theorem mem_listFiles_withoutConfig (hnode : ∀ q, d'.node q = d.nodeAfter puts q)
    (h : readConfig v P base dir d' = some config) (name : String) :
    name ∈ (withoutConfig base dir d').listFiles (Path.normalize base dir) ↔
      name ∈ d.namesAfter puts (Path.normalize base dir) ∧ name ≠ configFileName := by
  rw [Disk.mem_listFiles, Disk.mem_namesAfter, node_withoutConfig_after hnode h, nodeLeft]
  by_cases hsame : name = configFileName <;> simp [hsame]

theorem listFiles_withoutConfig (hnode : ∀ q, d'.node q = d.nodeAfter puts q)
    (h : readConfig v P base dir d' = some config) {path : Path}
    (hpath : path ≠ Path.normalize base dir) :
    (withoutConfig base dir d').listFiles path = [] ↔ d.namesAfter puts path = [] := by
  rw [← listFiles_eq_nil_after hnode]
  refine Disk.listFiles_congr_nil fun name ↦ ?_
  rw [node_withoutConfig h, if_neg]
  exact fun h ↦ hpath (List.append_inj' h rfl).1

theorem cutsPath_withoutConfig (hnode : ∀ q, d'.node q = d.nodeAfter puts q)
    (h : readConfig v P base dir d' = some config) (name : String) :
    CutsPath base dir (withoutConfig base dir d') name ↔ CutsPathAfter base dir d puts name := by
  rw [CutsPath, CutsPathAfter, listFiles_withoutConfig hnode h (by simp)]

/-- The directory leads over no file, so `config.json` does not cut its path. -/
theorem not_cutsPath_config (h : readConfig v P base dir d' = some config) :
    ¬ CutsPathAfter base dir d puts configFileName := by
  rintro ⟨-, -, front, hfront, hpath⟩
  obtain ⟨hwalk, -, hfile⟩ := readConfig_spec h
  have hne : front ≠ dir := by
    rintro rfl
    simpa using congrArg List.length hpath
  have hdir := (Disk.walk_eq_some_iff.mp hwalk).1 front hfront hne
  rw [hpath] at hdir
  exact Disk.not_isFile_of_dir hdir hfile

theorem node_withoutConfig_dir (h : readConfig v P base dir d' = some config) :
    (withoutConfig base dir d').node (Path.normalize base dir) = some .dir := by
  rw [node_withoutConfig h, if_neg (by simp)]
  exact (readConfig_spec h).2.1

/-- The clean-up told from the writes, where its order does not matter. -/
theorem node_cleanUp_after (hnode : ∀ q, d'.node q = d.nodeAfter puts q)
    (h : readConfig v P base dir d' = some config) {names : List String}
    (hnames : names.Perm ((withoutConfig base dir d').listFiles (Path.normalize base dir)))
    {q : Path} (hdecided : ¬ DependsOnOrder base dir d puts q) :
    (cleanUp base dir names (withoutConfig base dir d')).node q =
      if CleanedAway base dir d puts q then none else d.nodeAfter puts q := by
  have hlisted := mem_listFiles_withoutConfig hnode h
  have hcuts := cutsPath_withoutConfig hnode h
  obtain ⟨-, -, hfile⟩ := readConfig_spec h
  have hname : Path.IsName configFileName := by decide
  have hleaf : d.namesAfter puts (Path.normalize base dir ++ [configFileName]) = [] := by
    rw [← listFiles_eq_nil_after hnode]
    exact Disk.listFiles_of_file fun hdir ↦ Disk.not_isFile_of_dir hdir hfile
  have hmem : configFileName ∈ d.namesAfter puts (Path.normalize base dir) := by
    obtain ⟨content, hcontent⟩ := Disk.isFile_iff.mp hfile
    simp [Disk.mem_namesAfter, ← hnode, hcontent]
  have hdecided' : ∀ name ∈ (withoutConfig base dir d').listFiles (Path.normalize base dir),
      Path.IsName name → q = Path.normalize base dir ++ [name] →
        (withoutConfig base dir d').listFiles q = [] →
          ∀ cut ∈ (withoutConfig base dir d').listFiles (Path.normalize base dir),
            CutsPath base dir (withoutConfig base dir d') cut → cut = name := by
    rintro name hmem' hname' rfl hempty cut hcut hcuts'
    obtain ⟨hmem', hne⟩ := (hlisted name).mp hmem'
    rw [listFiles_withoutConfig hnode h (by simp)] at hempty
    by_contra hother
    exact hdecided ⟨name, hmem', hne, hname', rfl, hempty, cut, ((hlisted cut).mp hcut).1,
      (hcuts cut).mp hcuts', hother⟩
  rw [node_cleanUp (fun name ↦ hnames.mem_iff) (walk_withoutConfig h) (node_withoutConfig_dir h)
    hdecided', node_withoutConfig_after hnode h, nodeLeft]
  by_cases hq : q = Path.normalize base dir ++ [configFileName]
  · rw [if_pos hq, ite_self, if_pos (.inl ⟨_, hmem, hname, hq, hq ▸ hleaf⟩)]
  · rw [if_neg hq]
    refine if_congr (or_congr ?_ ?_) rfl rfl
    · refine exists_congr fun name ↦ ?_
      rw [hlisted]
      constructor
      · rintro ⟨⟨hmem', -⟩, hname', rfl, hnone⟩
        exact ⟨hmem', hname', rfl, (listFiles_withoutConfig hnode h (by simp)).mp hnone⟩
      · rintro ⟨hmem', hname', rfl, hnone⟩
        exact ⟨⟨hmem', fun h ↦ hq (h ▸ rfl)⟩, hname', rfl,
          (listFiles_withoutConfig hnode h (by simp)).mpr hnone⟩
    · refine and_congr_right fun _ ↦ and_congr_right fun _ ↦ and_congr_right fun _ ↦ ?_
      refine forall_congr' fun name ↦ ?_
      rw [hlisted, listFiles_withoutConfig hnode h (by simp), hcuts, and_imp]
      refine forall_congr' fun _ ↦ ?_
      by_cases hsame : name = configFileName
      · subst hsame
        simp [hname, hleaf, not_cutsPath_config h]
      · simp [hsame]

/-- Where the order matters, there is one that removes the path and one that leaves it. -/
theorem cleanUp_dependsOnOrder (hnode : ∀ q, d'.node q = d.nodeAfter puts q)
    (h : readConfig v P base dir d' = some config) {q : Path}
    (hdepends : DependsOnOrder base dir d puts q) :
    (d.nodeAfter puts q).isSome ∧
      (∃ listing : Listing, (cleanUp base dir (listing.order
        ((withoutConfig base dir d').listFiles (Path.normalize base dir)))
          (withoutConfig base dir d')).node q = none) ∧
      ∃ listing : Listing, (cleanUp base dir (listing.order
        ((withoutConfig base dir d').listFiles (Path.normalize base dir)))
          (withoutConfig base dir d')).node q = d.nodeAfter puts q := by
  obtain ⟨name, hmem, hne, hname, rfl, hempty, cut, hcut, hcuts, hother⟩ := hdepends
  have hlisted := mem_listFiles_withoutConfig hnode h
  have hmem' := (hlisted name).mpr ⟨hmem, hne⟩
  have hcut' : cut ∈ (withoutConfig base dir d').listFiles (Path.normalize base dir) := by
    refine (hlisted cut).mpr ⟨hcut, ?_⟩
    rintro rfl
    exact not_cutsPath_config h hcuts
  have hdir := node_withoutConfig_dir h
  refine ⟨Disk.mem_namesAfter.mp hmem, ⟨.first name, ?_⟩, ⟨.first cut, ?_⟩⟩
  · rw [Listing.order_first hmem']
    refine node_cleanUp_first _ hname (walk_withoutConfig h) hdir ?_
    exact (listFiles_withoutConfig hnode h (by simp)).mpr hempty
  · rw [Listing.order_first hcut', ← List.nil_append (cut :: _),
      cleanUp_cut [] _ (walk_withoutConfig h) hdir (by simp)
        ((cutsPath_withoutConfig hnode h cut).mpr hcuts), Disk.node_deleteAll, if_neg,
      node_withoutConfig_after hnode h, nodeLeft, if_neg (by simpa using hne)]
    rintro ⟨⟨other, hother', hsame⟩, -⟩
    have hcut := List.mem_singleton.mp hother'
    exact hother (by simpa [hcut] using hsame.symm)

end Restore

/-! ## The ends of a restore -/

section Ends

variable {v : Version} {P : Platform} {base : Path} {backupName stem : String}
  {archive : Option ZipStream} {s : Store} {puts : List (Put Bytes)} {port : Int32}
  {fields : ContentValues}

/-- What the archive was extracted to. -/
theorem unzip_of_extraction {d : Disk Bytes} {output : List String} {ends : Extraction}
    (hextraction : extraction base output archive d = (puts, ends)) :
    ∃ d', unzip base output archive d = (d', ends) ∧ ∀ q, d'.node q = d.nodeAfter puts q := by
  obtain ⟨d', hunzip, hputs⟩ := unzip_eq base output archive d
  rw [hextraction] at hunzip hputs
  exact ⟨d', hunzip, Disk.node_putAll hputs⟩

theorem restore_of_failed (hname : nameBeforeDot backupName = some stem)
    (hextraction : extraction base (components stem) archive s.disk = (puts, .failed)) :
    ∃ d, v.restore P base backupName archive s = (.error, { s with disk := d }) ∧
      ∀ q, d.node q = s.disk.nodeAfter puts q := by
  obtain ⟨d, hunzip, hnode⟩ := unzip_of_extraction hextraction
  exact ⟨d, restore_of_unzipFails hname hunzip, hnode⟩

theorem restore_of_thrown (hname : nameBeforeDot backupName = some stem)
    (hextraction : extraction base (components stem) archive s.disk = (puts, .thrown)) :
    ∃ d, v.restore P base backupName archive s = (.thrown, { s with disk := d }) ∧
      ∀ q, d.node q = s.disk.nodeAfter puts q := by
  obtain ⟨d, hunzip, hnode⟩ := unzip_of_extraction hextraction
  exact ⟨d, restore_of_unzipThrows hname hunzip, hnode⟩

theorem restore_of_noConfig (hname : nameBeforeDot backupName = some stem)
    (hextraction : extraction base (components stem) archive s.disk = (puts, .complete))
    (hconfig : savedConfig v P base (components stem) (s.disk.nodeAfter puts) = none) :
    ∃ d, v.restore P base backupName archive s = (.error, { s with disk := d }) ∧
      ∀ q, d.node q = s.disk.nodeAfter puts q := by
  obtain ⟨d, hunzip, hnode⟩ := unzip_of_extraction hextraction
  refine ⟨d, ?_, hnode⟩
  rw [← funext hnode, ← readConfig_eq] at hconfig
  rw [restore_of_unzipped hname hunzip]
  cases v <;> simp only [Version.extractConfig, extractConfigFromUnzippedBackupV2,
    extractConfigFromUnzippedBackupV3, hname, ensureDirectory_unzipped hunzip, hconfig]

theorem restoreV2_of_config (hname : nameBeforeDot backupName = some stem)
    (hextraction : extraction base (components stem) archive s.disk = (puts, .complete))
    (hconfig : savedConfig .v2 P base (components stem) (s.disk.nodeAfter puts) =
      some (port, fields)) :
    ∃ d, Version.v2.restore P base backupName archive s =
        (.restored, ⟨insertOrUpdate s.table port fields, d⟩) ∧
      ∀ q, d.node q = s.disk.nodeAfter puts q := by
  obtain ⟨d, hunzip, hnode⟩ := unzip_of_extraction hextraction
  refine ⟨d, ?_, hnode⟩
  rw [← funext hnode, ← readConfig_eq] at hconfig
  rw [restore_of_unzipped hname hunzip]
  simp only [Version.extractConfig, extractConfigFromUnzippedBackupV2, hname,
    ensureDirectory_unzipped hunzip, hconfig]

/-- A configuration does not depend on the order of listings. -/
theorem savedConfig_withListing (v : Version) (P : Platform) (listing : Listing) (base : Path)
    (dir : List String) (node : Path → Option (Node Bytes)) :
    savedConfig v (P.withListing listing) base dir node = savedConfig v P base dir node := by
  cases v <;> rfl

/-- What a v3 restore does once it has read its configuration. -/
theorem restoreV3_of_config (hname : nameBeforeDot backupName = some stem)
    (hextraction : extraction base (components stem) archive s.disk = (puts, .complete))
    (hconfig : savedConfig .v3 P base (components stem) (s.disk.nodeAfter puts) =
      some (port, fields)) :
    ∃ d, (∀ q, d.node q = s.disk.nodeAfter puts q) ∧
      readConfig .v3 P base (components stem) d = some (port, fields) ∧
      ∀ listing, Version.v3.restore (P.withListing listing) base backupName archive s =
        match (withoutConfig base (components stem) d).renameAt base (components stem)
          (base ++ [Version.v3.portDir port]) with
        | some d => (.restored, ⟨insertOrUpdate s.table port fields, d⟩)
        | none => (.portExists port, ⟨insertOrUpdate s.table port fields,
            cleanUp base (components stem)
              (listing.order ((withoutConfig base (components stem) d).listFiles
                (Path.normalize base (components stem))))
              (withoutConfig base (components stem) d)⟩) := by
  obtain ⟨d, hunzip, hnode⟩ := unzip_of_extraction hextraction
  rw [← funext hnode] at hconfig
  refine ⟨d, hnode, by rw [readConfig_eq, hconfig], fun listing ↦ ?_⟩
  rw [← savedConfig_withListing .v3 P listing, ← readConfig_eq] at hconfig
  rw [restore_of_unzipped hname hunzip, Version.extractConfig]
  exact extractConfigV3_of_read (s := { s with disk := d }) hname
    (ensureDirectory_unzipped hunzip) hconfig

/-- A v3 restore renames the extracted directory when it can. -/
theorem restoreV3_renames (hname : nameBeforeDot backupName = some stem)
    (hextraction : extraction base (components stem) archive s.disk = (puts, .complete))
    (hconfig : savedConfig .v3 P base (components stem) (s.disk.nodeAfter puts) =
      some (port, fields)) (hcan : CanRename base (components stem) port s.disk puts) :
    ∃ d, (∀ listing, Version.v3.restore (P.withListing listing) base backupName archive s =
        (.restored, ⟨insertOrUpdate s.table port fields, d⟩)) ∧
      ∀ q, d.node q =
        if base ++ [Version.v3.portDir port] <+: q then
          nodeLeft base (components stem) s.disk puts (Path.normalize base (components stem) ++
            q.drop (base ++ [Version.v3.portDir port]).length)
        else if Path.normalize base (components stem) <+: q then none
        else nodeLeft base (components stem) s.disk puts q := by
  obtain ⟨d, hnode, hread, hrestore⟩ := restoreV3_of_config hname hextraction hconfig
  obtain ⟨renamed, hrenamed⟩ :=
    Option.isSome_iff_exists.mp ((renameAt_isSome_iff hnode hread port).mpr hcan)
  refine ⟨renamed, fun listing ↦ by rw [hrestore, hrenamed], fun q ↦ ?_⟩
  rw [Disk.node_renameAt hrenamed, node_withoutConfig_after hnode hread,
    node_withoutConfig_after hnode hread]

/-- A v3 restore cleans up when it cannot rename the directory. Where the order of the listing does
not matter, this is what it leaves. -/
theorem restoreV3_collides (hname : nameBeforeDot backupName = some stem)
    (hextraction : extraction base (components stem) archive s.disk = (puts, .complete))
    (hconfig : savedConfig .v3 P base (components stem) (s.disk.nodeAfter puts) =
      some (port, fields)) (hcannot : ¬ CanRename base (components stem) port s.disk puts)
    (listing : Listing) :
    ∃ d, Version.v3.restore (P.withListing listing) base backupName archive s =
        (.portExists port, ⟨insertOrUpdate s.table port fields, d⟩) ∧
      (∀ q, d.node q = none ∨ d.node q = s.disk.nodeAfter puts q) ∧
      ∀ q, ¬ DependsOnOrder base (components stem) s.disk puts q → d.node q =
        if CleanedAway base (components stem) s.disk puts q then none
        else s.disk.nodeAfter puts q := by
  obtain ⟨d, hnode, hread, hrestore⟩ := restoreV3_of_config hname hextraction hconfig
  have hcollides := Option.not_isSome_iff_eq_none.mp
    (mt (renameAt_isSome_iff hnode hread port).mp hcannot)
  refine ⟨_, by rw [hrestore, hcollides], fun q ↦ ?_, fun q hdecided ↦ ?_⟩
  · have hcases := @node_cleanUp_cases base (components stem)
      (listing.order ((withoutConfig base (components stem) d).listFiles
        (Path.normalize base (components stem)))) (withoutConfig base (components stem) d) q
    rw [node_withoutConfig_after hnode hread, nodeLeft] at hcases
    split at hcases
    · exact .inl (hcases.elim id id)
    · exact hcases
  · exact node_cleanUp_after hnode hread (listing.perm _) hdecided

/-- Where the order of the listing matters, one order removes the path and another leaves it. -/
theorem restoreV3_dependsOnOrder (hname : nameBeforeDot backupName = some stem)
    (hextraction : extraction base (components stem) archive s.disk = (puts, .complete))
    (hconfig : savedConfig .v3 P base (components stem) (s.disk.nodeAfter puts) =
      some (port, fields)) (hcannot : ¬ CanRename base (components stem) port s.disk puts)
    {q : Path} (hdepends : DependsOnOrder base (components stem) s.disk puts q) :
    (s.disk.nodeAfter puts q).isSome ∧
      (∃ listing, (Version.v3.restore (P.withListing listing) base backupName archive
        s).2.disk.node q = none) ∧
      ∃ listing, (Version.v3.restore (P.withListing listing) base backupName archive
        s).2.disk.node q = s.disk.nodeAfter puts q := by
  obtain ⟨d, hnode, hread, hrestore⟩ := restoreV3_of_config hname hextraction hconfig
  have hcollides := Option.not_isSome_iff_eq_none.mp
    (mt (renameAt_isSome_iff hnode hread port).mp hcannot)
  obtain ⟨hexists, ⟨first, hremoved⟩, ⟨second, hleft⟩⟩ :=
    cleanUp_dependsOnOrder hnode hread hdepends
  refine ⟨hexists, ⟨first, ?_⟩, ⟨second, ?_⟩⟩
  · rw [hrestore, hcollides]
    exact hremoved
  · rw [hrestore, hcollides]
    exact hleft

end Ends

end Orbot.OnionService
