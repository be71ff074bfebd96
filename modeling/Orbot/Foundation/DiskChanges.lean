import Orbot.Foundation.DiskOperations

/-!
# How disks change

Creating directories and writing files keeps the kind of every existing path, so a disk grows.
A path is settled when `mkdirs` has nothing to do for it, and that lasts while the disk grows.
`Changed` speaks of the journal entries between two disks, and splits over a sequence of steps.
-/

namespace Orbot.Foundation.Disk

universe u

variable {Content : Type u}

/-! ## Growth -/

/-- A file is at `path`. -/
def IsFile (d : Disk Content) (path : Path) : Prop := (d.content path).isSome

instance (d : Disk Content) (path : Path) : Decidable (d.IsFile path) :=
  inferInstanceAs (Decidable (_ = true))

theorem isFile_iff {d : Disk Content} {path : Path} :
    d.IsFile path ↔ ∃ content, d.node path = some (.file content) := by
  simp only [IsFile, Option.isSome_iff_exists, content_eq_some]

theorem not_isFile_of_dir {d : Disk Content} {path : Path} (h : d.node path = some .dir) :
    ¬ d.IsFile path := by
  simp [isFile_iff, h]

/-- A path is missing, a directory or a file. -/
theorem node_cases (d : Disk Content) (path : Path) :
    d.node path = none ∨ d.node path = some .dir ∨ d.IsFile path := by
  cases h : d.node path with
  | none => exact .inl rfl
  | some found =>
    cases found with
    | dir => exact .inr (.inl rfl)
    | file content => exact .inr (.inr (isFile_iff.mpr ⟨content, h⟩))

/-- Directories stay directories, and files stay files. -/
structure Grows (d d' : Disk Content) : Prop where
  dir : ∀ path, d.node path = some .dir → d'.node path = some .dir
  file : ∀ path, d.IsFile path → d'.IsFile path

theorem Grows.refl (d : Disk Content) : Grows d d := ⟨fun _ h ↦ h, fun _ h ↦ h⟩

theorem Grows.trans {d d' d'' : Disk Content} (h : Grows d d') (h' : Grows d' d'') :
    Grows d d'' :=
  ⟨fun path hdir ↦ h'.dir path (h.dir path hdir), fun path hfile ↦ h'.file path (h.file path hfile)⟩

theorem grows_mkdirs (d : Disk Content) (path : Path) : Grows d (d.mkdirs path) := by
  have hkeep (q : Path) (hq : d.node q ≠ none) : (d.mkdirs path).node q = d.node q :=
    (d.node_mkdirs path q).resolve_right fun h ↦ hq h.2.1
  refine ⟨fun q hq ↦ (hkeep q (by simp [hq])).trans hq, fun q hq ↦ ?_⟩
  obtain ⟨content, hcontent⟩ := isFile_iff.mp hq
  exact isFile_iff.mpr ⟨content, (hkeep q (by simp [hcontent])).trans hcontent⟩

theorem grows_write {d : Disk Content} {path : Path} {content : Content}
    {h : d.Writable path} : Grows d (d.write path content h) := by
  refine ⟨fun q hq ↦ ?_, fun q hq ↦ ?_⟩
  · have hne : q ≠ path := by
      rintro rfl
      exact h.2.2 hq
    rw [node_write, if_neg hne]
    exact hq
  · rw [isFile_iff, node_write]
    split
    · exact ⟨content, rfl⟩
    · exact isFile_iff.mp hq

theorem openAndWrite_eq_some {d d' : Disk Content} {start : Path} {components : List String}
    {content : Content} (h : d.openAndWrite start components content = some d') :
    ∃ (hwritable : d.Writable (Path.normalize start components)),
      d.walk start components = some (Path.normalize start components) ∧
      d' = d.write (Path.normalize start components) content hwritable := by
  rw [openAndWrite, Option.bind_eq_some_iff] at h
  obtain ⟨path, hwalk, hpath⟩ := h
  obtain rfl := walk_eq_normalize hwalk
  split at hpath
  · next hwritable => exact ⟨hwritable, hwalk, by simpa using hpath.symm⟩
  · simp at hpath

/-! ## Settled paths -/

/-- `mkdirs` has nothing to create: the directory exists, or a file is in the way. -/
def Settled (d : Disk Content) (path : Path) : Prop :=
  d.node path = some .dir ∨ ∃ above ∈ path.inits, d.IsFile above

instance (d : Disk Content) (path : Path) : Decidable (d.Settled path) :=
  inferInstanceAs (Decidable (_ ∨ _))

theorem Settled.grow {d d' : Disk Content} {path : Path} (h : d.Settled path)
    (hgrows : Grows d d') : d'.Settled path := by
  rcases h with hdir | ⟨above, habove, hfile⟩
  · exact .inl (hgrows.dir path hdir)
  · exact .inr ⟨above, habove, hgrows.file above hfile⟩

/-- What is above a settled path is settled. -/
theorem Settled.above {d : Disk Content} {above path : Path} (h : d.Settled path)
    (hunder : above <+: path) : d.Settled above := by
  have hdir {below : Path} (hunder : above <+: below) (hne : above ≠ below)
      (hexists : (d.node below).isSome) : d.Settled above :=
    .inl (node_dir_above hunder hne hexists)
  rcases h with hpath | ⟨file, hfile, hisFile⟩
  · by_cases hsame : above = path
    · exact .inl (hsame ▸ hpath)
    · exact hdir hunder hsame (by simp [hpath])
  · by_cases hbelow : file <+: above
    · exact .inr ⟨file, (List.mem_inits _ _).mpr hbelow, hisFile⟩
    · have hover := (List.prefix_or_prefix_of_prefix hunder
        ((List.mem_inits _ _).mp hfile)).resolve_right hbelow
      obtain ⟨content, hcontent⟩ := isFile_iff.mp hisFile
      exact hdir hover (fun h ↦ hbelow (h ▸ List.prefix_rfl)) (by simp [hcontent])

/-- Below a directory, a file on the way stops `mkdirs` before it creates anything. -/
theorem mkdirsFrom_of_file (d : Disk Content) (current : Path) (rest : List String)
    {above : Path} (hcurrent : d.node current = some .dir) (habove : above <+: current ++ rest)
    (hfile : d.IsFile above) : d.mkdirsFrom current rest = d := by
  induction rest generalizing current with
  | nil => rfl
  | cons name rest ih =>
    have hnot {path : Path} (hpath : d.node path = some .dir) : ¬ above <+: path := by
      intro hunder
      obtain ⟨content, hcontent⟩ := isFile_iff.mp hfile
      have hexists : (d.node path).isSome := by simp [hpath]
      by_cases hsame : above = path
      · simp [hsame, hpath] at hcontent
      · simp [node_dir_above hunder hsame hexists] at hcontent
    have hchild : current ++ [name] <+: above := by
      have hnext : current ++ [name] <+: current ++ name :: rest := by simp
      rcases List.prefix_or_prefix_of_prefix habove hnext with hup | hdown
      · rcases List.prefix_concat_iff.mp hup with heq | hcur
        · exact heq ▸ List.prefix_rfl
        · exact absurd hcur (hnot hcurrent)
      · exact hdown
    rw [mkdirsFrom]
    rcases d.node_cases (current ++ [name]) with hnone | hdir | hother
    · obtain ⟨content, hcontent⟩ := isFile_iff.mp hfile
      rw [node_eq_none_below hchild hnone] at hcontent
      simp at hcontent
    · rw [hdir]
      exact ih _ hdir (by simpa using habove)
    · obtain ⟨content, hcontent⟩ := isFile_iff.mp hother
      rw [hcontent]

theorem mkdirs_of_settled {d : Disk Content} {path : Path} (h : d.Settled path) :
    d.mkdirs path = d := by
  rcases h with hdir | ⟨above, habove, hfile⟩
  · exact mkdirs_of_isDirectory hdir
  · exact d.mkdirsFrom_of_file [] path (by simp) ((List.mem_inits _ _).mp habove) hfile

theorem settled_mkdirsFrom (d : Disk Content) (current : Path) (rest : List String)
    (hcurrent : d.node current = some .dir) :
    (d.mkdirsFrom current rest).Settled (current ++ rest) := by
  induction rest generalizing d current with
  | nil =>
    left
    simpa [mkdirsFrom] using hcurrent
  | cons name rest ih =>
    rw [← List.singleton_append, ← List.append_assoc, List.singleton_append, mkdirsFrom]
    rcases d.node_cases (current ++ [name]) with hnone | hdir | hfile
    · rw [hnone]
      exact ih _ _ (by simp [node_mkdir, hcurrent, hnone])
    · rw [hdir]
      exact ih _ _ hdir
    · obtain ⟨content, hcontent⟩ := isFile_iff.mp hfile
      rw [hcontent]
      exact .inr ⟨current ++ [name], by simp [List.mem_inits], hfile⟩

/-- After `mkdirs` the path is settled. -/
theorem settled_mkdirs (d : Disk Content) (path : Path) : (d.mkdirs path).Settled path :=
  d.settled_mkdirsFrom [] path (by simp)

/-- What `mkdirs` leads to: every path on the way that has no file above it is a directory. -/
theorem node_mkdirs_eq (d : Disk Content) (path q : Path) :
    (d.mkdirs path).node q =
      if q <+: path ∧ ∀ above ∈ q.inits, ¬ d.IsFile above then some .dir else d.node q := by
  have hfiles {above : Path} (h : (d.mkdirs path).IsFile above) : d.IsFile above := by
    obtain ⟨content, hcontent⟩ := isFile_iff.mp h
    rcases d.node_mkdirs path above with hsame | ⟨-, -, hdir⟩
    · exact isFile_iff.mpr ⟨content, hsame.symm.trans hcontent⟩
    · simp [hdir] at hcontent
  rcases d.node_mkdirs path q with hsame | ⟨hunder, -, hdir⟩
  · split
    · next hfree =>
      obtain ⟨hunder, hfree⟩ := hfree
      rcases d.settled_mkdirs path with hdir | ⟨above, habove, hfile⟩
      · by_cases hq : q = path
        · exact hq ▸ hdir
        · have hexists : ((d.mkdirs path).node path).isSome := by simp [hdir]
          exact node_dir_above hunder hq hexists
      · have hnot : ¬ above <+: q := fun h ↦
          hfree above ((List.mem_inits _ _).mpr h) (hfiles hfile)
        have hbelow := (List.prefix_or_prefix_of_prefix
          ((List.mem_inits _ _).mp habove) hunder).resolve_left hnot
        obtain ⟨content, hcontent⟩ := isFile_iff.mp hfile
        have hexists : ((d.mkdirs path).node above).isSome := by simp [hcontent]
        refine node_dir_above hbelow ?_ hexists
        rintro rfl
        exact hnot List.prefix_rfl
    · exact hsame
  · have hfree (above : Path) (habove : above ∈ q.inits) : ¬ d.IsFile above := by
      intro hfile
      have hstill := (d.grows_mkdirs path).file above hfile
      by_cases hq : above = q
      · exact not_isFile_of_dir hdir (hq ▸ hstill)
      · have hexists : ((d.mkdirs path).node q).isSome := by simp [hdir]
        have habove' := node_dir_above ((List.mem_inits _ _).mp habove) hq hexists
        exact not_isFile_of_dir habove' hstill
    rw [if_pos ⟨hunder, hfree⟩, hdir]

/-! ## Changes -/

/-- The changes from one disk to a later one all meet `allowed`. -/
def Changed (allowed : Change → Prop) (d d' : Disk Content) : Prop :=
  ∃ changes, d'.journal = changes ++ d.journal ∧ ∀ change ∈ changes, allowed change

variable {allowed : Change → Prop} {d d' d'' : Disk Content}

theorem Changed.refl (allowed : Change → Prop) (d : Disk Content) : Changed allowed d d :=
  ⟨[], rfl, by simp⟩

theorem Changed.mono {allowed' : Change → Prop} (h : Changed allowed d d')
    (hmono : ∀ change, allowed change → allowed' change) : Changed allowed' d d' := by
  obtain ⟨changes, hjournal, hallowed⟩ := h
  exact ⟨changes, hjournal, fun change hchange ↦ hmono change (hallowed change hchange)⟩

/-- A later disk, whatever changed. -/
abbrev Later (d d' : Disk Content) : Prop := Changed (fun _ ↦ True) d d'

theorem Changed.later (h : Changed allowed d d') : Later d d' := h.mono fun _ _ ↦ trivial

/-- The changes of two steps in a row are those of the first and those of the second. -/
theorem changed_trans_iff (h : Later d d') (h' : Later d' d'') :
    Changed allowed d d'' ↔ Changed allowed d d' ∧ Changed allowed d' d'' := by
  obtain ⟨first, hfirst, -⟩ := h
  obtain ⟨second, hsecond, -⟩ := h'
  constructor
  · rintro ⟨changes, hjournal, hallowed⟩
    obtain rfl : changes = second ++ first := by
      rw [hsecond, hfirst, ← List.append_assoc] at hjournal
      exact (List.append_cancel_right hjournal).symm
    exact ⟨⟨first, hfirst, fun change hchange ↦ hallowed change (by simp [hchange])⟩,
      ⟨second, hsecond, fun change hchange ↦ hallowed change (by simp [hchange])⟩⟩
  · rintro ⟨⟨changes, hjournal, hallowed⟩, ⟨changes', hjournal', hallowed'⟩⟩
    refine ⟨changes' ++ changes, by rw [hjournal', hjournal, List.append_assoc], ?_⟩
    intro change hchange
    exact (List.mem_append.mp hchange).elim (hallowed' change) (hallowed change)

theorem Changed.trans (h : Changed allowed d d') (h' : Changed allowed d' d'') :
    Changed allowed d d'' :=
  (changed_trans_iff h.later h'.later).mpr ⟨h, h'⟩

/-- One journal entry. -/
theorem changed_of_journal_cons {change : Change} (h : d'.journal = change :: d.journal) :
    Changed allowed d d' ↔ allowed change := by
  constructor
  · rintro ⟨changes, hjournal, hallowed⟩
    obtain rfl : changes = [change] := by
      rw [h] at hjournal
      exact (List.append_cancel_right (hjournal : [change] ++ d.journal = _)).symm
    exact hallowed change (by simp)
  · exact fun hchange ↦ ⟨[change], h, by simpa using hchange⟩

theorem changed_mkdirsFrom (d : Disk Content) (current : Path) (rest : List String) :
    Changed (fun change ↦ ∃ path, change = .put path ∧ current <+: path ∧
      path <+: current ++ rest ∧ d.node path = none) d (d.mkdirsFrom current rest) := by
  induction rest generalizing d current with
  | nil => exact .refl _ _
  | cons name rest ih =>
    have hweaken (e : Disk Content) (hnone : ∀ q, e.node q = none → d.node q = none)
        (change : Change) (h : ∃ path, change = .put path ∧ current ++ [name] <+: path ∧
          path <+: current ++ [name] ++ rest ∧ e.node path = none) :
        ∃ path, change = .put path ∧ current <+: path ∧ path <+: current ++ name :: rest ∧
          d.node path = none := by
      obtain ⟨path, hchange, habove, hbelow, hmissing⟩ := h
      exact ⟨path, hchange, (List.prefix_append _ _).trans habove, by simpa using hbelow,
        hnone path hmissing⟩
    rw [mkdirsFrom]
    split
    · exact .refl _ _
    · exact (ih d _).mono (hweaken d fun _ h ↦ h)
    · next hmissing =>
      refine Changed.trans ?_ ((ih _ _).mono (hweaken _ fun q hq ↦ ?_))
      · unfold mkdir
        split
        · exact (changed_of_journal_cons rfl).mpr ⟨_, rfl, by simp, by simp, hmissing⟩
        · exact .refl _ _
      · rw [node_mkdir] at hq
        split at hq
        · simp at hq
        · exact hq

/-- `mkdirs` creates missing directories above the path and the path itself. -/
theorem changed_mkdirs (d : Disk Content) (path : Path) :
    Changed (fun change ↦ ∃ above, change = .put above ∧ above <+: path ∧
      d.node above = none) d (d.mkdirs path) :=
  (d.changed_mkdirsFrom [] path).mono fun _ ⟨above, h, _, hrest⟩ ↦ ⟨above, h, hrest⟩

theorem exists_put_of_changed_mkdirsFrom (d : Disk Content) (current : Path)
    (first second : List String) (hcurrent : d.node current = some .dir)
    (h : ¬ d.Settled (current ++ first))
    (hchanged : Changed allowed d (d.mkdirsFrom current (first ++ second))) :
    ∃ above, above <+: current ++ first ∧ allowed (.put above) := by
  induction first generalizing current with
  | nil => exact absurd (.inl (by simpa using hcurrent)) h
  | cons name rest ih =>
    rw [List.cons_append, mkdirsFrom] at hchanged
    rcases d.node_cases (current ++ [name]) with hnone | hdir | hfile
    · rw [hnone] at hchanged
      have hmkdir : (d.mkdir current name).journal = .put (current ++ [name]) :: d.journal := by
        simp [mkdir, hcurrent, hnone, insert]
      have hlater : Later d (d.mkdir current name) :=
        (changed_of_journal_cons hmkdir).mpr trivial
      rw [changed_trans_iff hlater (changed_mkdirsFrom _ _ _).later] at hchanged
      exact ⟨current ++ [name], by simp, (changed_of_journal_cons hmkdir).mp hchanged.1⟩
    · rw [hdir] at hchanged
      obtain ⟨above, habove, hallowed⟩ := ih _ hdir (by simpa using h) hchanged
      exact ⟨above, by simpa using habove, hallowed⟩
    · exact absurd (.inr ⟨_, by simp [List.mem_inits], hfile⟩) h

/-- Where a path is not settled, `mkdirs` of it or of a path below creates a directory above it
or the path itself. -/
theorem exists_put_of_changed_mkdirs (d : Disk Content) (path : Path) (below : List String)
    (h : ¬ d.Settled path) (hchanged : Changed allowed d (d.mkdirs (path ++ below))) :
    ∃ above, above <+: path ∧ allowed (.put above) :=
  d.exists_put_of_changed_mkdirsFrom [] path below (by simp) h hchanged

theorem changed_write {path : Path} {content : Content} {h : d.Writable path} :
    Changed allowed d (d.write path content h) ↔ allowed (.put path) := by
  have hjournal : (d.write path content h).journal = .put path :: d.journal := by
    simp only [write, insert, List.dropLast_append_getLast]
  exact changed_of_journal_cons hjournal

theorem changed_delete (d : Disk Content) (path : Path) :
    Changed (fun change ↦ change = .deleted path) d (d.delete path) := by
  unfold delete
  split
  · exact (changed_of_journal_cons rfl).mpr rfl
  · exact .refl _ _

theorem changed_renameTo {source target : Path} (h : d.renameTo source target = some d') :
    Changed (fun change ↦ change = .renamed source target) d d' := by
  unfold renameTo at h
  split at h
  · obtain rfl := Option.some_inj.mp h
    exact .refl _ _
  · split at h
    · obtain rfl := Option.some_inj.mp h
      exact (changed_of_journal_cons rfl).mpr rfl
    · simp at h

end Orbot.Foundation.Disk
