import Orbot.Foundation.DiskChanges

/-!
# Many writes in a row

A list of directories to create and of files to write, newest first like the journal. When all of
it is carried out, what a path leads to is the content last written there, a directory that was
asked for with no file in the way, or what was there before: only the last content of a file
depends on the order.
-/

namespace Orbot.Foundation

universe u

variable {Content : Type u}

/-- A directory to create together with those above it, or a file to write. -/
inductive Put (Content : Type u) where
  | dir (path : Path)
  | file (path : Path) (content : Content)
  deriving DecidableEq

namespace Put

def path : Put Content → Path
  | .dir path | .file path _ => path

/-- A directory at or below `path`. -/
def AsksFor (path : Path) : Put Content → Prop
  | .dir asked => path <+: asked
  | .file _ _ => False

instance (path : Path) : ∀ put : Put Content, Decidable (put.AsksFor path)
  | .dir asked => inferInstanceAs (Decidable (path <+: asked))
  | .file _ _ => inferInstanceAs (Decidable False)

/-- The content last written to `path`. -/
def lastContent (path : Path) : List (Put Content) → Option Content
  | [] => none
  | .dir _ :: earlier => lastContent path earlier
  | .file other content :: earlier =>
      if other = path then some content else lastContent path earlier

theorem mem_of_lastContent {path : Path} {content : Content} {puts : List (Put Content)}
    (h : lastContent path puts = some content) : .file path content ∈ puts := by
  induction puts with
  | nil => simp [lastContent] at h
  | cons put earlier ih =>
    cases put with
    | dir asked => exact List.mem_cons_of_mem _ (ih h)
    | file other written =>
      rw [lastContent] at h
      split at h
      · next hother =>
        rw [hother, Option.some_inj.mp h]
        exact List.mem_cons_self
      · exact List.mem_cons_of_mem _ (ih h)

end Put

namespace Disk

/-! ## Carrying out the writes -/

def put (d : Disk Content) : Put Content → Option (Disk Content)
  | .dir path => some (d.mkdirs path)
  | .file path content => if h : d.Writable path then some (d.write path content h) else none

def putAll (d : Disk Content) : List (Put Content) → Option (Disk Content)
  | [] => some d
  | put :: earlier => (d.putAll earlier).bind fun written ↦ written.put put

/-! ## What the paths lead to then -/

/-- No file is at `path` or above it, neither from before nor written. -/
def FileFree (d : Disk Content) (puts : List (Put Content)) (path : Path) : Prop :=
  ∀ above ∈ path.inits, ¬ d.IsFile above ∧ Put.lastContent above puts = none

/-- A directory is asked for at or below `path`, and no file is in the way. -/
def BecomesDirectory (d : Disk Content) (puts : List (Put Content)) (path : Path) : Prop :=
  (∃ put ∈ puts, put.AsksFor path) ∧ d.FileFree puts path

instance (d : Disk Content) (puts : List (Put Content)) (path : Path) :
    Decidable (d.FileFree puts path) :=
  inferInstanceAs (Decidable (∀ above ∈ path.inits, _ ∧ _))

instance (d : Disk Content) (puts : List (Put Content)) (path : Path) :
    Decidable (d.BecomesDirectory puts path) :=
  inferInstanceAs (Decidable ((∃ put ∈ puts, _) ∧ _))

/-- What `path` leads to after the writes. -/
def nodeAfter (d : Disk Content) (puts : List (Put Content)) (path : Path) :
    Option (Node Content) :=
  match Put.lastContent path puts with
  | some content => some (.file content)
  | none => if d.BecomesDirectory puts path then some .dir else d.node path

variable {d : Disk Content} {puts : List (Put Content)} {path : Path}

theorem nodeAfter_of_written {content : Content}
    (h : Put.lastContent path puts = some content) :
    d.nodeAfter puts path = some (.file content) := by
  rw [nodeAfter, h]

theorem nodeAfter_of_not_written (h : Put.lastContent path puts = none) :
    d.nodeAfter puts path =
      if d.BecomesDirectory puts path then some .dir else d.node path := by
  rw [nodeAfter, h]

theorem BecomesDirectory.not_written (h : d.BecomesDirectory puts path) :
    Put.lastContent path puts = none :=
  (h.2 path ((List.mem_inits _ _).mpr List.prefix_rfl)).2

theorem BecomesDirectory.nodeAfter (h : d.BecomesDirectory puts path) :
    d.nodeAfter puts path = some .dir := by
  rw [nodeAfter_of_not_written h.not_written, if_pos h]

/-- Afterwards a file is written, or it is an old one: no directory is made of it. -/
theorem isFile_after_iff {d' : Disk Content} (hnode : d'.node path = d.nodeAfter puts path) :
    d'.IsFile path ↔ d.IsFile path ∨ Put.lastContent path puts ≠ none := by
  rw [isFile_iff, hnode]
  cases hwritten : Put.lastContent path puts with
  | some content => simp [nodeAfter_of_written hwritten]
  | none =>
    rw [nodeAfter_of_not_written hwritten]
    split
    · next hdir =>
      have hnot := (hdir.2 path ((List.mem_inits _ _).mpr List.prefix_rfl)).1
      simp [hnot]
    · simp [isFile_iff]

/-- Nothing is in the way of a directory when no file was and none is written. -/
theorem fileFree_iff_after {d' : Disk Content} (hnode : ∀ q, d'.node q = d.nodeAfter puts q) :
    d.FileFree puts path ↔ ∀ above ∈ path.inits, ¬ d'.IsFile above := by
  refine forall₂_congr fun above _ ↦ ?_
  rw [isFile_after_iff (hnode above), not_or, not_not]

theorem nodeAfter_dir_cons (asked : Path) :
    d.nodeAfter (.dir asked :: puts) path =
      if path <+: asked ∧ d.FileFree puts path then some .dir else d.nodeAfter puts path := by
  have hbecomes : d.BecomesDirectory (.dir asked :: puts) path ↔
      (path <+: asked ∧ d.FileFree puts path) ∨ d.BecomesDirectory puts path := by
    rw [BecomesDirectory, List.exists_mem_cons_iff, or_and_right]
    rfl
  cases hwritten : Put.lastContent path puts with
  | some content =>
    have hnot : ¬ d.FileFree puts path := by
      intro hfree
      have hnone := (hfree path ((List.mem_inits _ _).mpr List.prefix_rfl)).2
      simp [hwritten] at hnone
    rw [if_neg fun h ↦ hnot h.2, nodeAfter_of_written hwritten]
    exact nodeAfter_of_written hwritten
  | none =>
    have hstill : Put.lastContent path (.dir asked :: puts) = none := hwritten
    rw [nodeAfter_of_not_written hstill, nodeAfter_of_not_written hwritten]
    by_cases hnew : path <+: asked ∧ d.FileFree puts path
    · rw [if_pos (hbecomes.mpr (.inl hnew)), if_pos hnew]
    · rw [if_neg hnew]
      exact if_congr (hbecomes.trans (or_iff_right hnew)) rfl rfl

/-- Writing a file changes its path only, where the file can be written. -/
theorem nodeAfter_file_cons {written : Path} {content : Content}
    (hbelow : ∀ q, written <+: q → written ≠ q → d.nodeAfter puts q = none) :
    d.nodeAfter (.file written content :: puts) path =
      if path = written then some (.file content) else d.nodeAfter puts path := by
  by_cases hpath : path = written
  · rw [if_pos hpath, nodeAfter_of_written]
    exact if_pos hpath.symm
  · have hlast (q : Path) (hq : q ≠ written) : Put.lastContent q (.file written content :: puts) =
        Put.lastContent q puts := if_neg hq.symm
    rw [if_neg hpath, nodeAfter, nodeAfter, hlast path hpath]
    cases Put.lastContent path puts with
    | some earlier => rfl
    | none =>
      refine if_congr ?_ rfl rfl
      have hasked : (∃ put ∈ .file written content :: puts, put.AsksFor path) ↔
          ∃ put ∈ puts, put.AsksFor path := by
        rw [List.exists_mem_cons_iff]
        exact or_iff_right id
      constructor
      · rintro ⟨hask, hfree⟩
        refine ⟨hasked.mp hask, fun above habove ↦ ⟨(hfree above habove).1, ?_⟩⟩
        have hnone := (hfree above habove).2
        rw [Put.lastContent] at hnone
        split at hnone
        · simp at hnone
        · exact hnone
      · intro hdir
        refine ⟨hasked.mpr hdir.1, fun above habove ↦ ⟨(hdir.2 above habove).1, ?_⟩⟩
        rw [hlast above]
        · exact (hdir.2 above habove).2
        · rintro rfl
          have hnone := hbelow path ((List.mem_inits _ _).mp habove) (Ne.symm hpath)
          simp [hdir.nodeAfter] at hnone

/-- After all the writes every path leads to what `nodeAfter` says. -/
theorem node_putAll {d' : Disk Content} (h : d.putAll puts = some d') (q : Path) :
    d'.node q = d.nodeAfter puts q := by
  induction puts generalizing d' q with
  | nil =>
    obtain rfl := Option.some_inj.mp h
    rw [nodeAfter_of_not_written rfl, if_neg]
    rintro ⟨⟨put, hput, -⟩, -⟩
    simp at hput
  | cons put earlier ih =>
    obtain ⟨before, hbefore, hput⟩ := Option.bind_eq_some_iff.mp h
    have hnode := ih hbefore
    cases put with
    | dir asked =>
      obtain rfl := Option.some_inj.mp hput
      rw [node_mkdirs_eq, nodeAfter_dir_cons, hnode]
      exact if_congr (and_congr_right' (fileFree_iff_after hnode).symm) rfl rfl
    | file written content =>
      rw [put] at hput
      split at hput
      · next hwritable =>
        obtain rfl := Option.some_inj.mp hput
        have hbelow (below : Path) (hunder : written <+: below) (hne : written ≠ below) :
            d.nodeAfter earlier below = none := by
          rw [← hnode]
          by_contra hexists
          exact hwritable.2.2 (node_dir_above hunder hne (Option.isSome_iff_ne_none.mpr hexists))
        rw [node_write, nodeAfter_file_cons hbelow, hnode]
      · simp at hput

theorem grows_put {d' : Disk Content} {put : Put Content} (h : d.put put = some d') :
    Grows d d' := by
  cases put with
  | dir asked =>
    obtain rfl := Option.some_inj.mp h
    exact d.grows_mkdirs asked
  | file written content =>
    rw [Disk.put] at h
    split at h
    · obtain rfl := Option.some_inj.mp h
      exact grows_write
    · simp at h

theorem later_put {d' : Disk Content} {put : Put Content} (h : d.put put = some d') :
    Later d d' := by
  cases put with
  | dir asked =>
    obtain rfl := Option.some_inj.mp h
    exact (d.changed_mkdirs asked).later
  | file written content =>
    rw [Disk.put] at h
    split at h
    · obtain rfl := Option.some_inj.mp h
      exact changed_write.mpr trivial
    · simp at h

theorem grows_putAll {d' : Disk Content} (h : d.putAll puts = some d') : Grows d d' := by
  induction puts generalizing d' with
  | nil =>
    obtain rfl := Option.some_inj.mp h
    exact .refl d
  | cons put earlier ih =>
    obtain ⟨before, hbefore, hput⟩ := Option.bind_eq_some_iff.mp h
    exact (ih hbefore).trans (grows_put hput)

theorem later_putAll {d' : Disk Content} (h : d.putAll puts = some d') : Later d d' := by
  induction puts generalizing d' with
  | nil =>
    obtain rfl := Option.some_inj.mp h
    exact .refl _ d
  | cons put earlier ih =>
    obtain ⟨before, hbefore, hput⟩ := Option.bind_eq_some_iff.mp h
    exact (ih hbefore).trans (later_put hput)

/-! ## What the writes add -/

/-- The writes add nothing at `path`: the file had the content, the directory was there. -/
def AddsNothingAt (d : Disk Content) (puts : List (Put Content)) (path : Path) : Prop :=
  (∀ content ∈ Put.lastContent path puts, d.node path = some (.file content)) ∧
    (d.BecomesDirectory puts path → d.node path = some .dir)

theorem addsNothingAt_iff : d.AddsNothingAt puts path ↔ d.nodeAfter puts path = d.node path := by
  rw [AddsNothingAt]
  cases hwritten : Put.lastContent path puts with
  | some content =>
    have hnot : ¬ d.BecomesDirectory puts path := fun h ↦ by simp [h.not_written] at hwritten
    rw [nodeAfter_of_written hwritten, eq_comm (a := some (Node.file content))]
    simp [hnot]
  | none =>
    rw [nodeAfter_of_not_written hwritten]
    by_cases hdir : d.BecomesDirectory puts path
    · rw [if_pos hdir, eq_comm]
      simp [hdir]
    · simp [hdir]

/-! ## Writes inside one directory -/

section Inside

variable {base : Path} {child : String}

/-- A write changes nothing outside of a child of `base`: a file is in it, and a directory is there
already, or is in it with nothing to create above. -/
def WritesInside (d : Disk Content) (base : Path) (child : String) : Put Content → Prop
  | .dir asked => d.Settled asked ∨ base ++ [child] <+: asked ∧ d.Settled base
  | .file written _ => base ++ [child] <+: written

theorem not_child_prefix : ¬ base ++ [child] <+: base := by
  intro h
  have := h.length_le
  rw [List.length_append, List.length_singleton] at this
  omega

/-- `mkdirs` stays inside if and only if it has nothing to do, or works below a settled base. -/
theorem changed_mkdirs_inside_iff {allowed : Change → Prop}
    (hallowed : ∀ q, allowed (.put q) ↔ base ++ [child] <+: q) :
    Changed allowed d (d.mkdirs path) ↔
      d.Settled path ∨ base ++ [child] <+: path ∧ d.Settled base := by
  constructor
  · intro hchanged
    refine or_iff_not_imp_left.mpr fun hsettled ↦ ?_
    obtain ⟨above, habove, hput⟩ :=
      d.exists_put_of_changed_mkdirs path [] hsettled (by simpa using hchanged)
    have hunder := ((hallowed above).mp hput).trans habove
    refine ⟨hunder, ?_⟩
    by_contra hbase
    obtain ⟨below, rfl⟩ := (List.prefix_append base [child]).trans hunder
    obtain ⟨above, habove, hput⟩ := d.exists_put_of_changed_mkdirs base below hbase hchanged
    exact not_child_prefix (((hallowed above).mp hput).trans habove)
  · by_cases hsettled : d.Settled path
    · rw [mkdirs_of_settled hsettled]
      exact fun _ ↦ .refl _ d
    · intro h
      obtain ⟨hunder, hbase⟩ := h.resolve_left hsettled
      refine (d.changed_mkdirs path).mono ?_
      rintro _ ⟨above, rfl, habove, hmissing⟩
      rw [hallowed]
      by_contra hout
      -- what is created above the child is missing, though the base is settled
      have hover := (List.prefix_or_prefix_of_prefix hunder habove).resolve_left hout
      have habove' : d.Settled above := by
        refine hbase.above ((List.prefix_concat_iff.mp hover).resolve_left ?_)
        rintro rfl
        exact hout List.prefix_rfl
      rcases habove' with hdir | ⟨file, hfile, hisFile⟩
      · simp [hdir] at hmissing
      · refine hsettled (.inr ⟨file, ?_, hisFile⟩)
        exact (List.mem_inits _ _).mpr (((List.mem_inits _ _).mp hfile).trans habove)

/-- A directory after writes inside the child was settled, or is in the child. -/
theorem settled_of_dir_after {d' : Disk Content} (h : d.putAll puts = some d')
    (hinside : ∀ put ∈ puts, d.WritesInside base child put) (hdir : d'.node path = some .dir) :
    d.Settled path ∨ base ++ [child] <+: path ∧ d.Settled base := by
  rw [node_putAll h] at hdir
  cases hwritten : Put.lastContent path puts with
  | some content => simp [nodeAfter_of_written hwritten] at hdir
  | none =>
    rw [nodeAfter_of_not_written hwritten] at hdir
    split at hdir
    · next hbecomes =>
      obtain ⟨⟨put, hput, hask⟩, -⟩ := hbecomes
      cases put with
      | file _ _ => exact hask.elim
      | dir asked =>
        rcases hinside _ hput with hsettled | ⟨hunder, hbase⟩
        · exact .inl (hsettled.above hask)
        · by_cases hin : base ++ [child] <+: path
          · exact .inr ⟨hin, hbase⟩
          · have hover := (List.prefix_or_prefix_of_prefix hask hunder).resolve_right hin
            refine .inl (hbase.above ((List.prefix_concat_iff.mp hover).resolve_left ?_))
            rintro rfl
            exact hin List.prefix_rfl
    · exact .inl (.inl hdir)

/-- What is settled after writes inside the child was settled, or is in the child. -/
theorem settled_of_after {d' : Disk Content} (h : d.putAll puts = some d')
    (hinside : ∀ put ∈ puts, d.WritesInside base child put) (hsettled : d'.Settled path) :
    d.Settled path ∨ base ++ [child] <+: path ∧ d.Settled base := by
  rcases hsettled with hdir | ⟨file, hfile, hisFile⟩
  · exact settled_of_dir_after h hinside hdir
  · rcases (isFile_after_iff (node_putAll h file)).mp hisFile with hbefore | hwritten
    · exact .inl (.inr ⟨file, hfile, hbefore⟩)
    · obtain ⟨content, hcontent⟩ := Option.ne_none_iff_exists'.mp hwritten
      have hunder : base ++ [child] <+: file := hinside _ (Put.mem_of_lastContent hcontent)
      have hexists : (d'.node file).isSome := by
        simp [node_putAll h, nodeAfter_of_written hcontent]
      have hbase : d'.node base = some .dir := by
        refine node_dir_above ((List.prefix_append _ _).trans hunder) ?_ hexists
        rintro rfl
        exact not_child_prefix hunder
      refine .inr ⟨hunder.trans ((List.mem_inits _ _).mp hfile), ?_⟩
      exact (settled_of_dir_after h hinside hbase).resolve_right fun h ↦ not_child_prefix h.1

/-- The changes of the writes stay inside the child if and only if each of them does. -/
theorem changed_putAll_iff {allowed : Change → Prop}
    (hallowed : ∀ q, allowed (.put q) ↔ base ++ [child] <+: q) {d' : Disk Content}
    (h : d.putAll puts = some d') :
    Changed allowed d d' ↔ ∀ put ∈ puts, d.WritesInside base child put := by
  induction puts generalizing d' with
  | nil =>
    obtain rfl := Option.some_inj.mp h
    exact iff_of_true (.refl _ d) (by simp)
  | cons put earlier ih =>
    obtain ⟨before, hbefore, hput⟩ := Option.bind_eq_some_iff.mp h
    rw [changed_trans_iff (later_putAll hbefore) (later_put hput), ih hbefore,
      List.forall_mem_cons, and_comm]
    refine and_congr_left fun hinside ↦ ?_
    cases put with
    | dir asked =>
      obtain rfl := Option.some_inj.mp hput
      have hgrows := grows_putAll hbefore
      rw [changed_mkdirs_inside_iff hallowed]
      constructor
      · rintro (hsettled | ⟨hunder, hbase⟩)
        · exact settled_of_after hbefore hinside hsettled
        · have hsettled := settled_of_after hbefore hinside hbase
          exact .inr ⟨hunder, hsettled.resolve_right fun h ↦ not_child_prefix h.1⟩
      · rintro (hsettled | ⟨hunder, hbase⟩)
        · exact .inl (hsettled.grow hgrows)
        · exact .inr ⟨hunder, hbase.grow hgrows⟩
    | file written content =>
      rw [Disk.put] at hput
      split at hput
      · obtain rfl := Option.some_inj.mp hput
        rw [changed_write, hallowed]
        rfl
      · simp at hput

end Inside

/-! ## Listing a directory afterwards -/

/-- The names in a directory after the writes. -/
def namesAfter (d : Disk Content) (puts : List (Put Content)) (dir : Path) : List String :=
  (d.listFiles dir ++ puts.filterMap fun put ↦ (put.path.drop dir.length).head?).filter
    fun name ↦ (d.nodeAfter puts (dir ++ [name])).isSome

theorem mem_namesAfter {dir : Path} {name : String} :
    name ∈ d.namesAfter puts dir ↔ (d.nodeAfter puts (dir ++ [name])).isSome := by
  rw [namesAfter, List.mem_filter, and_iff_right_iff_imp, List.mem_append, List.mem_filterMap]
  intro h
  have hput {put : Put Content} (hunder : dir ++ [name] <+: put.path) :
      (put.path.drop dir.length).head? = some name := by
    obtain ⟨rest, hrest⟩ := hunder
    rw [← hrest, List.append_assoc, List.drop_left]
    rfl
  cases hwritten : Put.lastContent (dir ++ [name]) puts with
  | some content =>
    exact .inr ⟨_, Put.mem_of_lastContent hwritten, hput List.prefix_rfl⟩
  | none =>
    rw [nodeAfter_of_not_written hwritten] at h
    split at h
    · next hdir =>
      obtain ⟨⟨put, hmem, hask⟩, -⟩ := hdir
      cases put with
      | dir asked => exact .inr ⟨_, hmem, hput hask⟩
      | file _ _ => exact hask.elim
    · exact .inl (mem_listFiles.mpr h)

theorem namesAfter_eq_nil {dir : Path} :
    d.namesAfter puts dir = [] ↔ ∀ name, d.nodeAfter puts (dir ++ [name]) = none := by
  rw [List.eq_nil_iff_forall_not_mem]
  simp only [mem_namesAfter, Option.not_isSome_iff_eq_none]

end Disk

end Orbot.Foundation
