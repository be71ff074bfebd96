import Orbot.Foundation.DiskChanges

/-!
# Removing and renaming by name

`deleteAll` is the loop that deletes the entries of one directory, without descending. `deleteAt`
and `renameAt` take the path as the program wrote it: the system calls under them refuse a path
whose last component is `.` or `..`. `depth` bounds a descent through the tree.
-/

namespace Orbot.Foundation.Disk

universe u

variable {Content : Type u}

/-- Delete the named entries of a directory, one after the other. -/
def deleteAll (d : Disk Content) (dir : Path) : List String → Disk Content
  | [] => d
  | name :: rest => (d.delete (dir ++ [name])).deleteAll dir rest

/-- A path that `delete` removes: a file or an empty directory. -/
def Deletable (d : Disk Content) (path : Path) : Prop :=
  (d.node path).isSome ∧ d.listFiles path = []

instance (d : Disk Content) (path : Path) : Decidable (d.Deletable path) :=
  inferInstanceAs (Decidable (_ ∧ _))

theorem listFiles_congr_nil {d d' : Disk Content} {path : Path}
    (h : ∀ name, d'.node (path ++ [name]) = d.node (path ++ [name])) :
    d'.listFiles path = [] ↔ d.listFiles path = [] := by
  simp only [listFiles_eq_nil, h]

theorem node_deleteAll (d : Disk Content) (dir : Path) (names : List String) (q : Path) :
    (d.deleteAll dir names).node q =
      if (∃ name ∈ names, q = dir ++ [name]) ∧ d.listFiles q = [] then none else d.node q := by
  induction names generalizing d with
  | nil => simp [deleteAll]
  | cons name rest ih =>
    have hlist (other : String) : (d.delete (dir ++ [name])).listFiles (dir ++ [other]) = [] ↔
        d.listFiles (dir ++ [other]) = [] :=
      listFiles_congr_nil fun child ↦ by
        rw [node_delete, if_neg]
        rintro ⟨h, -⟩
        simpa using congrArg List.length h
    rw [deleteAll, ih, node_delete]
    by_cases hq : ∃ other, q = dir ++ [other]
    · obtain ⟨other, rfl⟩ := hq
      simp only [hlist]
      by_cases hempty : d.listFiles (dir ++ [other]) = []
      · by_cases hother : other = name
        · subst hother
          simp [hempty]
        · simp [hempty, hother]
      · have hne : ¬ (other = name ∧ d.listFiles (dir ++ [name]) = []) := by
          rintro ⟨rfl, h⟩
          exact hempty h
        simp [hempty, hne]
    · have hnot : ∀ other, q ≠ dir ++ [other] := fun other h ↦ hq ⟨other, h⟩
      simp [hnot]

theorem deleteAll_append (d : Disk Content) (dir : Path) (first second : List String) :
    d.deleteAll dir (first ++ second) = (d.deleteAll dir first).deleteAll dir second := by
  induction first generalizing d with
  | nil => rfl
  | cons name rest ih => exact ih _

theorem listFiles_deleteAll_below (d : Disk Content) (dir : Path) (names : List String)
    (name : String) :
    (d.deleteAll dir names).listFiles (dir ++ [name]) = [] ↔ d.listFiles (dir ++ [name]) = [] := by
  refine listFiles_congr_nil fun child ↦ ?_
  rw [node_deleteAll, if_neg]
  rintro ⟨⟨other, -, h⟩, -⟩
  simpa using congrArg List.length h

/-- Delete the named entries of a directory that are no directories, except where that is
refused. -/
def deleteFiles (d : Disk Content) (dir : Path) (refused : String → Bool) :
    List String → Disk Content
  | [] => d
  | name :: rest =>
      let kept := d.isDirectory (dir ++ [name]) || refused name
      (if kept then d else d.delete (dir ++ [name])).deleteFiles dir refused rest

theorem node_deleteFiles (d : Disk Content) (dir : Path) (refused : String → Bool)
    (names : List String) (q : Path) :
    (d.deleteFiles dir refused names).node q =
      if (∃ name ∈ names, refused name = false ∧ q = dir ++ [name]) ∧ d.node q ≠ some .dir then none
      else d.node q := by
  induction names generalizing d with
  | nil => simp [deleteFiles]
  | cons name rest ih =>
    have hstep : (if d.isDirectory (dir ++ [name]) || refused name then d
        else d.delete (dir ++ [name])).node q =
          if (refused name = false ∧ q = dir ++ [name]) ∧ d.node q ≠ some .dir then none
          else d.node q := by
      by_cases hdir : d.node (dir ++ [name]) = some .dir
      · rw [isDirectory_iff.mpr hdir, Bool.true_or, if_pos rfl, if_neg]
        rintro ⟨⟨-, rfl⟩, hnot⟩
        exact hnot hdir
      · have hfile : d.isDirectory (dir ++ [name]) = false := by
          rw [← Bool.not_eq_true, isDirectory_iff]
          exact hdir
        rw [hfile, Bool.false_or]
        cases refused name with
        | true => simp
        | false =>
          rw [if_neg Bool.false_ne_true, node_delete_file hdir]
          by_cases hq : q = dir ++ [name]
          · simp [hq, hdir]
          · simp [hq]
    rw [deleteFiles, ih]
    by_cases hgone : (refused name = false ∧ q = dir ++ [name]) ∧ d.node q ≠ some .dir
    · rw [if_pos hgone] at hstep
      have hmem : ∃ other ∈ name :: rest, refused other = false ∧ q = dir ++ [other] :=
        ⟨name, List.mem_cons_self, hgone.1⟩
      rw [if_pos (And.intro hmem hgone.2)]
      exact ite_eq_left_iff.mpr fun _ ↦ hstep
    · rw [if_neg hgone] at hstep
      refine if_congr ?_ rfl hstep
      rw [hstep, List.exists_mem_cons_iff]
      tauto

/-- The system calls refuse a path that does not end in the name of an entry. -/
def EndsInName (components : List String) : Prop :=
  ∀ last ∈ components.getLast?, Path.IsName last

instance (components : List String) : Decidable (EndsInName components) :=
  inferInstanceAs (Decidable (∀ last ∈ components.getLast?, _))

/-- `File.delete` on the path that the components denote. -/
def deleteAt (d : Disk Content) (start : Path) (components : List String) : Disk Content :=
  if EndsInName components then
    match d.walk start components with
    | some path => d.delete path
    | none => d
  else d

/-- `File.renameTo` on the path that the components denote. -/
def renameAt (d : Disk Content) (start : Path) (components : List String) (target : Path) :
    Option (Disk Content) :=
  if EndsInName components then
    (d.walk start components).bind fun source ↦ d.renameTo source target
  else none

/-- `deleteAt` on `components` removes `path`. -/
def Removes (d : Disk Content) (start : Path) (components : List String) (path : Path) : Prop :=
  EndsInName components ∧ d.walk start components = some path ∧ path ≠ [] ∧
    d.listFiles path = []

instance (d : Disk Content) (start : Path) (components : List String) (path : Path) :
    Decidable (d.Removes start components path) :=
  inferInstanceAs (Decidable (_ ∧ _ ∧ _ ∧ _))

theorem node_deleteAt (d : Disk Content) (start : Path) (components : List String) (q : Path) :
    (d.deleteAt start components).node q =
      if d.Removes start components q then none else d.node q := by
  unfold deleteAt
  split
  · next hends =>
    cases hwalk : d.walk start components with
    | none => simp [Removes, hwalk]
    | some path =>
      simp only [node_delete, Removes, hends, hwalk, true_and, Option.some_inj]
      by_cases hq : q = path
      · subst hq
        simp
      · rw [if_neg (fun h ↦ hq h.1), if_neg (fun h ↦ hq h.1.symm)]
  · next hends => rw [if_neg (fun h ↦ hends h.1)]

theorem listFiles_deleteAll (d : Disk Content) (dir : Path) :
    (d.deleteAll dir (d.listFiles dir)).listFiles dir = [] ↔
      ∀ name ∈ d.listFiles dir, d.listFiles (dir ++ [name]) = [] := by
  rw [listFiles_eq_nil]
  constructor
  · intro h name hname
    by_contra hfull
    have hgone := h name
    rw [node_deleteAll, if_neg (fun h ↦ hfull h.2)] at hgone
    rw [mem_listFiles, hgone] at hname
    simp at hname
  · intro h name
    rw [node_deleteAll]
    split
    · rfl
    · next hkept =>
      by_contra hname
      have hmem := mem_listFiles.mpr (Option.isSome_iff_ne_none.mpr hname)
      exact hkept ⟨⟨name, hmem, rfl⟩, h name hmem⟩

theorem endsInName_of_names {names : List String} (hnames : ∀ name ∈ names, Path.IsName name) :
    EndsInName names :=
  fun last hlast ↦ hnames last (List.mem_of_getLast? hlast)

theorem deleteAt_names {d : Disk Content} {start : Path} {names : List String}
    (hnames : ∀ name ∈ names, Path.IsName name) (h : (d.node (start ++ names)).isSome) :
    d.deleteAt start names = d.delete (start ++ names) := by
  rw [deleteAt, if_pos (endsInName_of_names hnames), walk_names hnames h]

theorem renameAt_names {d : Disk Content} {start : Path} {names : List String}
    (hnames : ∀ name ∈ names, Path.IsName name) (h : (d.node (start ++ names)).isSome)
    (target : Path) : d.renameAt start names target = d.renameTo (start ++ names) target := by
  rw [renameAt, if_pos (endsInName_of_names hnames), walk_names hnames h, Option.bind_some]

theorem node_renameAt {d d' : Disk Content} {start target : Path} {components : List String}
    (h : d.renameAt start components target = some d') (q : Path) :
    d'.node q =
      if target <+: q then d.node (Path.normalize start components ++ q.drop target.length)
      else if Path.normalize start components <+: q then none
      else d.node q := by
  unfold renameAt at h
  split at h
  · obtain ⟨source, hwalk, hrename⟩ := Option.bind_eq_some_iff.mp h
    rw [← walk_eq_normalize hwalk]
    exact node_renameTo hrename q
  · simp at h

theorem changed_deleteAt (d : Disk Content) (start : Path) (components : List String) :
    Changed (fun change ↦ change = .deleted (Path.normalize start components)) d
      (d.deleteAt start components) := by
  unfold deleteAt
  split
  · split
    · next path hwalk =>
      rw [← walk_eq_normalize hwalk]
      exact d.changed_delete path
    · exact .refl _ d
  · exact .refl _ d

theorem changed_renameAt {d d' : Disk Content} {start target : Path} {components : List String}
    (h : d.renameAt start components target = some d') :
    Changed (fun change ↦ change = .renamed (Path.normalize start components) target) d d' := by
  unfold renameAt at h
  split at h
  · obtain ⟨source, hwalk, hrename⟩ := Option.bind_eq_some_iff.mp h
    rw [← walk_eq_normalize hwalk]
    exact changed_renameTo hrename
  · simp at h

/-- The length of the longest path. -/
def depth (d : Disk Content) : ℕ :=
  d.entries.foldr (fun entry longest ↦ max entry.1.length longest) 0

theorem length_le_depth {d : Disk Content} {path : Path} (h : (d.node path).isSome) :
    path.length ≤ d.depth := by
  obtain ⟨entry, hentry, rfl⟩ := (lookup_isSome_iff_mem _ _).mp h
  unfold depth
  generalize d.entries = entries at hentry
  induction entries with
  | nil => simp at hentry
  | cons head rest ih =>
    rcases List.mem_cons.mp hentry with rfl | hrest
    · exact Nat.le_max_left _ _
    · exact Nat.le_trans (ih hrest) (Nat.le_max_right _ _)

end Orbot.Foundation.Disk
