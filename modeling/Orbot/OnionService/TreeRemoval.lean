import Orbot.Foundation.DiskRemoval
import Orbot.OnionService.Columns

/-!
# Removing a tree with entries that cannot be removed

`recursivelyDeleteDirectory` drops the results of its calls on the children and returns the result
of the last `delete`. So an entry that cannot be removed stops nothing: everything else below the
directory goes, and the directories above such an entry stay because they are not empty.
-/

namespace Orbot.OnionService.DiskUtils

open Orbot.Foundation

/-- An entry whose own removal fails; the root of a disk is always one. -/
def Unremovable (refused : Path → Bool) (path : Path) : Prop := refused path = true ∨ path = []

/-- `File.delete` with its result: a directory has to be empty. -/
def tryDelete (refused : Path → Bool) (d : Disk Bytes) (path : Path) : Bool × Disk Bytes :=
  if refused path = false ∧ path ≠ [] ∧ (d.node path).isSome ∧ d.listFiles path = [] then
    (true, d.delete path)
  else (false, d)

/-- `recursivelyDeleteDirectory` with its result, and with a bound on the levels to descend. -/
def recursivelyDeleteLevels (refused : Path → Bool) :
    ℕ → Disk Bytes → Path → Bool × Disk Bytes
  | 0, d, _ => (false, d)
  | levels + 1, d, directory =>
      tryDelete refused
        ((d.listFiles directory).foldl
          (fun d' name ↦ (recursivelyDeleteLevels refused levels d' (directory ++ [name])).2) d)
        directory

def recursivelyDeleteDirectory (refused : Path → Bool) (d : Disk Bytes) (directory : Path) :
    Bool × Disk Bytes :=
  recursivelyDeleteLevels refused (d.depth + 1) d directory

/-- The entry cannot be removed or is above one that cannot. -/
def Survives (refused : Path → Bool) (d : Disk Bytes) (path : Path) : Prop :=
  ∃ entry, path <+: entry ∧ (d.node entry).isSome ∧ Unremovable refused entry

/-- Of the entries that `below` selects just the survivors are left, of the others all. -/
def Prunes (refused : Path → Bool) (below : Path → Prop) (d d' : Disk Bytes) : Prop :=
  ∀ path node, d'.node path = some node ↔
    d.node path = some node ∧ (below path → Survives refused d path)

/-! ## Pruning -/

section Prunes

variable {refused : Path → Bool} {below below' : Path → Prop} {d d' d'' : Disk Bytes}

theorem Prunes.refl (hnone : ∀ path, ¬ below path) (d : Disk Bytes) :
    Prunes refused below d d :=
  fun path _ ↦ (and_iff_left fun hbelow ↦ absurd hbelow (hnone path)).symm

/-- Only the entries of the disk have to be selected alike. -/
theorem Prunes.congr (h : Prunes refused below d d')
    (hbelow : ∀ path, (d.node path).isSome → (below' path ↔ below path)) :
    Prunes refused below' d d' := by
  intro path node
  rw [h path node]
  apply and_congr_right
  intro hnode
  rw [hbelow path (by simp [hnode])]

theorem Prunes.isSome (h : Prunes refused below d d') {path : Path}
    (hpath : (d'.node path).isSome) : (d.node path).isSome := by
  obtain ⟨node, hnode⟩ := Option.isSome_iff_exists.mp hpath
  exact Option.isSome_iff_exists.mpr ⟨node, ((h path node).mp hnode).1⟩

theorem Prunes.node_eq (h : Prunes refused below d d') {path : Path} (hpath : ¬ below path) :
    d'.node path = d.node path := by
  ext node
  rw [h path node]
  exact and_iff_left fun hbelow ↦ absurd hbelow hpath

/-- The entries that cannot be removed are still there, so the same paths survive. -/
theorem Prunes.survives_iff (h : Prunes refused below d d') (path : Path) :
    Survives refused d' path ↔ Survives refused d path := by
  constructor
  · intro ⟨entry, hunder, hentry, hfails⟩
    exact ⟨entry, hunder, h.isSome hentry, hfails⟩
  · intro ⟨entry, hunder, hentry, hfails⟩
    obtain ⟨node, hnode⟩ := Option.isSome_iff_exists.mp hentry
    have hkept : d'.node entry = some node :=
      (h entry node).mpr ⟨hnode, fun _ ↦ ⟨entry, List.prefix_rfl, hentry, hfails⟩⟩
    exact ⟨entry, hunder, by simp [hkept], hfails⟩

theorem Prunes.trans (h : Prunes refused below d d') (h' : Prunes refused below' d' d'') :
    Prunes refused (fun path ↦ below path ∨ below' path) d d'' := by
  intro path node
  rw [h' path node, h path node, h.survives_iff path, or_imp, and_assoc]

end Prunes

theorem exists_child_of_prefix {above path : Path} (hunder : above <+: path)
    (hne : above ≠ path) : ∃ name, above ++ [name] <+: path := by
  obtain ⟨rest, rfl⟩ := hunder
  cases rest with
  | nil => simp at hne
  | cons name rest => exact ⟨name, by simp⟩

/-- An entry of the tree at a directory is the directory or lies in the tree of a child. -/
theorem prefix_iff_listed {d : Disk Bytes} {dir q : Path} (hq : (d.node q).isSome) :
    dir <+: q ↔ (∃ name ∈ d.listFiles dir, dir ++ [name] <+: q) ∨ q = dir := by
  constructor
  · intro hunder
    by_cases hsame : dir = q
    · exact .inr hsame.symm
    · obtain ⟨name, hname⟩ := exists_child_of_prefix hunder hsame
      refine .inl ⟨name, Disk.mem_listFiles.mpr (Option.isSome_iff_ne_none.mpr ?_), hname⟩
      intro hnone
      simp [Disk.node_eq_none_below hname hnone] at hq
  · intro h
    rcases h with ⟨name, _, hunder⟩ | rfl
    · exact (List.prefix_append _ _).trans hunder
    · exact List.prefix_rfl

/-! ## One removal -/

/-- An empty directory or a file survives only if it cannot be removed itself. -/
theorem survives_iff_of_listFiles_nil {refused : Path → Bool} {d : Disk Bytes} {path : Path}
    (hpath : (d.node path).isSome) (hempty : d.listFiles path = []) :
    Survives refused d path ↔ Unremovable refused path := by
  constructor
  · intro ⟨entry, hunder, hentry, hfails⟩
    rcases (prefix_iff_listed hentry).mp hunder with ⟨name, hname, _⟩ | rfl
    · simp [hempty] at hname
    · exact hfails
  · exact fun hfails ↦ ⟨path, List.prefix_rfl, hpath, hfails⟩

/-- A directory of which only survivors are left goes if and only if it is no survivor. -/
theorem prunes_tryDelete {refused : Path → Bool} {d : Disk Bytes} {path : Path}
    (hchildren : ∀ name ∈ d.listFiles path, Survives refused d (path ++ [name])) :
    Prunes refused (· = path) d (tryDelete refused d path).2 := by
  intro q node
  unfold tryDelete
  split
  · next hdelete =>
    obtain ⟨hrefused, hne, hpath, hempty⟩ := hdelete
    have hgone : ¬ Survives refused d path := by
      rw [survives_iff_of_listFiles_nil hpath hempty, Unremovable]
      simp [hrefused, hne]
    rw [Disk.node_delete]
    by_cases hq : q = path
    · simp [hq, hne, hempty, hgone]
    · simp [hq]
  · next hkept =>
    refine (and_iff_left_of_imp fun hnode hq ↦ ?_).symm
    subst hq
    have hexists : (d.node q).isSome := by simp [hnode]
    by_cases hempty : d.listFiles q = []
    · rw [survives_iff_of_listFiles_nil hexists hempty, Unremovable]
      by_contra hfails
      rw [not_or, Bool.not_eq_true] at hfails
      exact hkept ⟨hfails.1, hfails.2, hexists, hempty⟩
    · obtain ⟨name, hname⟩ := List.exists_mem_of_ne_nil _ hempty
      obtain ⟨entry, hunder, hentry⟩ := hchildren name hname
      exact ⟨entry, (List.prefix_append _ _).trans hunder, hentry⟩

theorem tryDelete_eq_true_iff {refused : Path → Bool} {d : Disk Bytes} {path : Path}
    (hpath : (d.node path).isSome) :
    (tryDelete refused d path).1 = true ↔ (tryDelete refused d path).2.node path = none := by
  unfold tryDelete
  split
  · next hdelete => simp [Disk.node_delete, hdelete.2.1, hdelete.2.2.2]
  · simpa using Option.isSome_iff_ne_none.mp hpath

/-! ## The recursion -/

/-- The loop over the children, when each call prunes the tree of its child. -/
theorem prunes_foldl {refused : Path → Bool} (remove : Disk Bytes → Path → Disk Bytes)
    (bound : ℕ) (dir : Path)
    (hremove : ∀ d name, (∀ q, (d.node q).isSome → q.length ≤ bound) →
      Prunes refused (dir ++ [name] <+: ·) d (remove d (dir ++ [name])))
    (names : List String) (d : Disk Bytes)
    (hbound : ∀ q, (d.node q).isSome → q.length ≤ bound) :
    Prunes refused (fun q ↦ ∃ name ∈ names, dir ++ [name] <+: q) d
      (names.foldl (fun d' name ↦ remove d' (dir ++ [name])) d) := by
  induction names generalizing d with
  | nil => exact .refl (by simp) d
  | cons name rest ih =>
    have hfirst := hremove d name hbound
    have hrest := ih _ fun q hq ↦ hbound q (hfirst.isSome hq)
    exact (hfirst.trans hrest).congr fun q _ ↦ by simp

/-- With enough levels the tree at the directory is pruned, and the result says whether the
directory is gone. -/
theorem recursivelyDeleteLevels_spec (refused : Path → Bool) (levels : ℕ) (d : Disk Bytes)
    (dir : Path) (hbound : ∀ q, (d.node q).isSome → q.length < dir.length + levels) :
    Prunes refused (dir <+: ·) d (recursivelyDeleteLevels refused levels d dir).2 ∧
      ((d.node dir).isSome → ((recursivelyDeleteLevels refused levels d dir).1 = true ↔
        (recursivelyDeleteLevels refused levels d dir).2.node dir = none)) := by
  induction levels generalizing d dir with
  | zero =>
    have hmissing : d.node dir = none := by
      by_contra hdir
      have := hbound dir (Option.isSome_iff_ne_none.mpr hdir)
      omega
    refine ⟨(Prunes.refl (fun _ ↦ not_false) d).congr fun q hq ↦ ?_, by simp [hmissing]⟩
    exact iff_false_intro fun hunder ↦ by simp [Disk.node_eq_none_below hunder hmissing] at hq
  | succ levels ih =>
    have hchildren := prunes_foldl
      (fun d' path ↦ (recursivelyDeleteLevels refused levels d' path).2)
      (dir.length + levels) dir
      (fun d' name hd' ↦ (ih d' (dir ++ [name]) (fun q hq ↦ by
        have := hd' q hq
        rw [List.length_append, List.length_singleton]
        omega)).1)
      (d.listFiles dir) d (fun q hq ↦ by
        have := hbound q hq
        omega)
    rw [recursivelyDeleteLevels]
    generalize List.foldl _ d _ = d' at hchildren ⊢
    -- what the loop leaves in the directory survives, so the directory goes unless it survives
    have hsurvivors : ∀ name ∈ d'.listFiles dir, Survives refused d' (dir ++ [name]) := by
      intro name hname
      have hleft := Disk.mem_listFiles.mp hname
      obtain ⟨node, hnode⟩ := Option.isSome_iff_exists.mp hleft
      rw [hchildren.survives_iff]
      exact ((hchildren _ node).mp hnode).2
        ⟨name, Disk.mem_listFiles.mpr (hchildren.isSome hleft), List.prefix_rfl⟩
    have hself : d'.node dir = d.node dir := by
      apply hchildren.node_eq
      intro ⟨name, _, hunder⟩
      have := hunder.length_le
      rw [List.length_append, List.length_singleton] at this
      omega
    exact ⟨(hchildren.trans (prunes_tryDelete hsurvivors)).congr fun q hq ↦ prefix_iff_listed hq,
      fun hdir ↦ tryDelete_eq_true_iff (hself ▸ hdir)⟩

theorem recursivelyDeleteDirectory_spec (refused : Path → Bool) (d : Disk Bytes) (dir : Path) :
    Prunes refused (dir <+: ·) d (recursivelyDeleteDirectory refused d dir).2 ∧
      ((d.node dir).isSome → ((recursivelyDeleteDirectory refused d dir).1 = true ↔
        (recursivelyDeleteDirectory refused d dir).2.node dir = none)) := by
  apply recursivelyDeleteLevels_spec
  intro q hq
  have := Disk.length_le_depth hq
  omega

/-- Of a tree, the entries that cannot be removed are left and those above them, nothing outside
the tree changes, and the result is true if and only if nothing of the tree is left. -/
theorem recursivelyDeleteDirectory_exact (refused : Path → Bool) (d : Disk Bytes) (root : Path)
    (hroot : (d.node root).isSome) :
    (∀ q, root <+: q → ∀ node, (recursivelyDeleteDirectory refused d root).2.node q = some node ↔
        d.node q = some node ∧
          ∃ entry, q <+: entry ∧ (d.node entry).isSome ∧ Unremovable refused entry) ∧
      (∀ q, ¬ root <+: q → (recursivelyDeleteDirectory refused d root).2.node q = d.node q) ∧
      ((recursivelyDeleteDirectory refused d root).1 = true ↔
        ∀ q, root <+: q → (recursivelyDeleteDirectory refused d root).2.node q = none) := by
  obtain ⟨hprunes, hresult⟩ := recursivelyDeleteDirectory_spec refused d root
  refine ⟨fun q hunder node ↦ ?_, fun q hnot ↦ hprunes.node_eq hnot, (hresult hroot).trans ?_⟩
  · rw [hprunes q node, imp_iff_right hunder, Survives]
  · exact ⟨fun hgone q hunder ↦ Disk.node_eq_none_below hunder hgone,
      fun hall ↦ hall root List.prefix_rfl⟩

/-- A directory of keys that cannot be removed keeps the directory of its service and not the
directory next to it. -/
theorem recursivelyDeleteDirectory_lockedKeys :
    let d := (Disk.initial.mkdirs ["v38080", "keys"]).mkdirs ["v38080", "authorized_clients"]
    let removed := recursivelyDeleteDirectory (· == ["v38080", "keys"]) d ["v38080"]
    removed.1 ≠ true ∧ removed.2.node ["v38080", "keys"] = some .dir ∧
      removed.2.node ["v38080", "authorized_clients"] = none := by
  intro d removed
  obtain ⟨hleft, -, hresult⟩ :=
    recursivelyDeleteDirectory_exact (· == ["v38080", "keys"]) d ["v38080"] (by decide)
  have hkeys : removed.2.node ["v38080", "keys"] = some .dir :=
    (hleft _ (by simp) .dir).mpr ⟨by decide, ["v38080", "keys"], by simp, by decide, .inl rfl⟩
  refine ⟨fun htrue ↦ ?_, hkeys, ?_⟩
  · have hnone := hresult.mp htrue ["v38080", "keys"] (by simp)
    simp [removed, hnone] at hkeys
  · by_contra hsome
    obtain ⟨node, hnode⟩ := Option.ne_none_iff_exists'.mp hsome
    obtain ⟨-, entry, hunder, -, hfails⟩ := (hleft _ (by simp) node).mp hnode
    rcases hfails with hrefused | rfl
    · rw [beq_iff_eq] at hrefused
      subst hrefused
      simp at hunder
    · simp at hunder

end Orbot.OnionService.DiskUtils
