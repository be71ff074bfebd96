import Mathlib.Data.List.Infix
import Orbot.Foundation.Disk

/-!
# File operations

The operations of `java.io.File`, `FileInputStream` and `FileOutputStream` on a directory tree.
Paths that a program builds by concatenation are given by their components and resolved on the
disk with `walk`; the other operations take the resolved path.
-/

namespace Orbot.Foundation.Disk

universe u

variable {Content : Type u}

/-! ## Directories -/

/-- `mkdir`: create one missing directory inside an existing one. -/
def mkdir (d : Disk Content) (path : Path) (name : String) : Disk Content :=
  if h : d.node path = some .dir ∧ d.node (path ++ [name]) = none then
    d.insert path name .dir h.1 (by simp [h.2])
  else d

/-- Descend from `current`, creating what is missing, until a file is in the way. -/
def mkdirsFrom (d : Disk Content) (current : Path) : List String → Disk Content
  | [] => d
  | name :: rest =>
      match d.node (current ++ [name]) with
      | some (.file _) => d
      | some .dir => d.mkdirsFrom (current ++ [name]) rest
      | none => (d.mkdir current name).mkdirsFrom (current ++ [name]) rest

/-- `mkdirs`: create a directory together with the missing directories above it. -/
def mkdirs (d : Disk Content) (path : Path) : Disk Content :=
  d.mkdirsFrom [] path

theorem node_mkdir {d : Disk Content} {path : Path} {name : String} (q : Path) :
    (d.mkdir path name).node q =
      if d.node path = some .dir ∧ d.node (path ++ [name]) = none ∧ q = path ++ [name] then
        some .dir
      else d.node q := by
  unfold mkdir
  split
  · next h => simp [node_insert, h.1, h.2]
  · next h => rw [if_neg (fun h' ↦ h ⟨h'.1, h'.2.1⟩)]

theorem mkdirsFrom_of_isDirectory (d : Disk Content) (current : Path) (rest : List String)
    (h : d.node (current ++ rest) = some .dir) : d.mkdirsFrom current rest = d := by
  induction rest generalizing current with
  | nil => rfl
  | cons name rest ih =>
    have hstep : d.node (current ++ [name]) = some .dir := by
      by_cases hrest : rest = []
      · simpa [hrest] using h
      · have hexists : (d.node (current ++ name :: rest)).isSome := by simp [h]
        exact node_dir_above (by simp) (by simpa using hrest) hexists
    rw [mkdirsFrom, hstep]
    exact ih (current ++ [name]) (by simpa using h)

/-- Nothing happens where the directory exists. -/
theorem mkdirs_of_isDirectory {d : Disk Content} {path : Path} (h : d.node path = some .dir) :
    d.mkdirs path = d :=
  d.mkdirsFrom_of_isDirectory [] path h

theorem mkdirsFrom_append (d : Disk Content) (current : Path) (first second : List String)
    (h : d.node (current ++ first) = some .dir) :
    d.mkdirsFrom current (first ++ second) = d.mkdirsFrom (current ++ first) second := by
  induction first generalizing current with
  | nil => simp
  | cons name rest ih =>
    have hstep : d.node (current ++ [name]) = some .dir := by
      by_cases hrest : rest = []
      · simpa [hrest] using h
      · have hexists : (d.node (current ++ name :: rest)).isSome := by simp [h]
        exact node_dir_above (by simp) (by simpa using hrest) hexists
    rw [List.cons_append, mkdirsFrom, hstep]
    rw [ih (current ++ [name]) (by simpa using h)]
    simp

/-- Inside an existing directory only the one missing directory is created. -/
theorem mkdirs_child {d : Disk Content} {path : Path} {name : String}
    (h : d.node path = some .dir) :
    d.mkdirs (path ++ [name]) =
      if d.node (path ++ [name]) = none then d.mkdir path name else d := by
  rw [mkdirs, mkdirsFrom_append d [] path [name] h, List.nil_append, mkdirsFrom]
  split
  · next hfile => rw [if_neg (by simp [hfile])]
  · next hdir => rw [if_neg (by simp [hdir]), mkdirsFrom]
  · next hnone => rw [if_pos hnone, mkdirsFrom]

/-- Every change of `mkdirsFrom` is a directory created on the way. -/
theorem node_mkdirsFrom (d : Disk Content) (current : Path) (rest : List String) (q : Path) :
    (d.mkdirsFrom current rest).node q = d.node q ∨
      (current <+: q ∧ q <+: current ++ rest ∧ d.node q = none ∧
        (d.mkdirsFrom current rest).node q = some .dir) := by
  induction rest generalizing d current with
  | nil => exact .inl rfl
  | cons name rest ih =>
    have hweaken {d' : Disk Content} (hq : current ++ [name] <+: q ∧
        q <+: current ++ [name] ++ rest ∧ d.node q = none ∧ d'.node q = some .dir) :
        current <+: q ∧ q <+: current ++ name :: rest ∧ d.node q = none ∧
          d'.node q = some .dir :=
      ⟨(List.prefix_append _ _).trans hq.1, by simpa using hq.2.1, hq.2.2⟩
    rw [mkdirsFrom]
    split
    · exact .inl rfl
    · exact (ih d (current ++ [name])).imp_right hweaken
    · next hnone =>
      rcases ih (d.mkdir current name) (current ++ [name]) with hsame | hnew
      · by_cases hcreated : d.node current = some .dir ∧ q = current ++ [name]
        · obtain ⟨hdir, rfl⟩ := hcreated
          exact .inr ⟨by simp, by simp, hnone, by simp [hsame, node_mkdir, hdir, hnone]⟩
        · refine .inl (hsame.trans ?_)
          rw [node_mkdir, if_neg (fun h ↦ hcreated ⟨h.1, h.2.2⟩)]
      · obtain ⟨hcurrent, hbelow, hmissing, hdir⟩ := hnew
        rw [node_mkdir] at hmissing
        split at hmissing
        · simp at hmissing
        · exact .inr (hweaken ⟨hcurrent, hbelow, hmissing, hdir⟩)

theorem node_mkdirs (d : Disk Content) (path q : Path) :
    (d.mkdirs path).node q = d.node q ∨
      (q <+: path ∧ d.node q = none ∧ (d.mkdirs path).node q = some .dir) :=
  (d.node_mkdirsFrom [] path q).imp_right And.right

/-! ## Resolving a path -/

/-- Follow `components` from `current`: what precedes a component has to be a directory. -/
def walk (d : Disk Content) (current : Path) : List String → Option Path
  | [] => some current
  | component :: rest =>
      if d.isDirectory current then d.walk (Path.enter current component) rest else none

/-- Walking resolves `.` and `..` like the text of the path does, when it succeeds. -/
theorem walk_eq_normalize {d : Disk Content} {current path : Path} {components : List String}
    (h : d.walk current components = some path) : path = Path.normalize current components := by
  induction components generalizing current with
  | nil => simpa [walk, eq_comm] using h
  | cons component rest ih =>
    rw [walk] at h
    split at h
    · exact ih h
    · simp at h

theorem walk_append (d : Disk Content) (current : Path) (first second : List String) :
    d.walk current (first ++ second) =
      (d.walk current first).bind fun path ↦ d.walk path second := by
  induction first generalizing current with
  | nil => rfl
  | cons component rest ih =>
    rw [List.cons_append, walk, walk]
    split
    · exact ih _
    · rfl

/-- Every place that the components lead over is a directory. -/
def LeadsOver (node : Path → Option (Node Content)) (start : Path)
    (components : List String) : Prop :=
  ∀ front ∈ components.inits, front ≠ components → node (Path.normalize start front) = some .dir

instance [DecidableEq Content] (node : Path → Option (Node Content)) (start : Path)
    (components : List String) : Decidable (LeadsOver node start components) :=
  inferInstanceAs (Decidable (∀ front ∈ components.inits, _ → _))

theorem leadsOver_cons {node : Path → Option (Node Content)} {start : Path} {component : String}
    {rest : List String} :
    LeadsOver node start (component :: rest) ↔
      node start = some .dir ∧ LeadsOver node (Path.enter start component) rest := by
  simp only [LeadsOver, List.inits_cons, List.forall_mem_cons, List.forall_mem_map, ne_eq,
    List.cons.injEq, true_and, Path.normalize_cons, Path.normalize_nil]
  exact and_congr_left' ⟨fun h ↦ h (by simp), fun h _ ↦ h⟩

/-- A path is resolved when it leads over directories, to where its text leads. -/
theorem walk_eq_some_iff {d : Disk Content} {start path : Path} {components : List String} :
    d.walk start components = some path ↔
      LeadsOver d.node start components ∧ Path.normalize start components = path := by
  induction components generalizing start with
  | nil => simp [LeadsOver, walk]
  | cons component rest ih =>
    rw [walk, leadsOver_cons, Path.normalize_cons]
    by_cases hdir : d.node start = some .dir
    · rw [if_pos (isDirectory_iff.mpr hdir), ih, and_assoc, and_iff_right hdir]
    · rw [if_neg (by simpa using hdir)]
      simp [hdir]

/-- Resolving a path only asks which paths are directories. -/
theorem walk_congr {d d' : Disk Content} (h : ∀ q, d'.isDirectory q = d.isDirectory q)
    (current : Path) (components : List String) :
    d'.walk current components = d.walk current components := by
  induction components generalizing current with
  | nil => rfl
  | cons component rest ih => rw [walk, walk, h, ih]

@[simp]
theorem walk_nil (d : Disk Content) (current : Path) : d.walk current [] = some current := rfl

theorem walk_name {d : Disk Content} {current : Path} {name : String}
    (hname : Path.IsName name) (h : d.node current = some .dir) :
    d.walk current [name] = some (current ++ [name]) := by
  rw [walk, if_pos (isDirectory_iff.mpr h), Path.enter_name hname, walk_nil]

theorem walk_name_of_not_dir {d : Disk Content} {current : Path} {name : String}
    (h : d.node current ≠ some .dir) : d.walk current [name] = none := by
  rw [walk, if_neg (by simpa using h)]

/-! ## Files -/

/-- `FileInputStream`: the content of the file that the components lead to. -/
def readFile (d : Disk Content) (start : Path) (components : List String) : Option Content :=
  (d.walk start components).bind d.content

/-- Whether a file can be opened for writing at a resolved path. -/
def Writable (d : Disk Content) (path : Path) : Prop :=
  path ≠ [] ∧ d.node path.dropLast = some .dir ∧ d.node path ≠ some .dir

instance (d : Disk Content) (path : Path) : Decidable (d.Writable path) :=
  inferInstanceAs (Decidable (_ ∧ _ ∧ _))

/-- `FileOutputStream`: create the file at a resolved path or replace its content. -/
def write (d : Disk Content) (path : Path) (content : Content) (h : d.Writable path) :
    Disk Content :=
  d.insert path.dropLast (path.getLast h.1) (.file content) h.2.1
    (by rw [List.dropLast_append_getLast]; exact h.2.2)

/-- Open the file that the components lead to for writing and write all of it. -/
def openAndWrite (d : Disk Content) (start : Path) (components : List String)
    (content : Content) : Option (Disk Content) :=
  (d.walk start components).bind fun path ↦
    if h : d.Writable path then some (d.write path content h) else none

/-- `createNewFile`: create a file with the given content of an empty file where nothing is, with
none for the exception. -/
def createNewFile (d : Disk Content) (path : Path) (empty : Content) : Option (Disk Content) :=
  if d.node path = none then
    if h : d.Writable path then some (d.write path empty h) else none
  else some d

/-- `delete`: remove a file or an empty directory. -/
def delete (d : Disk Content) (path : Path) : Disk Content :=
  if h : path ≠ [] ∧ (d.node path).isSome ∧ d.listFiles path = [] then
    d.erase path h.1 (listFiles_eq_nil.mp h.2.2)
  else d

theorem node_write {d : Disk Content} {path : Path} {content : Content} {h : d.Writable path}
    (q : Path) :
    (d.write path content h).node q = if q = path then some (.file content) else d.node q := by
  rw [write, node_insert, List.dropLast_append_getLast]

theorem node_createNewFile {d d' : Disk Content} {path : Path} {empty : Content}
    (h : d.createNewFile path empty = some d') :
    (d'.node path = some .dir ↔ d.node path = some .dir) ∧
      ∀ q, q ≠ path → d'.node q = d.node q := by
  unfold createNewFile at h
  split at h
  · next hnone =>
    split at h
    · obtain rfl := Option.some_inj.mp h
      simp only [node_write, hnone]
      exact ⟨by simp, fun q hq ↦ if_neg hq⟩
    · cases h
  · obtain rfl := Option.some_inj.mp h
    exact ⟨Iff.rfl, fun _ _ ↦ rfl⟩

theorem listFiles_of_file {d : Disk Content} {path : Path} (h : d.node path ≠ some .dir) :
    d.listFiles path = [] :=
  listFiles_eq_nil.mpr (node_child_of_not_dir h)

theorem node_delete {d : Disk Content} {path : Path} (q : Path) :
    (d.delete path).node q =
      if q = path ∧ path ≠ [] ∧ d.listFiles path = [] then none else d.node q := by
  unfold delete
  split
  · next h => simp [node_erase, h.1, h.2.2]
  · next h =>
    split
    · next hq =>
      rw [hq.1]
      simpa [hq.2] using h
    · rfl

theorem node_delete_file {d : Disk Content} {path : Path} (h : d.node path ≠ some .dir)
    (q : Path) : (d.delete path).node q = if q = path then none else d.node q := by
  have hne : path ≠ [] := by
    rintro rfl
    simp at h
  rw [node_delete, listFiles_of_file h]
  simp [hne]

/-! ## Paths made of names -/

/-- An existing path that is made of names is walked to itself. -/
theorem walk_names {d : Disk Content} {start : Path} {names : List String}
    (hnames : ∀ name ∈ names, Path.IsName name) (h : (d.node (start ++ names)).isSome) :
    d.walk start names = some (start ++ names) := by
  induction names generalizing start with
  | nil => simp
  | cons name rest ih =>
    have hstart : d.node start = some .dir :=
      node_dir_above (List.prefix_append _ _) (by simp) h
    rw [walk, if_pos (isDirectory_iff.mpr hstart), Path.enter_name (hnames name (by simp)),
      ih (fun n hn ↦ hnames n (by simp [hn])) (by simpa using h)]
    simp

theorem readFile_names {d : Disk Content} {start : Path} {names : List String}
    (hnames : ∀ name ∈ names, Path.IsName name) :
    d.readFile start names = d.content (start ++ names) := by
  cases hcontent : d.content (start ++ names) with
  | some content =>
    have hexists : (d.node (start ++ names)).isSome := by simp [content_eq_some.mp hcontent]
    rw [readFile, walk_names hnames hexists, Option.bind_some, hcontent]
  | none =>
    cases hwalk : d.walk start names with
    | none => rw [readFile, hwalk, Option.bind_none]
    | some path =>
      have hpath := (walk_eq_normalize hwalk).trans (Path.normalize_names hnames start)
      rw [readFile, hwalk, Option.bind_some, hpath, hcontent]

theorem openAndWrite_names {d : Disk Content} {start : Path} {names : List String}
    {content : Content} (hnames : ∀ name ∈ names, Path.IsName name) (hne : names ≠ [])
    (h : d.Writable (start ++ names)) :
    d.openAndWrite start names content = some (d.write (start ++ names) content h) := by
  obtain ⟨above, last, rfl⟩ := (List.eq_nil_or_concat' names).resolve_left hne
  have hparent : d.node (start ++ above) = some .dir := by
    have := h.2.1
    rwa [← List.append_assoc, List.dropLast_concat] at this
  have hwalk : d.walk start (above ++ [last]) = some (start ++ (above ++ [last])) := by
    rw [walk_append, walk_names (fun n hn ↦ hnames n (by simp [hn])) (by simp [hparent]),
      Option.bind_some, walk_name (hnames last (by simp)) hparent, List.append_assoc]
  rw [openAndWrite, hwalk, Option.bind_some, dif_pos h]

/-! ## Renaming a directory -/

/-- When `rename` moves the directory `source`: the target is missing or an empty directory, lies
in a directory, and is not inside the source. -/
def Movable (d : Disk Content) (source target : Path) : Prop :=
  d.node source = some .dir ∧ ¬ source <+: target ∧
    target ≠ [] ∧ d.node target.dropLast = some .dir ∧
    (d.node target = none ∨ d.node target = some .dir ∧ d.listFiles target = [])

instance (d : Disk Content) (source target : Path) : Decidable (d.Movable source target) :=
  inferInstanceAs (Decidable (_ ∧ _ ∧ _ ∧ _ ∧ (_ ∨ _ ∧ _)))

theorem lookup_reroot (source target : Path) (entries : List (Path × Node Content)) (q : Path) :
    ((entries.filter fun entry ↦ source <+: entry.1).map fun entry ↦
        (target ++ entry.1.drop source.length, entry.2)).lookup q =
      if target <+: q then entries.lookup (source ++ q.drop target.length) else none := by
  induction entries with
  | nil => simp
  | cons entry rest ih =>
    obtain ⟨key, value⟩ := entry
    by_cases hsource : source <+: key
    · obtain ⟨below, rfl⟩ := hsource
      by_cases htarget : target <+: q
      · obtain ⟨below', rfl⟩ := htarget
        by_cases hsame : below' = below
        · simp [hsame]
        · simp only [List.prefix_append, if_true, List.drop_left] at ih
          have hne (above : Path) : ((above ++ below') == (above ++ below)) = false :=
            beq_false_of_ne (by simpa using hsame)
          simp [List.lookup_cons, hne, ih]
      · have hne : q ≠ target ++ below := fun h ↦ htarget (h ▸ List.prefix_append _ _)
        rw [if_neg htarget] at ih ⊢
        simp [List.lookup_cons, beq_false_of_ne hne, ih]
    · have hne : source ++ q.drop target.length ≠ key :=
        fun h ↦ hsource (h ▸ List.prefix_append _ _)
      simp [hsource, ih, List.lookup_cons, beq_false_of_ne hne]

/-- The entries after moving `source` to `target`. -/
def movedEntries (d : Disk Content) (source target : Path) : List (Path × Node Content) :=
  ((d.entries.filter fun entry ↦ source <+: entry.1).map fun entry ↦
      (target ++ entry.1.drop source.length, entry.2)) ++
    d.entries.filter fun entry ↦ ¬ source <+: entry.1 ∧ ¬ target <+: entry.1

theorem lookup_movedEntries (d : Disk Content) (source target q : Path) :
    (d.movedEntries source target).lookup q =
      if target <+: q then d.node (source ++ q.drop target.length)
      else if source <+: q then none
      else d.node q := by
  rw [movedEntries, List.lookup_append, lookup_reroot,
    lookup_filter_key (fun key ↦ ¬ source <+: key ∧ ¬ target <+: key)]
  by_cases htarget : target <+: q
  · simp [htarget, node]
  · by_cases hsource : source <+: q <;> simp [htarget, hsource, node]

/-- Move a directory with everything below it. -/
def move (d : Disk Content) (source target : Path) (h : d.Movable source target) :
    Disk Content where
  entries := d.movedEntries source target
  root := by
    obtain ⟨-, houtside, hne, -⟩ := h
    have hsource : source ≠ [] := fun h ↦ houtside (h ▸ List.nil_prefix)
    simp [lookup_movedEntries, hne, hsource]
  closed := by
    obtain ⟨-, houtside, hne, hparent, -⟩ := h
    intro path name hchild
    rw [lookup_movedEntries] at hchild ⊢
    by_cases hpath : target <+: path
    · obtain ⟨below, rfl⟩ := hpath
      rw [if_pos (by simp)] at hchild
      rw [if_pos (by simp), List.drop_left]
      rw [List.append_assoc, List.drop_left, ← List.append_assoc] at hchild
      exact node_parent hchild
    · by_cases hself : target = path ++ [name]
      · subst hself
        rw [List.dropLast_concat] at hparent
        rw [if_neg hpath, if_neg (fun h ↦ houtside (h.trans (List.prefix_append _ _)))]
        exact hparent
      · have hbelow : ¬ target <+: path ++ [name] := by
          rw [List.prefix_concat_iff]
          exact fun h ↦ h.elim hself hpath
        rw [if_neg hbelow] at hchild
        split at hchild
        · simp at hchild
        · next hsource =>
          rw [if_neg hpath, if_neg (fun h ↦ hsource (h.trans (List.prefix_append _ _)))]
          exact node_parent hchild
  journal := .renamed source target :: d.journal

/-- `renameTo` on a directory; renaming a directory to itself succeeds and does nothing. -/
def renameTo (d : Disk Content) (source target : Path) : Option (Disk Content) :=
  if d.node source = some .dir ∧ source = target then some d
  else if h : d.Movable source target then some (d.move source target h)
  else none

theorem node_move {d : Disk Content} {source target : Path} {h : d.Movable source target}
    (q : Path) :
    (d.move source target h).node q =
      if target <+: q then d.node (source ++ q.drop target.length)
      else if source <+: q then none
      else d.node q :=
  d.lookup_movedEntries source target q

/-- What is found after a rename, also of a directory to itself. -/
theorem node_renameTo {d d' : Disk Content} {source target : Path}
    (h : d.renameTo source target = some d') (q : Path) :
    d'.node q =
      if target <+: q then d.node (source ++ q.drop target.length)
      else if source <+: q then none
      else d.node q := by
  unfold renameTo at h
  split at h
  · next hself =>
    obtain ⟨-, rfl⟩ := hself
    obtain rfl := Option.some_inj.mp h
    split
    · next hunder =>
      obtain ⟨below, rfl⟩ := hunder
      rw [List.drop_left]
    · rfl
  · split at h
    · obtain rfl := Option.some_inj.mp h
      exact node_move q
    · simp at h

end Orbot.Foundation.Disk
