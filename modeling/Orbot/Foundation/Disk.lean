import Mathlib.Data.List.Basic
import Mathlib.Data.List.Induction

/-!
# Directory trees without symbolic links

A disk maps the absolute paths that exist to directories and files, and every entry lies in a
directory. The operations are those of `java.io.File` and `java.io.FileOutputStream` on such a
tree: a path given by components is walked by the kernel, so each component but the last has to be
a directory, also before a `..`. The journal lists the changes that were made, newest first; no
operation reads it.
-/

namespace Orbot.Foundation

universe u

/-- An absolute path without `.` and `..`, from the root down. -/
abbrev Path := List String

namespace Path

/-- The directory reached from `current` by one component of a path. -/
def enter (current : Path) (component : String) : Path :=
  if component = "." then current
  else if component = ".." then current.dropLast
  else current ++ [component]

/-- The path that `components` denote from `start`, with `.` and `..` resolved. -/
def normalize (start : Path) (components : List String) : Path :=
  components.foldl enter start

/-- A component that names an entry of its directory. -/
def IsName (component : String) : Prop :=
  component ≠ "." ∧ component ≠ ".."

instance (component : String) : Decidable (IsName component) :=
  inferInstanceAs (Decidable (_ ∧ _))

theorem enter_name {component : String} (h : IsName component) (current : Path) :
    enter current component = current ++ [component] := by
  rw [enter, if_neg h.1, if_neg h.2]

@[simp]
theorem normalize_nil (start : Path) : normalize start [] = start := rfl

@[simp]
theorem normalize_cons (start : Path) (component : String) (rest : List String) :
    normalize start (component :: rest) = normalize (enter start component) rest := rfl

theorem normalize_append (start : Path) (first second : List String) :
    normalize start (first ++ second) = normalize (normalize start first) second :=
  List.foldl_append

theorem normalize_names {names : List String} (h : ∀ name ∈ names, IsName name) (start : Path) :
    normalize start names = start ++ names := by
  induction names generalizing start with
  | nil => simp
  | cons name rest ih =>
    rw [normalize_cons, enter_name (h name (by simp)), ih (fun n hn ↦ h n (by simp [hn])),
      List.append_assoc, List.singleton_append]

/-- Without `..` a path leads to where it starts or below. -/
theorem prefix_normalize {components : List String} (h : ".." ∉ components) (start : Path) :
    start <+: normalize start components := by
  induction components generalizing start with
  | nil => exact List.prefix_rfl
  | cons component rest ih =>
    obtain ⟨hcomponent, hrest⟩ := List.ne_and_not_mem_of_not_mem_cons h
    refine List.IsPrefix.trans ?_ (ih hrest (enter start component))
    unfold enter
    split
    · exact List.prefix_rfl
    · rw [if_neg hcomponent.symm]
      exact List.prefix_append _ _

end Path

/-- What a path of the disk leads to. -/
inductive Node (Content : Type u) where
  | dir
  | file (content : Content)
  deriving DecidableEq

/-! ## Association lists keyed by paths -/

section Lookup

variable {Key : Type*} {Value : Type*} [BEq Key] [LawfulBEq Key]

theorem lookup_filter_key (keep : Key → Bool) (entries : List (Key × Value)) (key : Key) :
    (entries.filter fun entry ↦ keep entry.1).lookup key =
      if keep key then entries.lookup key else none := by
  induction entries with
  | nil => simp
  | cons entry rest ih =>
    obtain ⟨head, value⟩ := entry
    by_cases hkey : key = head
    · subst hkey
      by_cases hkeep : keep key = true
      · simp [hkeep]
      · simp [hkeep, ih]
    · by_cases hhead : keep head = true
      · simp [hhead, List.lookup_cons, beq_false_of_ne hkey, ih]
      · simp [hhead, List.lookup_cons, beq_false_of_ne hkey, ih]

theorem lookup_isSome_iff_mem (entries : List (Key × Value)) (key : Key) :
    (entries.lookup key).isSome ↔ ∃ entry ∈ entries, entry.1 = key := by
  induction entries with
  | nil => simp
  | cons entry rest ih =>
    obtain ⟨head, value⟩ := entry
    by_cases hkey : key = head
    · subst hkey
      simp
    · simp [List.lookup_cons, beq_false_of_ne hkey, ih, Ne.symm hkey]

end Lookup

/-- One change of a directory tree. -/
inductive Change where
  /-- A directory or a file was created, or a file overwritten. -/
  | put (path : Path)
  | deleted (path : Path)
  | renamed (source target : Path)
  deriving DecidableEq

/-- A directory tree: the entries, each inside a directory, and the journal of changes. -/
structure Disk (Content : Type u) where
  entries : List (Path × Node Content)
  root : entries.lookup [] = some .dir
  closed : ∀ (path : Path) (name : String),
    (entries.lookup (path ++ [name])).isSome → entries.lookup path = some .dir
  journal : List Change

namespace Disk

variable {Content : Type u}

/-- What `path` leads to, if it exists. -/
def node (d : Disk Content) (path : Path) : Option (Node Content) :=
  d.entries.lookup path

def isDirectory (d : Disk Content) (path : Path) : Bool :=
  match d.node path with
  | some .dir => true
  | _ => false

/-- The content of the file at `path`. -/
def content (d : Disk Content) (path : Path) : Option Content :=
  match d.node path with
  | some (.file content) => some content
  | _ => none

/-- The names in a directory; empty for a file and for a missing path. -/
def listFiles (d : Disk Content) (path : Path) : List String :=
  d.entries.filterMap fun entry ↦
    if entry.1.dropLast = path then entry.1.getLast? else none

@[simp]
theorem isDirectory_iff {d : Disk Content} {path : Path} :
    d.isDirectory path = true ↔ d.node path = some .dir := by
  unfold isDirectory
  split <;> simp_all

instance (d : Disk Content) (path : Path) : Decidable (d.node path = some .dir) :=
  decidable_of_iff _ isDirectory_iff

instance (d : Disk Content) (path : Path) : Decidable (d.node path = none) :=
  decidable_of_iff _ Option.isNone_iff_eq_none

theorem content_eq_some {d : Disk Content} {path : Path} {content : Content} :
    d.content path = some content ↔ d.node path = some (.file content) := by
  unfold Disk.content
  split <;> simp_all

@[simp]
theorem node_root (d : Disk Content) : d.node [] = some .dir := d.root

theorem node_parent {d : Disk Content} {path : Path} {name : String}
    (h : (d.node (path ++ [name])).isSome) : d.node path = some .dir :=
  d.closed path name h

theorem node_child_of_not_dir {d : Disk Content} {path : Path} (h : d.node path ≠ some .dir)
    (name : String) : d.node (path ++ [name]) = none := by
  by_contra hchild
  exact h (node_parent (Option.isSome_iff_ne_none.mpr hchild))

theorem mem_listFiles {d : Disk Content} {path : Path} {name : String} :
    name ∈ d.listFiles path ↔ (d.node (path ++ [name])).isSome := by
  rw [node, lookup_isSome_iff_mem, listFiles, List.mem_filterMap]
  constructor
  · rintro ⟨entry, hentry, hname⟩
    refine ⟨entry, hentry, ?_⟩
    split at hname
    · next hdrop =>
      rw [← hdrop]
      exact (List.dropLast_append_getLast? name (by simpa using hname)).symm
    · simp at hname
  · rintro ⟨entry, hentry, hpath⟩
    exact ⟨entry, hentry, by simp [hpath]⟩

theorem listFiles_eq_nil {d : Disk Content} {path : Path} :
    d.listFiles path = [] ↔ ∀ name, d.node (path ++ [name]) = none := by
  rw [List.eq_nil_iff_forall_not_mem]
  simp only [mem_listFiles, Option.not_isSome_iff_eq_none]

/-- A path that exists has only directories above it. -/
theorem node_dir_above {d : Disk Content} {above path : Path} (hunder : above <+: path)
    (hne : above ≠ path) (h : (d.node path).isSome) : d.node above = some .dir := by
  obtain ⟨rest, rfl⟩ := hunder
  induction rest using List.reverseRecOn with
  | nil => simp at hne
  | append_singleton rest name ih =>
    rw [← List.append_assoc] at h
    have hparent := node_parent h
    by_cases hrest : rest = []
    · simpa [hrest] using hparent
    · exact ih (by simpa using hrest) (by simp [hparent])

theorem node_eq_none_below {d : Disk Content} {above path : Path} (hunder : above <+: path)
    (h : d.node above = none) : d.node path = none := by
  by_contra hpath
  by_cases hne : above = path
  · exact hpath (hne ▸ h)
  · have := node_dir_above hunder hne (Option.isSome_iff_ne_none.mpr hpath)
    simp [h] at this

/-! ## Primitive changes -/

/-- The disk that has only its root. -/
def initial : Disk Content where
  entries := [([], .dir)]
  root := rfl
  closed := by
    intro path name h
    simp [List.lookup_cons, beq_false_of_ne] at h
  journal := []

/-- Put a node at a path whose parent is a directory and that is not itself a directory. -/
def insert (d : Disk Content) (path : Path) (name : String) (node : Node Content)
    (hparent : d.node path = some .dir) (htarget : d.node (path ++ [name]) ≠ some .dir) :
    Disk Content where
  entries := (path ++ [name], node) :: d.entries.filter fun entry ↦ entry.1 != path ++ [name]
  root := by
    rw [List.lookup_cons, beq_false_of_ne (by simp),
      lookup_filter_key (fun key ↦ key != path ++ [name])]
    simp [d.root]
  closed := by
    intro above child hchild
    have hother (q : Path) (hq : q ≠ path ++ [name]) :
        ((path ++ [name], node) ::
          d.entries.filter fun entry ↦ entry.1 != path ++ [name]).lookup q = d.node q := by
      rw [List.lookup_cons, beq_false_of_ne hq,
        lookup_filter_key (fun key ↦ key != path ++ [name])]
      simp [hq, Disk.node]
    by_cases hsame : above ++ [child] = path ++ [name]
    · obtain ⟨rfl, -⟩ := List.append_inj' hsame rfl
      rw [hother above (by simp)]
      exact hparent
    · rw [hother _ hsame] at hchild
      have habove := node_parent hchild
      rw [hother above (fun h ↦ htarget (h ▸ habove))]
      exact habove
  journal := .put (path ++ [name]) :: d.journal

theorem node_insert {d : Disk Content} {path : Path} {name : String} {node : Node Content}
    {hparent : d.node path = some .dir} {htarget : d.node (path ++ [name]) ≠ some .dir}
    (q : Path) :
    (d.insert path name node hparent htarget).node q =
      if q = path ++ [name] then some node else d.node q := by
  by_cases hq : q = path ++ [name]
  · subst hq
    simp [Disk.node, insert]
  · rw [if_neg hq]
    simp [Disk.node, insert, List.lookup_cons, beq_false_of_ne hq,
      lookup_filter_key (fun key ↦ key != path ++ [name]), hq]

/-- Remove a path that has nothing below it. -/
def erase (d : Disk Content) (path : Path) (hne : path ≠ [])
    (hempty : ∀ name, d.node (path ++ [name]) = none) : Disk Content where
  entries := d.entries.filter fun entry ↦ entry.1 != path
  root := by
    rw [lookup_filter_key (fun key ↦ key != path), if_pos (by simpa using hne.symm)]
    exact d.root
  closed := by
    intro above child hchild
    rw [lookup_filter_key (fun key ↦ key != path)] at hchild ⊢
    have hexists : (d.node (above ++ [child])).isSome := by
      split at hchild
      · exact hchild
      · simp at hchild
    have habove : above ≠ path := by
      rintro rfl
      simp [hempty child] at hexists
    rw [if_pos (by simpa using habove)]
    exact d.closed above child hexists
  journal := .deleted path :: d.journal

theorem node_erase {d : Disk Content} {path : Path} {hne : path ≠ []}
    {hempty : ∀ name, d.node (path ++ [name]) = none} (q : Path) :
    (d.erase path hne hempty).node q = if q = path then none else d.node q := by
  rw [Disk.node, erase, lookup_filter_key (fun key ↦ key != path)]
  by_cases hq : q = path <;> simp [hq, Disk.node]

end Disk

end Orbot.Foundation
