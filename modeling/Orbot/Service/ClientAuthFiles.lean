import Orbot.Foundation.DiskRemoval
import Orbot.OnionService.ClientAuths
import Orbot.Service.Settings

/-!
# The files of the client keys

Tor reads the v3 client keys from a directory of files. Whenever the torrc is written,
`addV3ClientAuthToTorrc` deletes the plain files of that directory and writes one for each enabled
key, so the directory mirrors the table: files that an earlier call left for more keys, or for keys
that have been disabled or deleted since, are gone.
-/

namespace Orbot.Service

open Orbot.Foundation Orbot.OnionService

/-! ## Writing the directory -/

/-- `mV3AuthBasePath`. -/
def Device.mV3AuthBasePath (device : Device) : Path := device.filesDir ++ ["v3_client_auth"]

/-- The rows of the query for enabled keys. -/
def enabledAuths (t : ClientAuthTable) : List V3ClientAuth :=
  (t.rows.filter fun row ↦ row.columns.enabled == 1).map fun row ↦ row.columns

/-- The name of the file for the row at a position of the cursor. -/
def authFile (i : ℕ) : String := toString i ++ ".auth_private"

/-- The names at which the system refuses what the directory tree allows. -/
structure Refusals where
  delete : String → Bool
  write : String → Bool

/-- The loop over the cursor, which writes `null` for a missing value; the flag says that it was left
by an exception. -/
def writeAuthFiles (P : Platform) (refusals : Refusals) (dir : Path) :
    ℕ → List V3ClientAuth → Disk Bytes → Disk Bytes × Bool
  | _, [], d => (d, false)
  | i, columns :: rest, d =>
      match d.createNewFile (dir ++ [authFile i]) [] with
      | none => (d, true)
      | some created =>
          if refusals.write (authFile i) then (created, true)
          else
            let domain := columns.domain.getD "null"
            let hash := columns.hash.getD "null"
            match created.openAndWrite dir [authFile i]
              (P.encode (buildV3ClientAuthFile domain hash)) with
            | none => (created, true)
            | some written => writeAuthFiles P refusals dir (i + 1) rest written

/-- What a call leaves, and whether a file operation failed. -/
structure AuthFiles where
  torrc : List Directive
  disk : Disk Bytes
  failed : Bool

/-- The file operations of `addV3ClientAuthToTorrc` with the lines so far, where `v3auths` has none
for a null cursor; none for the exception of a directory that cannot be listed. -/
def addV3ClientAuthFiles (P : Platform) (refusals : Refusals) (device : Device)
    (torrc : List Directive) (v3auths : Option (List V3ClientAuth)) (d : Disk Bytes) :
    Option AuthFiles :=
  match v3auths with
  | none => some ⟨torrc, d, false⟩
  | some v3auths =>
      let dir := device.mV3AuthBasePath
      if d.isDirectory dir then
        let files := (d.listFiles dir).filter fun name ↦ !d.isDirectory (dir ++ [name])
        let cleared := d.deleteFiles dir refusals.delete (d.listFiles dir)
        let (written, failed) := writeAuthFiles P refusals dir 0 v3auths cleared
        some ⟨torrc ++ addV3ClientAuthToTorrc device, written, files.any refusals.delete || failed⟩
      else none

/-! ## The mirror -/

/-- The files of the directory are those of the rows, its subdirectories and everything that is not
an entry of it are as before. -/
structure MirrorsAuths (P : Platform) (dir : Path) (v3auths : List V3ClientAuth)
    (d d' : Disk Bytes) : Prop where
  files : ∀ name content, d'.node (dir ++ [name]) = some (.file content) ↔
    ∃ i columns, v3auths[i]? = some columns ∧ name = authFile i ∧
      content =
        P.encode (buildV3ClientAuthFile (columns.domain.getD "null") (columns.hash.getD "null"))
  subdirectories : ∀ name, d'.node (dir ++ [name]) = some .dir ↔ d.node (dir ++ [name]) = some .dir
  elsewhere : ∀ q, (∀ name, q ≠ dir ++ [name]) → d'.node q = d.node q

theorem authFile_injective : Function.Injective authFile := by
  intro i j h
  apply toString_nat_injective
  rw [← String.toList_inj] at h ⊢
  simpa [authFile] using h

theorem isName_authFile (i : ℕ) : Path.IsName (authFile i) := by
  have hlength : 12 < (authFile i).toList.length := by
    simp [authFile]
  constructor
  · intro h
    rw [h] at hlength
    exact absurd hlength (by decide)
  · intro h
    rw [h] at hlength
    exact absurd hlength (by decide)

section Writing

variable {P : Platform} {refusals : Refusals} {dir : Path} {d d' : Disk Bytes}

/-- A file that is written is no directory before, and nothing else changes. -/
theorem node_of_written {created written : Disk Bytes} {name : String} {content : Bytes}
    (hname : Path.IsName name) (hcreate : d.createNewFile (dir ++ [name]) [] = some created)
    (hwrite : created.openAndWrite dir [name] content = some written) :
    d.node (dir ++ [name]) ≠ some .dir ∧
      ∀ q, written.node q = if q = dir ++ [name] then some (.file content) else d.node q := by
  obtain ⟨hdir, hother⟩ := Disk.node_createNewFile hcreate
  obtain ⟨hwritable, -, rfl⟩ := Disk.openAndWrite_eq_some hwrite
  have hpath : Path.normalize dir [name] = dir ++ [name] :=
    Path.normalize_names (by simpa using hname) dir
  constructor
  · rw [Ne, ← hdir, ← hpath]
    exact hwritable.2.2
  · intro q
    rw [Disk.node_write, hpath]
    by_cases hq : q = dir ++ [name]
    · rw [if_pos hq, if_pos hq]
    · rw [if_neg hq, if_neg hq, hother q hq]

/-- The loop replaces the files at the names from its position on, none of which is a directory. -/
theorem node_writeAuthFiles {i : ℕ} {v3auths : List V3ClientAuth}
    (h : writeAuthFiles P refusals dir i v3auths d = (d', false)) :
    (∀ k columns, v3auths[k]? = some columns →
      d.node (dir ++ [authFile (i + k)]) ≠ some .dir ∧
        d'.node (dir ++ [authFile (i + k)]) = some (.file
          (P.encode (buildV3ClientAuthFile (columns.domain.getD "null")
            (columns.hash.getD "null"))))) ∧
      ∀ q, (∀ k < v3auths.length, q ≠ dir ++ [authFile (i + k)]) → d'.node q = d.node q := by
  induction v3auths generalizing i d with
  | nil =>
    obtain rfl := congrArg Prod.fst h
    exact ⟨by simp, fun _ _ ↦ rfl⟩
  | cons columns rest ih =>
    rw [writeAuthFiles] at h
    split at h
    · cases congrArg Prod.snd h
    · next created hcreate =>
      split at h
      · cases congrArg Prod.snd h
      · dsimp only at h
        split at h
        · cases congrArg Prod.snd h
        · next written hwrite =>
          obtain ⟨hfile, hnode⟩ := node_of_written (isName_authFile i) hcreate hwrite
          obtain ⟨hrest, hkept⟩ := ih h
          have hnext (k : ℕ) : i + (k + 1) = i + 1 + k := by omega
          have hlater (k : ℕ) : dir ++ [authFile (i + 1 + k)] ≠ dir ++ [authFile i] := by
            intro hsame
            have hindex := authFile_injective (by simpa using hsame)
            omega
          constructor
          · intro k other hother
            cases k with
            | zero =>
              obtain rfl : columns = other := by simpa using hother
              refine ⟨hfile, ?_⟩
              rw [Nat.add_zero, hkept _ fun k _ ↦ (hlater k).symm, hnode, if_pos rfl]
            | succ k =>
              obtain ⟨hdir, hwritten⟩ := hrest k other (by simpa using hother)
              rw [hnode, if_neg (hlater k)] at hdir
              rw [hnext]
              exact ⟨hdir, hwritten⟩
          · intro q hq
            have hfirst : q ≠ dir ++ [authFile i] := hq 0 (Nat.zero_lt_succ _)
            rw [hkept q fun k hk ↦ hnext k ▸ hq (k + 1) (Nat.succ_lt_succ hk), hnode, if_neg hfirst]

/-- Deleting the plain files leaves the subdirectories of the directory. -/
theorem node_cleared (hrefused : ((d.listFiles dir).filter fun name ↦
      !d.isDirectory (dir ++ [name])).any refusals.delete = false) (name : String) :
    (d.deleteFiles dir refusals.delete (d.listFiles dir)).node (dir ++ [name]) =
      if d.node (dir ++ [name]) = some .dir then some .dir else none := by
  rw [Disk.node_deleteFiles]
  by_cases hdir : d.node (dir ++ [name]) = some .dir
  · rw [if_pos hdir, if_neg fun h ↦ h.2 hdir, hdir]
  · rw [if_neg hdir]
    refine ite_eq_left_iff.mpr fun hkept ↦ ?_
    by_contra hexists
    have hmem : name ∈ d.listFiles dir :=
      Disk.mem_listFiles.mpr (Option.isSome_iff_ne_none.mpr hexists)
    have hfile : name ∈ (d.listFiles dir).filter fun name ↦ !d.isDirectory (dir ++ [name]) := by
      rw [List.mem_filter, Bool.not_eq_true', ← Bool.not_eq_true, Disk.isDirectory_iff]
      exact ⟨hmem, hdir⟩
    have hallowed : refusals.delete name = false := by
      simpa using List.any_eq_false.mp hrefused name hfile
    exact hkept ⟨⟨name, hmem, hallowed, rfl⟩, hdir⟩

theorem node_cleared_elsewhere {q : Path} (hq : ∀ name, q ≠ dir ++ [name])
    (names : List String) : (d.deleteFiles dir refusals.delete names).node q = d.node q := by
  rw [Disk.node_deleteFiles, if_neg]
  rintro ⟨⟨name, -, -, rfl⟩, -⟩
  exact hq name rfl

/-- The two loops together. -/
theorem mirrorsAuths_of_written {v3auths : List V3ClientAuth}
    (hrefused : ((d.listFiles dir).filter fun name ↦
      !d.isDirectory (dir ++ [name])).any refusals.delete = false)
    (h : writeAuthFiles P refusals dir 0 v3auths
      (d.deleteFiles dir refusals.delete (d.listFiles dir)) = (d', false)) :
    MirrorsAuths P dir v3auths d d' := by
  obtain ⟨hwritten, hkept⟩ := node_writeAuthFiles h
  simp only [Nat.zero_add] at hwritten hkept
  -- an entry is written for a row, or as it was left by the first loop
  have hentry (name : String) :
      (∃ i columns, v3auths[i]? = some columns ∧ name = authFile i) ∨
        d'.node (dir ++ [name]) =
          if d.node (dir ++ [name]) = some .dir then some .dir else none := by
    by_cases hname : ∃ i < v3auths.length, name = authFile i
    · obtain ⟨i, hi, rfl⟩ := hname
      exact .inl ⟨i, v3auths[i], List.getElem?_eq_getElem hi, rfl⟩
    · right
      rw [← node_cleared hrefused]
      apply hkept
      intro i hi hsame
      exact hname ⟨i, hi, by simpa using hsame⟩
  refine ⟨fun name content ↦ ?_, fun name ↦ ?_, fun q hq ↦ ?_⟩
  · constructor
    · intro hfile
      rcases hentry name with ⟨i, columns, hrow, rfl⟩ | hleft
      · have hsame := (hwritten i columns hrow).2.symm.trans hfile
        exact ⟨i, columns, hrow, rfl, by simpa using hsame.symm⟩
      · rw [hfile] at hleft
        split at hleft <;> cases hleft
    · rintro ⟨i, columns, hrow, rfl, rfl⟩
      exact (hwritten i columns hrow).2
  · rcases hentry name with ⟨i, columns, hrow, rfl⟩ | hleft
    · obtain ⟨hdir, hfile⟩ := hwritten i columns hrow
      rw [node_cleared hrefused] at hdir
      refine iff_of_false (by simp [hfile]) fun hbefore ↦ hdir (if_pos hbefore)
    · rw [hleft]
      simp
  · rw [hkept q fun i _ ↦ hq (authFile i)]
    exact node_cleared_elsewhere hq _

end Writing

/-- The directory with the files of an earlier call and a subdirectory. -/
def earlierAuths : Disk Bytes :=
  let dir := plainDevice.mV3AuthBasePath
  let d := Disk.initial.mkdirs (dir ++ ["old"])
  let first := (d.openAndWrite dir [authFile 0] [1]).getD d
  (first.openAndWrite dir [authFile 7] [2]).getD first

/-- Two enabled rows with a disabled one between them. -/
def someAuths : ClientAuthTable :=
  ((Table.empty.insert { domain := some "first", hash := some "A" }).insert
    { domain := some "second", hash := some "B", enabled := 0 }).insert
      { domain := some "third", hash := some "C" }

end Orbot.Service
