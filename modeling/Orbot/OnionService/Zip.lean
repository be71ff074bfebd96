import Orbot.Foundation.DiskChanges
import Orbot.OnionService.Columns

/-!
# Reading and writing zip files

`ZipUtilities` writes a list of files to an archive and extracts an archive to a directory. An
archive to read is what `ZipInputStream` yields: a sequence of entries that ends or breaks off.
Entry names are appended to the output path as they are.
-/

namespace Orbot.OnionService

open Orbot.Foundation

/-- What a `ZipInputStream` yields. -/
inductive ZipStream where
  | eof
  /-- Reading the next entry fails. -/
  | broken
  /-- The name of the next entry cannot be decoded, which is an `IllegalArgumentException`. -/
  | undecodable
  | entry (name : String) (content : Bytes) (rest : ZipStream)
  /-- Reading the content of an entry fails after some blocks of it. -/
  | brokenEntry (name : String) (blocks : Bytes)
  deriving DecidableEq

/-! ## Writing -/

/-- The loop of `zip` over the files, given by their components below `base`. -/
def zipEntries (base : Path) (d : Disk Bytes) : List (List String) → Option ZipStream
  | [] => some .eof
  | file :: rest => do
      let content ← d.readFile base file
      let archive ← zipEntries base d rest
      return .entry (file.getLastD "") content archive

/-- The result of writing a backup. -/
inductive BackupResult where
  | thrown
  | failed
  | saved (archive : ZipStream)
  deriving DecidableEq

/-- `ZipUtilities.zip`: a missing list of files raises an exception that is not caught.
`opens` says whether the content resolver opens the document to write. -/
def zip (base : Path) (d : Disk Bytes) (opens : Bool) (files : Option (List (List String))) :
    BackupResult :=
  if opens then
    match files with
    | none => .thrown
    | some files =>
        match zipEntries base d files with
        | some archive => .saved archive
        | none => .failed
  else .failed

/-! ## Files below the base directory -/

/-- `File.isInvalid`: no file operation succeeds on a path with a NUL character. -/
def isInvalid (path : List String) : Bool :=
  path.any fun component ↦ component.toList.contains '\x00'

/-- `File.mkdirs`. -/
def makeDirectories (base : Path) (path : List String) (d : Disk Bytes) : Disk Bytes :=
  if isInvalid path then d else d.mkdirs (Path.normalize base path)

/-- `FileOutputStream`: open a file and write all of it. -/
def writeFile (base : Path) (path : List String) (content : Bytes) (d : Disk Bytes) :
    Option (Disk Bytes) :=
  if isInvalid path then none else d.openAndWrite base path content

/-- `FileInputStream`: open a file and read all of it. -/
def readFile (base : Path) (path : List String) (d : Disk Bytes) : Option Bytes :=
  if isInvalid path then none else d.readFile base path

/-! ## Extracting -/

/-- How an extraction ends: with the result of the method, or with an exception that is no
`IOException` and that nobody catches. -/
inductive Extraction where
  | complete
  | failed
  | thrown
  deriving DecidableEq

/-- `ZipEntry.isDirectory`. -/
def isDirectoryEntry (name : String) : Bool := name.toList.getLast? = some '/'

/-- The path of an entry, resolved. -/
def entryPath (base : Path) (output : List String) (name : String) : Path :=
  Path.normalize base (output ++ components name)

/-- The loop of `extractFromZipInputStream`, with the end of the method. -/
def extractEntries (base : Path) (output : List String) :
    ZipStream → Disk Bytes → Disk Bytes × Extraction
  | .eof, d => (d, .complete)
  | .broken, d => (d, .failed)
  | .undecodable, d => (d, .thrown)
  | .entry name content rest, d =>
      if isDirectoryEntry name then
        extractEntries base output rest (makeDirectories base (output ++ components name) d)
      else
        match writeFile base (output ++ components name) content d with
        | some d' => extractEntries base output rest d'
        | none => (d, .failed)
  | .brokenEntry name blocks, d =>
      if isDirectoryEntry name then
        (makeDirectories base (output ++ components name) d, .failed)
      else ((writeFile base (output ++ components name) blocks d).getD d, .failed)

def extractFromZipInputStream (base : Path) (output : List String) (zis : ZipStream)
    (d : Disk Bytes) : Disk Bytes × Extraction :=
  extractEntries base output zis (makeDirectories base output d)

/-- `unzip`: `none` is an archive that cannot be opened. -/
def unzip (base : Path) (output : List String) (archive : Option ZipStream) (d : Disk Bytes) :
    Disk Bytes × Extraction :=
  match archive with
  | some zis => extractFromZipInputStream base output zis d
  | none => (d, .failed)

/-- `unzipLegacy`, which reads a file. -/
def unzipLegacy (base : Path) (output : List String) (zipFile : Option ZipStream)
    (d : Disk Bytes) : Disk Bytes × Extraction :=
  unzip base output zipFile d

/-! ## What extraction does to a disk -/

theorem makeDirectories_of_valid {base : Path} {path : List String} {d : Disk Bytes}
    (h : isInvalid path = false) :
    makeDirectories base path d = d.mkdirs (Path.normalize base path) := by
  rw [makeDirectories, h, if_neg Bool.false_ne_true]

theorem writeFile_eq_some {d d' : Disk Bytes} {base : Path} {path : List String}
    {content : Bytes} (h : writeFile base path content d = some d') :
    isInvalid path = false ∧ ∃ hwritable : d.Writable (Path.normalize base path),
      d.walk base path = some (Path.normalize base path) ∧
      d' = d.write (Path.normalize base path) content hwritable := by
  unfold writeFile at h
  split at h
  · simp at h
  · next hvalid => exact ⟨by simpa using hvalid, Disk.openAndWrite_eq_some h⟩

theorem grows_makeDirectories (base : Path) (path : List String) (d : Disk Bytes) :
    Disk.Grows d (makeDirectories base path d) := by
  unfold makeDirectories
  split
  · exact .refl d
  · exact d.grows_mkdirs _

theorem grows_writeFile {d d' : Disk Bytes} {base : Path} {path : List String}
    {content : Bytes} (h : writeFile base path content d = some d') : Disk.Grows d d' := by
  obtain ⟨-, hwritable, -, rfl⟩ := writeFile_eq_some h
  exact Disk.grows_write

theorem grows_extractEntries (base : Path) (output : List String) (zis : ZipStream)
    (d : Disk Bytes) : Disk.Grows d (extractEntries base output zis d).1 := by
  induction zis generalizing d with
  | eof => exact .refl d
  | broken => exact .refl d
  | undecodable => exact .refl d
  | entry name content rest ih =>
    rw [extractEntries]
    split
    · exact (grows_makeDirectories _ _ d).trans (ih _)
    · split
      · next hopen => exact (grows_writeFile hopen).trans (ih _)
      · exact .refl d
  | brokenEntry name blocks =>
    rw [extractEntries]
    split
    · exact grows_makeDirectories _ _ d
    · cases hopen : writeFile base (output ++ components name) blocks d with
      | none => exact .refl d
      | some d' => exact grows_writeFile hopen

/-- After extraction there is nothing left to create for the output directory. -/
theorem makeDirectories_extracted (base : Path) (output : List String) (zis : ZipStream)
    (d : Disk Bytes) :
    makeDirectories base output (extractFromZipInputStream base output zis d).1 =
      (extractFromZipInputStream base output zis d).1 := by
  rw [extractFromZipInputStream]
  cases hvalid : isInvalid output with
  | true => simp [makeDirectories, hvalid]
  | false =>
    rw [makeDirectories_of_valid hvalid, makeDirectories_of_valid hvalid]
    exact Disk.mkdirs_of_settled
      ((d.settled_mkdirs _).grow (grows_extractEntries base output zis _))

end Orbot.OnionService
