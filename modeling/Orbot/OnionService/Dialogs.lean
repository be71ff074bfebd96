import Orbot.OnionService.Backup
import Orbot.OnionService.Hostnames
import Orbot.OnionService.TreeRemoval

/-!
# The dialogs and lists of the onion services

Creating a service in the create dialogs, adding one on the request of another app, the switch of a
list item, and the two delete dialogs. The v3 dialog deletes a directory with everything below it,
the v2 dialog deletes the files of a directory and then the directory if nothing is left in it.
-/

namespace Orbot.OnionService

open Orbot.Foundation

/-! ## Creating services -/

/-- `checkInput` of the two create dialogs, which enables the button that saves. -/
def checkInput (localPort remote : Int32) (server : String) : Bool :=
  if localPort < 1 ∨ localPort > 65535 ∨ remote < 1 ∨ remote > 65535 then false
  else trim server ≠ ""

/-- `doSave` of `OnionServiceCreateDialogFragment`. -/
def doSave (serverName : String) (localPort onionPort : Int32) (t : ServiceTable) :
    ServiceTable :=
  insertValues t
    { name := some (trim serverName)
      port := some localPort
      onionPort := some onionPort
      createdByUser := some 1 }

/-- `saveData` of `HSDataDialog`. -/
def saveData (name : String) (localPort remote : Int32) (authCookie : Bool) (t : ServiceTable) :
    ServiceTable :=
  insertValues t
    { name := some (trim name)
      port := some localPort
      onionPort := some remote
      authCookie := some (if authCookie then 1 else 0)
      createdByUser := some 1 }

/-- The insertion of `OrbotMainActivity.enableV3OnionService` on the request of an app. -/
def enableV3OnionService (localPort onionPort : Int32) (name : String) (t : ServiceTable) :
    ServiceTable :=
  insertValues t
    { port := some localPort
      name := some name
      onionPort := some onionPort
      enabled := some 1
      createdByUser := some 0 }

/-- What `OrbotMainActivity.enableHiddenServicePortV2` stores on the request of an app. A service
that exists is looked for by its onion port; the key is written unless it has an address. -/
def enableHiddenServicePortV2 (mHSBasePath : Path) (hsName : Option String)
    (hsPort hsRemotePort : Int32) (hsKey : Option (Option Bytes)) (authCookie : Bool)
    (s : Store) : Store :=
  let fields : ContentValues :=
    { name := some (hsName.getD ("hs" ++ decimal hsPort))
      port := some hsPort
      onionPort := some (if hsRemotePort = -1 then hsPort else hsRemotePort)
      authCookie := some (if authCookie then 1 else 0) }
  let row := (s.table.rows.filter (onionPortIs hsPort)).head?
  let onionHostname := row.bind fun found ↦ found.columns.domain
  { table := if row.isNone then insertValues s.table fields else s.table
    disk :=
      match hsKey with
      | none => s.disk
      | some key =>
          if isNullOrEmpty onionHostname then restoreKeyBackup mHSBasePath hsPort key s.disk
          else s.disk }

/-- The switch of a list item. -/
def onCheckedChanged (id : ℕ) (isChecked : Bool) (t : ServiceTable) : ServiceTable :=
  updateValues t (idIs id) { enabled := some (if isChecked then 1 else 0) }

/-! ## Deleting services -/

/-- `DiskUtils.recursivelyDeleteDirectory`, whose calls of `File.delete` fail for no other reason
than a directory that is not empty. -/
def recursivelyDeleteDirectory (d : Disk Bytes) (directory : Path) : Disk Bytes :=
  (DiskUtils.recursivelyDeleteDirectory (fun _ ↦ false) d directory).2

/-- `OnionServiceDeleteDialogFragment.doDelete` for the id and the local port of a list item. -/
def doDeleteV3 (base : Path) (id : ℕ) (port : Int32) (s : Store) : Store where
  table := s.table.delete (idIs id)
  disk := recursivelyDeleteDirectory s.disk (serviceDir base (Version.v3.portDir port))

/-- `HSDeleteDialog.doDelete`. -/
def doDeleteV2 (base : Path) (id : ℕ) (port : Int32) (s : Store) : Store :=
  let dir := serviceDir base (Version.v2.portDir port)
  { table := s.table.delete (idIs id)
    disk :=
      if s.disk.isDirectory dir then
        (s.disk.deleteAll dir (s.disk.listFiles dir)).delete dir
      else s.disk }

def doDelete : Version → Path → ℕ → Int32 → Store → Store
  | .v2 => doDeleteV2
  | .v3 => doDeleteV3

/-! ## What the operations change -/

@[simp]
theorem table_doDelete (v : Version) (base : Path) (id : ℕ) (port : Int32) (s : Store) :
    (doDelete v base id port s).table = s.table.delete (idIs id) := by
  cases v <;> rfl

/-- `recursivelyDeleteDirectory` removes the directory and everything below it, nothing else. -/
theorem node_recursivelyDeleteDirectory (d : Disk Bytes) {dir : Path} (hne : dir ≠ [])
    (q : Path) :
    (recursivelyDeleteDirectory d dir).node q = if dir <+: q then none else d.node q := by
  have hprunes : DiskUtils.Prunes (fun _ ↦ false) (dir <+: ·) d (recursivelyDeleteDirectory d dir) :=
    (DiskUtils.recursivelyDeleteDirectory_spec (fun _ ↦ false) d dir).1
  split
  · next hunder =>
    by_contra hleft
    obtain ⟨node, hnode⟩ := Option.ne_none_iff_exists'.mp hleft
    obtain ⟨entry, hbelow, -, hfails⟩ := ((hprunes q node).mp hnode).2 hunder
    rcases hfails with hrefused | rfl
    · cases hrefused
    · exact hne (List.prefix_nil.mp (hunder.trans hbelow))
  · next hnot => exact hprunes.node_eq hnot

end Orbot.OnionService
