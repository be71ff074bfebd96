import Orbot.Foundation.JavaString
import Orbot.Foundation.Table

/-!
# The onion-service tables

The v3 services are the rows of `OnionServiceDatabase`, the legacy v2 services those of
`HSDatabase`. Both tables share their columns, except for the two columns of the v2 client
authorization, which keep their defaults in the model of a v3 row. The two content providers
pass inserts, updates and deletes on to the table.
-/

namespace Orbot.OnionService

open Orbot.Foundation

/-- The bytes of a file. -/
abbrev Bytes := List UInt8

/-- The two generations of onion services. -/
inductive Version where
  | v2
  | v3
  deriving DecidableEq

/-- The constant part of a service directory's name. -/
def Version.dirPrefix : Version → String
  | .v2 => "hs"
  | .v3 => "v3"

/-- `HIDDEN_SERVICES_DIR` and `ONION_SERVICES_DIR` of `TorServiceConstants`. -/
def Version.servicesDir : Version → String
  | .v2 => "hidden_services"
  | .v3 => "v3_onion_services"

/-- The columns of a service; `none` is `NULL`. -/
structure Columns where
  name : String
  domain : Option String
  onionPort : Int32
  authCookie : Int32
  authCookieValue : Option String
  createdByUser : Int32
  enabled : Int32
  port : Int32
  filepath : Option String
  deriving DecidableEq

/-- `ContentValues`: the columns that a caller sets. -/
structure ContentValues where
  name : Option String := none
  domain : Option String := none
  onionPort : Option Int32 := none
  authCookie : Option Int32 := none
  authCookieValue : Option String := none
  createdByUser : Option Int32 := none
  enabled : Option Int32 := none
  port : Option Int32 := none
  filepath : Option String := none
  deriving DecidableEq

/-- The defaults of `CREATE TABLE`; a missing text or number reads as empty or zero. -/
def defaultColumns : Columns where
  name := ""
  domain := none
  onionPort := 0
  authCookie := 0
  authCookieValue := none
  createdByUser := 0
  enabled := 1
  port := 0
  filepath := none

/-- Set the given columns and keep the others. -/
def ContentValues.apply (values : ContentValues) (columns : Columns) : Columns where
  name := values.name.getD columns.name
  domain := values.domain.or columns.domain
  onionPort := values.onionPort.getD columns.onionPort
  authCookie := values.authCookie.getD columns.authCookie
  authCookieValue := values.authCookieValue.or columns.authCookieValue
  createdByUser := values.createdByUser.getD columns.createdByUser
  enabled := values.enabled.getD columns.enabled
  port := values.port.getD columns.port
  filepath := values.filepath.or columns.filepath

abbrev Row := Record Columns

abbrev ServiceTable := Table Columns

/-- `insert` of the content providers. -/
def insertValues (t : ServiceTable) (values : ContentValues) : ServiceTable :=
  t.insert (values.apply defaultColumns)

/-- `update` of the content providers. -/
def updateValues (t : ServiceTable) (selection : Row → Bool) (values : ContentValues) :
    ServiceTable :=
  t.update selection values.apply

/-- The selection `_id=id`. -/
def idIs (id : ℕ) (row : Row) : Bool := row.id == id

/-- The selection `port=port`. -/
def portIs (port : Int32) (row : Row) : Bool := row.columns.port == port

/-- The selection `onion_port=port`. -/
def onionPortIs (port : Int32) (row : Row) : Bool := row.columns.onionPort == port

/-- The selection `enabled=1`. -/
def isEnabled (row : Row) : Bool := row.columns.enabled == 1

/-- The table and the files of one generation of services. -/
structure Store where
  table : ServiceTable
  disk : Disk Bytes

/-- The file names of a service directory. -/
def hostnameFile : String := "hostname"

/-- The name that a restored service's directory gets, `v3<port>` or `hs<port>`. -/
def Version.portDir (v : Version) (port : Int32) : String := v.dirPrefix ++ decimal port

/-- The name that a new service's directory gets. -/
def Version.uuidDir (v : Version) (uuid : Uuid) : String := v.dirPrefix ++ uuid.text

theorem Version.portDir_injective (v : Version) : Function.Injective v.portDir := fun _ _ h ↦
  decimal_injective ((String.append_right_inj _).mp h)

theorem Version.uuidDir_ne_portDir (v : Version) (uuid : Uuid) (port : Int32) :
    v.uuidDir uuid ≠ v.portDir port := by
  intro h
  have htext : uuid.text = decimal port := (String.append_right_inj _).mp h
  have hshort := length_decimal_le port
  rw [← htext, uuid.length_text] at hshort
  omega

/-- The two kinds of directory names are single components of a path. -/
theorem components_portDir (v : Version) (port : Int32) :
    components (v.portDir port) = [v.portDir port] := by
  refine components_of_name ?_ ?_
  · cases v <;> simp [Version.portDir, Version.dirPrefix]
  · rw [Version.portDir, String.toList_append, List.mem_append]
    rintro (h | h)
    · cases v <;> simp [Version.dirPrefix] at h
    · exact not_mem_decimal port (by decide) h

theorem components_uuidDir (v : Version) (uuid : Uuid) :
    components (v.uuidDir uuid) = [v.uuidDir uuid] := by
  refine components_of_name ?_ ?_
  · cases v <;> simp [Version.uuidDir, Version.dirPrefix]
  · rw [Version.uuidDir, String.toList_append, List.mem_append]
    rintro (h | h)
    · cases v <;> simp [Version.dirPrefix] at h
    · exact uuid.slash_not_mem h

theorem isName_dirPrefix {v : Version} {rest : String} : Path.IsName (v.dirPrefix ++ rest) := by
  constructor <;> intro h <;> have hlist := congrArg String.toList h <;>
    cases v <;> simp [Version.dirPrefix] at hlist

end Orbot.OnionService
