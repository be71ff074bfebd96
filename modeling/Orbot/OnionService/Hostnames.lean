import Orbot.OnionService.Platform
import Orbot.OnionService.Torrc

/-!
# Reading the hostnames that Tor wrote

`OrbotService.updateV3OnionNames` and `updateLegacyV2OnionNames` go over all rows once Tor runs and
store the address of each service that has none. A row can stop the loop: the exception that it
raises is caught outside of the loop, and the rows after it keep what they have.
-/

namespace Orbot.OnionService

open Orbot.Foundation

/-- What the loop body does with a row. -/
inductive NameUpdate where
  | keep
  | set (values : ContentValues)
  | abort
  deriving DecidableEq

/-- The loop over the cursor. -/
def updateNames (step : Row → NameUpdate) : List Row → ServiceTable → ServiceTable
  | [], t => t
  | row :: rest, t =>
      match step row with
      | .keep => updateNames step rest t
      | .set values => updateNames step rest (updateValues t (idIs row.id) values)
      | .abort => t

/-- A missing or empty text. -/
def isNullOrEmpty (text : Option String) : Bool :=
  text.getD "" == ""

/-- The loop body of `updateV3OnionNames`. A row without a path raises an exception, and so does a
directory in the place of the hostname file. -/
def v3NameUpdate (P : Platform) (mV3OnionBasePath : Path) (d : Disk Bytes) (row : Row) :
    NameUpdate :=
  if isNullOrEmpty row.columns.domain then
    match row.columns.filepath with
    | none => .abort
    | some path =>
        match d.node (serviceDir mV3OnionBasePath path ++ [hostnameFile]) with
        | none => .keep
        | some .dir => .abort
        | some (.file content) => .set { domain := some (trimmedContent P content) }
  else .keep

def updateV3OnionNames (P : Platform) (mV3OnionBasePath : Path) (s : Store) : Store :=
  { s with table := updateNames (v3NameUpdate P mV3OnionBasePath s.disk) s.table.rows s.table }

/-- The loop body of `updateLegacyV2OnionNames`: with client authorization the file holds the
address and the cookie. A directory in the place of the file is reported and skipped. -/
def v2NameUpdate (P : Platform) (mHSBasePath : Path) (d : Disk Bytes) (row : Row) : NameUpdate :=
  if isNullOrEmpty row.columns.domain ∨
      (row.columns.authCookie = 1 ∧ isNullOrEmpty row.columns.authCookieValue) then
    match row.columns.filepath with
    | none => .abort
    | some path =>
        match d.node (serviceDir mHSBasePath path ++ [hostnameFile]) with
        | none | some .dir => .keep
        | some (.file content) =>
            let onionHostname := trimmedContent P content
            if row.columns.authCookie = 1 then
              match split ' ' onionHostname with
              | address :: cookie :: _ =>
                  .set { domain := some address, authCookieValue := some cookie }
              | _ => .abort
            else .set { domain := some onionHostname }
  else .keep

def updateLegacyV2OnionNames (P : Platform) (mHSBasePath : Path) (s : Store) : Store :=
  { s with table := updateNames (v2NameUpdate P mHSBasePath s.disk) s.table.rows s.table }

/-- The update of the names after Tor has started. -/
def updateOnionNames : Version → Platform → Path → Store → Store
  | .v2 => updateLegacyV2OnionNames
  | .v3 => updateV3OnionNames

/-! ## What the loop does to a table -/

/-- The rows after the loop. -/
def namedRows (step : Row → NameUpdate) : List Row → List Row
  | [] => []
  | row :: rest =>
      match step row with
      | .keep => row :: namedRows step rest
      | .set values => { row with columns := values.apply row.columns } :: namedRows step rest
      | .abort => row :: rest

theorem rows_updateNames (step : Row → NameUpdate) (done pending : List Row) (t : ServiceTable)
    (hrows : t.rows = done ++ pending) :
    (updateNames step pending t).rows = done ++ namedRows step pending := by
  induction pending generalizing done t with
  | nil => simpa [updateNames, namedRows] using hrows
  | cons row rest ih =>
    have hshift (next : Row) (t' : ServiceTable) (ht' : t'.rows = done ++ next :: rest) :
        (updateNames step rest t').rows = done ++ next :: namedRows step rest := by
      simpa using ih (done ++ [next]) t' (by simp [ht'])
    rw [updateNames, namedRows]
    split
    · exact hshift row t hrows
    · next values _ => exact hshift _ _ (Table.rows_update_id hrows values.apply)
    · exact hrows

theorem mem_namedRows {step : Row → NameUpdate} {rows : List Row} {row' : Row}
    (h : row' ∈ namedRows step rows) :
    ∃ row ∈ rows, row'.id = row.id ∧ (row' = row ∨
      ∃ values, step row = .set values ∧ row'.columns = values.apply row.columns) := by
  induction rows with
  | nil => simp [namedRows] at h
  | cons row rest ih =>
    have hlater (hmem : row' ∈ namedRows step rest) :
        ∃ old ∈ row :: rest, row'.id = old.id ∧ (row' = old ∨
          ∃ values, step old = .set values ∧ row'.columns = values.apply old.columns) := by
      obtain ⟨old, hold, hchange⟩ := ih hmem
      exact ⟨old, by simp [hold], hchange⟩
    rw [namedRows] at h
    split at h
    · rcases List.mem_cons.mp h with rfl | hmem
      · exact ⟨row', by simp, rfl, .inl rfl⟩
      · exact hlater hmem
    · next values hstep =>
      rcases List.mem_cons.mp h with rfl | hmem
      · exact ⟨row, by simp, rfl, .inr ⟨values, hstep, rfl⟩⟩
      · exact hlater hmem
    · exact ⟨row', h, rfl, .inl rfl⟩

/-- A row keeps its columns or gets the values of its step. -/
theorem evolves_updateNames (step : Row → NameUpdate) (t : ServiceTable) :
    Table.Evolves (fun row row' ↦ row' = row ∨
        ∃ values, step row = .set values ∧ row'.columns = values.apply row.columns)
      t (updateNames step t.rows t) := by
  intro row' hrow'
  rw [rows_updateNames step [] t.rows t rfl] at hrow'
  exact mem_namedRows hrow'

/-- The values of a step are an address and, for v2, a cookie. -/
theorem v3NameUpdate_eq_set {P : Platform} {base : Path} {d : Disk Bytes} {row : Row}
    {values : ContentValues} (h : v3NameUpdate P base d row = .set values) :
    ∃ path content, isNullOrEmpty row.columns.domain ∧ row.columns.filepath = some path ∧
      d.node (serviceDir base path ++ [hostnameFile]) = some (.file content) ∧
      values = { domain := some (trimmedContent P content) } := by
  unfold v3NameUpdate at h
  split at h
  · next hdomain =>
    split at h
    · simp at h
    · next path hpath =>
      split at h
      · simp at h
      · simp at h
      · next content hcontent =>
        exact ⟨path, content, hdomain, hpath, hcontent, (NameUpdate.set.inj h).symm⟩
  · simp at h

theorem v2NameUpdate_eq_set {P : Platform} {base : Path} {d : Disk Bytes} {row : Row}
    {values : ContentValues} (h : v2NameUpdate P base d row = .set values) :
    row.columns.filepath.isSome ∧
      ∃ address cookie, values = { domain := some address, authCookieValue := cookie } := by
  unfold v2NameUpdate at h
  split at h
  · split at h
    · simp at h
    · next path hpath =>
      refine ⟨by simp [hpath], ?_⟩
      split at h
      · simp at h
      · simp at h
      · split at h
        · dsimp only at h
          split at h
          · exact ⟨_, _, (NameUpdate.set.inj h).symm⟩
          · simp at h
        · exact ⟨_, none, (NameUpdate.set.inj h).symm⟩
  · simp at h

end Orbot.OnionService
