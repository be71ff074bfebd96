import Orbot.Foundation.TextParts
import Orbot.OnionService.Services

/-!
# Which names a refresh stores

A refresh is due to give every service without an address the one in its hostname file, and to leave
the other addresses. The loop of `updateV3OnionNames` and `updateLegacyV2OnionNames` does so up to
the first row that raises an exception; the services after it wait.
-/

namespace Orbot.OnionService

open Orbot.Foundation

/-! ## What is due -/

/-- The trimmed text of the hostname file in the directory of a service. -/
def hostnameText (P : Platform) (base : Path) (d : Disk Bytes) (row : Row) : Option String :=
  row.columns.filepath.bind fun path ↦
    match d.node (serviceDir base path ++ [hostnameFile]) with
    | some (.file content) => some (trimmedContent P content)
    | _ => none

/-- The row belongs to a v2 service with client authorization. -/
def hasCookie (v : Version) (row : Row) : Bool := v = .v2 && row.columns.authCookie == 1

/-- The address, with the cookie of a service that has one, that a row without an address is to
get. -/
def dueName (v : Version) (P : Platform) (base : Path) (d : Disk Bytes) (row : Row) :
    Option (String × Option String) :=
  if isNullOrEmpty row.columns.domain then
    (hostnameText P base d row).bind fun content ↦
      if hasCookie v row then
        match tokens ' ' content with
        | address :: cookie :: _ => some (address, some cookie)
        | _ => none
      else some (content, none)
  else none

/-- A row has what it is due, and keeps its address if that is nothing. -/
def Refreshed (due : Option (String × Option String)) (row row' : Row) : Prop :=
  row'.id = row.id ∧
    match due with
    | some (address, cookie) => row'.columns.domain = some address ∧
        ∀ value ∈ cookie, row'.columns.authCookieValue = some value
    | none => row'.columns.domain = row.columns.domain

/-- A refresh reaches every row. -/
def RefreshesAll (v : Version) (P : Platform) (base : Path) (s : Store) : Prop :=
  List.Forall₂ (fun row row' ↦ Refreshed (dueName v P base s.disk row) row row') s.table.rows
    (updateOnionNames v P base s).table.rows

/-! ## What stops the loop -/

/-- The row raises an exception: it has no directory, the hostname file of a v3 service is a
directory, or the one of a v2 service has no cookie. -/
def Stops (v : Version) (P : Platform) (base : Path) (d : Disk Bytes) (row : Row) : Prop :=
  match v with
  | .v3 => isNullOrEmpty row.columns.domain = true ∧
      (row.columns.filepath = none ∨ ∃ path ∈ row.columns.filepath,
        d.node (serviceDir base path ++ [hostnameFile]) = some .dir)
  | .v2 => (isNullOrEmpty row.columns.domain = true ∨
        row.columns.authCookie = 1 ∧ isNullOrEmpty row.columns.authCookieValue = true) ∧
      (row.columns.filepath = none ∨ row.columns.authCookie = 1 ∧
        ∃ content ∈ hostnameText P base d row, (tokens ' ' content).length ≤ 1)

/-- One blank stands between the address and the cookie in the hostname file, and the address is
that of a row which only lacks the cookie. -/
def ReadsName (v : Version) (P : Platform) (base : Path) (d : Disk Bytes) (row : Row) : Prop :=
  hasCookie v row = true → ∀ content ∈ hostnameText P base d row, ∀ address cookie others,
    tokens ' ' content = address :: cookie :: others →
      if isNullOrEmpty row.columns.domain then
        (address ++ " " ++ cookie).toList <+: content.toList
      else isNullOrEmpty row.columns.authCookieValue = true → row.columns.domain = some address

/-- A row is due nothing, or the blank address that it has. -/
def NothingDue (v : Version) (P : Platform) (base : Path) (d : Disk Bytes) (row : Row) : Prop :=
  ∀ name ∈ dueName v P base d row, name = ("", none) ∧ row.columns.domain = some ""

/-- The rows before the first that stops the loop are read rightly, and the rows after it are due
nothing. -/
def StopsLast (v : Version) (P : Platform) (base : Path) (d : Disk Bytes) : List Row → Prop
  | [] => True
  | row :: rest =>
      (Stops v P base d row ∧ ∀ later ∈ rest, NothingDue v P base d later) ∨
        (¬ Stops v P base d row ∧ ReadsName v P base d row ∧ StopsLast v P base d rest)

/-- The loop body of a refresh. -/
def nameUpdate : Version → Platform → Path → Disk Bytes → Row → NameUpdate
  | .v2 => v2NameUpdate
  | .v3 => v3NameUpdate

theorem rows_updateOnionNames (v : Version) (P : Platform) (base : Path) (s : Store) :
    (updateOnionNames v P base s).table.rows =
      namedRows (nameUpdate v P base s.disk) s.table.rows := by
  cases v <;> exact rows_updateNames _ [] s.table.rows s.table rfl

/-! ## One row -/

section Row

variable {v : Version} {P : Platform} {base : Path} {d : Disk Bytes} {row : Row}

theorem refreshed_self_iff :
    Refreshed (dueName v P base d row) row row ↔ NothingDue v P base d row := by
  unfold NothingDue Refreshed
  cases hdue : dueName v P base d row with
  | none => simp
  | some name =>
    obtain ⟨address, cookie⟩ := name
    simp only [Option.mem_def, Option.some.injEq, forall_eq', true_and, Prod.mk.injEq]
    constructor
    · rintro ⟨hdomain, hvalue⟩
      unfold dueName at hdue
      split at hdue
      · next hempty =>
        obtain rfl : address = "" := by simpa [isNullOrEmpty, hdomain] using hempty
        obtain ⟨content, -, hname⟩ := Option.bind_eq_some_iff.mp hdue
        split at hname
        · split at hname
          · next htokens =>
            -- a token is not empty
            have htoken := mem_of_mem_tokens (htokens ▸ List.mem_cons_self)
            rw [(Prod.mk.inj (Option.some_inj.mp hname)).1] at htoken
            exact absurd rfl htoken.1
          · cases hname
        · exact ⟨⟨rfl, (Prod.mk.inj (Option.some_inj.mp hname)).2.symm⟩, hdomain⟩
      · cases hdue
    · rintro ⟨⟨rfl, rfl⟩, hdomain⟩
      simpa using hdomain

/-- What the loop body does with a row, next to what the row is due. -/
inductive RowUpdate (v : Version) (P : Platform) (base : Path) (d : Disk Bytes) (row : Row) : Prop
  | abort (hstop : Stops v P base d row) (hstep : nameUpdate v P base d row = .abort)
      (hdue : dueName v P base d row = none)
  | keep (hstop : ¬ Stops v P base d row) (hread : ReadsName v P base d row)
      (hstep : nameUpdate v P base d row = .keep) (hdue : dueName v P base d row = none)
  | set (hstop : ¬ Stops v P base d row) (values : ContentValues)
      (hstep : nameUpdate v P base d row = .set values)
      (hread : Refreshed (dueName v P base d row) row
        { row with columns := values.apply row.columns } ↔ ReadsName v P base d row)

theorem rowUpdate_v3 : RowUpdate .v3 P base d row := by
  have hread : ReadsName .v3 P base d row := fun hcookie ↦ by simp [hasCookie] at hcookie
  by_cases hempty : isNullOrEmpty row.columns.domain = true
  · cases hpath : row.columns.filepath with
    | none =>
      apply RowUpdate.abort
      · exact ⟨hempty, .inl hpath⟩
      · simp [nameUpdate, v3NameUpdate, hempty, hpath]
      · simp [dueName, hostnameText, hpath]
    | some path =>
      cases hnode : d.node (serviceDir base path ++ [hostnameFile]) with
      | none =>
        apply RowUpdate.keep _ hread
        · simp [nameUpdate, v3NameUpdate, hempty, hpath, hnode]
        · simp [dueName, hostnameText, hpath, hnode]
        · simp [Stops, hpath, hnode]
      | some node =>
        cases node with
        | dir =>
          apply RowUpdate.abort
          · exact ⟨hempty, .inr ⟨path, hpath, hnode⟩⟩
          · simp [nameUpdate, v3NameUpdate, hempty, hpath, hnode]
          · simp [dueName, hostnameText, hpath, hnode]
        | file content =>
          apply RowUpdate.set _ { domain := some (trimmedContent P content) }
          · simp [nameUpdate, v3NameUpdate, hempty, hpath, hnode]
          · refine ⟨fun _ ↦ hread, fun _ ↦ ?_⟩
            simp [Refreshed, dueName, hostnameText, hasCookie, hempty, hpath, hnode,
              ContentValues.apply]
          · simp [Stops, hpath, hnode]
  · apply RowUpdate.keep _ hread
    · simp [nameUpdate, v3NameUpdate, hempty]
    · simp [dueName, hempty]
    · exact fun hstop ↦ hempty hstop.1

/-- A v2 row with a hostname file and client authorization. -/
theorem rowUpdate_cookie {path : String} {content : Bytes}
    (hneeds : isNullOrEmpty row.columns.domain = true ∨
      row.columns.authCookie = 1 ∧ isNullOrEmpty row.columns.authCookieValue = true)
    (hauth : row.columns.authCookie = 1) (hpath : row.columns.filepath = some path)
    (hnode : d.node (serviceDir base path ++ [hostnameFile]) = some (.file content)) :
    RowUpdate .v2 P base d row := by
  have htext : hostnameText P base d row = some (trimmedContent P content) := by
    simp [hostnameText, hpath, hnode]
  have hcookie : hasCookie .v2 row = true := by simp [hasCookie, hauth]
  rcases split_of_trimmed (trimmed_toList_trim (readString P content)) with
    ⟨hsplit, hshort⟩ | ⟨first, second, token, parts, others, hsplit, htokens, hblank⟩
  · apply RowUpdate.abort
    · exact ⟨hneeds, .inr ⟨hauth, _, htext, hshort⟩⟩
    · rw [nameUpdate, v2NameUpdate, if_pos hneeds]
      simp [hpath, hnode, hauth, trimmedContent, hsplit]
    · unfold dueName
      rw [htext, Option.bind_some, if_pos hcookie]
      split
      · split
        · next htokens =>
          rw [trimmedContent] at htokens
          simp [htokens] at hshort
        · rfl
      · rfl
  · have hread : ReadsName .v2 P base d row ↔
        if isNullOrEmpty row.columns.domain then second = token
        else isNullOrEmpty row.columns.authCookieValue = true →
          row.columns.domain = some first := by
      simp [ReadsName, hcookie, htext, trimmedContent, htokens, hblank]
    apply RowUpdate.set _ { domain := some first, authCookieValue := some second }
    · rw [nameUpdate, v2NameUpdate, if_pos hneeds]
      simp [hpath, hnode, hauth, trimmedContent, hsplit]
    · rw [hread]
      unfold dueName
      rw [htext, Option.bind_some, if_pos hcookie, trimmedContent, htokens]
      split
      · simp [Refreshed, ContentValues.apply]
      · next hdomain =>
        have hvalue := (hneeds.resolve_left hdomain).2
        simp [Refreshed, ContentValues.apply, hvalue, eq_comm]
    · rintro ⟨-, hnone | ⟨-, content', hcontent', hshort⟩⟩
      · simp [hpath] at hnone
      · rw [htext, Option.mem_some] at hcontent'
        subst hcontent'
        simp [trimmedContent, htokens] at hshort

theorem rowUpdate_v2 : RowUpdate .v2 P base d row := by
  by_cases hneeds : isNullOrEmpty row.columns.domain = true ∨
      row.columns.authCookie = 1 ∧ isNullOrEmpty row.columns.authCookieValue = true
  · cases hpath : row.columns.filepath with
    | none =>
      apply RowUpdate.abort
      · exact ⟨hneeds, .inl hpath⟩
      · rw [nameUpdate, v2NameUpdate, if_pos hneeds]
        simp [hpath]
      · simp [dueName, hostnameText, hpath]
    | some path =>
      have hkeep (htext : hostnameText P base d row = none)
          (hstep : nameUpdate .v2 P base d row = .keep) : RowUpdate .v2 P base d row := by
        apply RowUpdate.keep _ _ hstep
        · simp [dueName, htext]
        · simp [Stops, hpath, htext]
        · simp [ReadsName, htext]
      cases hnode : d.node (serviceDir base path ++ [hostnameFile]) with
      | none =>
        apply hkeep
        · simp [hostnameText, hpath, hnode]
        · rw [nameUpdate, v2NameUpdate, if_pos hneeds]
          simp [hpath, hnode]
      | some node =>
        cases node with
        | dir =>
          apply hkeep
          · simp [hostnameText, hpath, hnode]
          · rw [nameUpdate, v2NameUpdate, if_pos hneeds]
            simp [hpath, hnode]
        | file content =>
          by_cases hauth : row.columns.authCookie = 1
          · exact rowUpdate_cookie hneeds hauth hpath hnode
          · have hempty := hneeds.resolve_right fun h ↦ hauth h.1
            have hread : ReadsName .v2 P base d row := fun hcookie ↦ by
              simp [hasCookie, hauth] at hcookie
            apply RowUpdate.set _ { domain := some (trimmedContent P content) }
            · rw [nameUpdate, v2NameUpdate, if_pos hneeds]
              simp [hpath, hnode, hauth]
            · refine ⟨fun _ ↦ hread, fun _ ↦ ?_⟩
              simp [Refreshed, dueName, hostnameText, hasCookie, hempty, hpath, hnode, hauth,
                ContentValues.apply]
            · simp [Stops, hpath, hauth]
  · rw [not_or, not_and] at hneeds
    apply RowUpdate.keep
    · exact fun hstop ↦ hstop.1.elim hneeds.1 fun h ↦ hneeds.2 h.1 h.2
    · intro hcookie content _ address cookie others _
      have hauth : row.columns.authCookie = 1 := by simpa [hasCookie] using hcookie
      simp [hneeds.1, hneeds.2 hauth]
    · rw [nameUpdate, v2NameUpdate, if_neg]
      exact not_or.mpr ⟨hneeds.1, fun h ↦ hneeds.2 h.1 h.2⟩
    · simp [dueName, hneeds.1]

theorem rowUpdate (v : Version) (P : Platform) (base : Path) (d : Disk Bytes) (row : Row) :
    RowUpdate v P base d row :=
  match v with
  | .v2 => rowUpdate_v2
  | .v3 => rowUpdate_v3

end Row

/-! ## All rows -/

/-- What the loop does to the rows is what they are due exactly when nothing is due after a row that
stops it. -/
theorem refreshed_namedRows_iff (v : Version) (P : Platform) (base : Path) (d : Disk Bytes)
    (rows : List Row) :
    List.Forall₂ (fun row row' ↦ Refreshed (dueName v P base d row) row row') rows
      (namedRows (nameUpdate v P base d) rows) ↔ StopsLast v P base d rows := by
  induction rows with
  | nil => simp [namedRows, StopsLast]
  | cons row rest ih =>
    have hnothing (hdue : dueName v P base d row = none) : NothingDue v P base d row := by
      simp [NothingDue, hdue]
    rw [namedRows, StopsLast]
    cases rowUpdate v P base d row with
    | abort hstop hstep hdue =>
      simp [hstep, hstop, hnothing hdue, List.forall₂_same, refreshed_self_iff]
    | keep hstop hread hstep hdue =>
      simp [hstep, hstop, hread, hnothing hdue, refreshed_self_iff, ih]
    | set hstop values hstep hread => simp [hstep, hstop, hread, ih]

/-- A refresh reaches every row exactly when the rows before the first that stops the loop are read
rightly, and nothing is due after it. -/
theorem refreshesAll_iff (v : Version) (P : Platform) (base : Path) (s : Store) :
    RefreshesAll v P base s ↔ StopsLast v P base s.disk s.table.rows := by
  rw [RefreshesAll, rows_updateOnionNames]
  exact refreshed_namedRows_iff v P base s.disk s.table.rows

/-- A service that is switched off before it gets a directory, and one for which Tor has written an
address. -/
def disabledFirst : List Action :=
  [.create "draft" 8080 80 false, .toggle 1 false, .create "blog" 8081 80 false,
    .generateTorrc drawByRow,
    .torWrites (Version.v3.base appFiles ++ [Version.v3.uuidDir secondUuid])
      (flatPlatform.encode "a.onion\n") [[1], [2]]]

def disabledRow : Row where
  id := 1
  columns :=
    { defaultColumns with
      name := "draft", onionPort := 80, createdByUser := 1, enabled := 0, port := 8080 }

def addressedRow : Row where
  id := 2
  columns :=
    { defaultColumns with
      name := "blog"
      onionPort := 80
      createdByUser := 1
      port := 8081
      filepath := some (Version.v3.uuidDir secondUuid) }

/-- The row that is off stops the loop, and the address of the other one is not stored. -/
theorem disabledFirst_waits :
    (system .v3 flatPlatform appFiles).Admissible (fun _ _ ↦ True)
        (system .v3 flatPlatform appFiles).init disabledFirst ∧
      ¬ RefreshesAll .v3 flatPlatform (Version.v3.base appFiles)
        ((system .v3 flatPlatform appFiles).run (system .v3 flatPlatform appFiles).init
          disabledFirst).store := by
  have hrun : (system .v3 flatPlatform appFiles).Admissible (fun _ _ ↦ True)
        (system .v3 flatPlatform appFiles).init disabledFirst ∧
      ((system .v3 flatPlatform appFiles).run (system .v3 flatPlatform appFiles).init
        disabledFirst).store.table.rows = [disabledRow, addressedRow] ∧
      dueName .v3 flatPlatform (Version.v3.base appFiles)
        ((system .v3 flatPlatform appFiles).run (system .v3 flatPlatform appFiles).init
          disabledFirst).store.disk addressedRow = some ("a.onion", none) := by
    decide +kernel
  obtain ⟨hadmissible, hrows, hdue⟩ := hrun
  refine ⟨hadmissible, fun h ↦ ?_⟩
  rw [RefreshesAll, rows_updateOnionNames, hrows, refreshed_namedRows_iff] at h
  rcases h with ⟨-, hlater⟩ | ⟨hgoes, -⟩
  · have hname := (hlater addressedRow List.mem_cons_self _ hdue).1
    simp at hname
  · exact hgoes ⟨rfl, .inl rfl⟩

end Orbot.OnionService
