import Orbot.Foundation.System
import Orbot.Foundation.TextParts
import Orbot.OnionService.Backup
import Orbot.OnionService.ClientAuths

/-!
# Backups of credentials

The backup of a key is the text that Tor reads, in four parts between colons; the backup of a cookie
is a JSON object. Both come back through `readFileFromInputStream`, which joins the lines of a file.
A key from the dialog has letters and digits only, and a key from a backup is made of parts of a
text that went through the same reader, so no stored address or hash has a colon or a line
terminator and no stored hash is empty. This is what lets every stored key be restored.
-/

namespace Orbot.OnionService

open Orbot.Foundation

/-- `DiskUtils.readFileFromInputStream`: the lines of a file without what ends them. -/
def readFileFromInputStream (P : Platform) (file : Bytes) : String :=
  String.ofList (bufferedLines [] (P.decode file).toList).flatten

/-- The text of a key; a missing value is written as `null`. -/
def V3ClientAuth.fileText (columns : V3ClientAuth) : String :=
  buildV3ClientAuthFile (columns.domain.getD "null") (columns.hash.getD "null")

/-- The file that `BackupUtils.createV3AuthBackup` writes. -/
def createV3AuthBackup (P : Platform) (columns : V3ClientAuth) : Bytes :=
  P.encode columns.fileText

/-- The object of `CookieActionsDialog.createBackupData`. -/
def ClientCookie.backup (columns : ClientCookie) : JsonObject :=
  putText "domain" columns.domain ++ putText "auth_cookie_value" columns.authCookieValue ++
    [("enabled", jsonInt columns.enabled)]

/-- `CookieActionsDialog.createBackupData`, and the file that the dialog writes. -/
def createBackupData (P : Platform) (columns : ClientCookie) : Bytes :=
  P.encode (P.printObject columns.backup)

/-- The libraries read back what they wrote for one object, and wrote no line terminator. -/
structure Platform.RoundTripsLine (P : Platform) (object : JsonObject) : Prop
    extends P.RoundTrips object where
  escapes : ∀ c ∈ (P.printObject object).toList, c ≠ '\n' ∧ c ≠ '\r'

/-! ## The tables of credentials -/

structure Credentials where
  cookies : CookieTable
  auths : ClientAuthTable

/-- What happens to the two tables. -/
inductive CredentialAction where
  | saveCookie (domain cookie : String)
  | scanCookie (results : String)
  | restoreCookie (file : Bytes)
  | checkCookie (id : ℕ) (isChecked : Bool)
  | deleteCookie (id : ℕ)
  | saveAuth (onionUrl hash : String)
  | restoreAuth (file : Bytes)
  | checkAuth (id : ℕ) (isChecked : Bool)
  | deleteAuth (id : ℕ)

/-- The credentials, with dialogs that save only what their checks accept. -/
def credentialSystem (P : Platform) : System Credentials CredentialAction where
  init := ⟨Table.empty, Table.empty⟩
  enabled _
    | .saveCookie domain cookie => AddCookieDialog.checkInput domain cookie
    | .saveAuth onionUrl hash => ClientAuthCreateDialogFragment.checkInput onionUrl hash
    | _ => True
  next s
    | .saveCookie domain cookie =>
        { s with cookies := AddCookieDialog.saveData domain cookie s.cookies }
    | .scanCookie results => { s with cookies := addScannedCookie P results s.cookies }
    | .restoreCookie file =>
        { s with cookies := restoreCookieBackup P (readFileFromInputStream P file) s.cookies }
    | .checkCookie id isChecked =>
        { s with cookies := ClientCookiesAdapter.onCheckedChanged id isChecked s.cookies }
    | .deleteCookie id => { s with cookies := s.cookies.delete fun row ↦ row.id == id }
    | .saveAuth onionUrl hash =>
        { s with auths := ClientAuthCreateDialogFragment.doSave onionUrl hash s.auths }
    | .restoreAuth file =>
        { s with auths := restoreClientAuthBackup (readFileFromInputStream P file) s.auths }
    | .checkAuth id isChecked =>
        { s with auths := ClientAuthListAdapter.onCheckedChanged id isChecked s.auths }
    | .deleteAuth id => { s with auths := s.auths.delete fun row ↦ row.id == id }

/-- No colon and no line terminator. -/
def IsAuthPart (text : String) : Prop := ∀ c ∈ text.toList, c ≠ ':' ∧ c ≠ '\n' ∧ c ≠ '\r'

/-- A key whose file has four parts on one line. -/
def V3ClientAuth.Restorable (columns : V3ClientAuth) : Prop :=
  (∃ domain ∈ columns.domain, IsAuthPart domain) ∧
    ∃ hash ∈ columns.hash, IsAuthPart hash ∧ hash ≠ ""

/-- A cookie whose object has all three members. -/
def ClientCookie.Restorable (columns : ClientCookie) : Prop :=
  columns.domain.isSome ∧ columns.authCookieValue.isSome

/-- What the tables hold in every state. -/
structure Credentials.Restorable (s : Credentials) : Prop where
  cookies : ∀ row ∈ s.cookies.rows, row.columns.Restorable
  auths : ∀ row ∈ s.auths.rows, row.columns.Restorable

/-! ## Reading a file -/

theorem toList_readFileFromInputStream (P : Platform) (file : Bytes) :
    (readFileFromInputStream P file).toList =
      (P.decode file).toList.filter fun c ↦ c ≠ '\n' ∧ c ≠ '\r' := by
  rw [readFileFromInputStream, String.toList_ofList, flatten_bufferedLines, List.nil_append]

/-- A text on one line is read back as it was written. -/
theorem readFileFromInputStream_encode {P : Platform} {text : String}
    (hdecode : P.decode (P.encode text) = text)
    (hline : ∀ c ∈ text.toList, c ≠ '\n' ∧ c ≠ '\r') :
    readFileFromInputStream P (P.encode text) = text := by
  rw [← String.toList_inj, toList_readFileFromInputStream, hdecode]
  exact List.filter_eq_self.mpr fun c hc ↦ decide_eq_true (hline c hc)

/-- What is read has no line terminator. -/
theorem readFileFromInputStream_line (P : Platform) (file : Bytes) :
    ∀ c ∈ (readFileFromInputStream P file).toList, c ≠ '\n' ∧ c ≠ '\r' := by
  intro c hc
  rw [toList_readFileFromInputStream] at hc
  exact of_decide_eq_true (List.mem_filter.mp hc).2

/-! ## Keys -/

/-- The last part of a text with a separator is not empty. -/
theorem getLast_split_ne {c : Char} {text last : String} (hmem : c ∈ text.toList)
    (h : (split c text).getLast? = some last) : last ≠ "" := by
  unfold split at h
  rw [if_pos hmem, List.getLast?_map] at h
  obtain ⟨chars, hchars, rfl⟩ := Option.map_eq_some_iff.mp h
  have hne : (text.toList.splitOn c).rdropWhile (· = []) ≠ [] := fun hnil ↦ by
    simp [hnil] at hchars
  have hlast := List.rdropWhile_last_not (· = []) (text.toList.splitOn c) hne
  rw [List.getLast?_eq_some_getLast hne, Option.some_inj] at hchars
  rw [hchars] at hlast
  intro hempty
  have hnil := congrArg String.toList hempty
  rw [String.toList_ofList] at hnil
  simp [hnil] at hlast

/-- What a restored text adds are two of its parts, the second of them not empty. -/
theorem restoreClientAuthBackup_cases (text : String) (t : ClientAuthTable) :
    restoreClientAuthBackup text t = t ∨
      ∃ domain ∈ split ':' text, ∃ hash ∈ split ':' text, hash ≠ "" ∧
        restoreClientAuthBackup text t = t.insert { domain := some domain, hash := some hash } := by
  unfold restoreClientAuthBackup
  split
  · next domain descriptor x25519 hash hparts =>
    have hmem : ':' ∈ text.toList := by
      by_contra hnone
      rw [split, if_neg hnone] at hparts
      cases hparts
    have hlast := getLast_split_ne hmem (by rw [hparts]; rfl : _ = some hash)
    exact .inr ⟨domain, by simp [hparts], hash, by simp [hparts], hlast, rfl⟩
  · exact .inl rfl

/-- The parts of a line are parts of a file. -/
theorem isAuthPart_of_mem_split {text part : String}
    (hline : ∀ c ∈ text.toList, c ≠ '\n' ∧ c ≠ '\r') (h : part ∈ split ':' text) :
    IsAuthPart part := by
  obtain ⟨hinside, hcolon⟩ := infix_of_mem_split h
  exact fun c hc ↦ ⟨fun hsame ↦ hcolon (hsame ▸ hc), hline c (hinside.subset hc)⟩

/-- Letters and digits make a part of a file. -/
theorem isAuthPart_of_all {valid : Char → Bool} {text : String}
    (hvalid : valid ':' = false ∧ valid '\n' = false ∧ valid '\r' = false)
    (h : text.toList.all valid = true) : IsAuthPart text := by
  intro c hc
  have hc := List.all_eq_true.mp h c hc
  refine ⟨?_, ?_, ?_⟩
  · rintro rfl
    simp [hvalid.1] at hc
  · rintro rfl
    simp [hvalid.2.1] at hc
  · rintro rfl
    simp [hvalid.2.2] at hc

/-- A restored file adds nothing, or two parts of a line. -/
theorem restorable_restoreClientAuthBackup (P : Platform) (file : Bytes) {t : ClientAuthTable}
    (h : ∀ row ∈ t.rows, row.columns.Restorable) :
    ∀ row ∈ (restoreClientAuthBackup (readFileFromInputStream P file) t).rows,
      row.columns.Restorable := by
  have hline := readFileFromInputStream_line P file
  rcases restoreClientAuthBackup_cases (readFileFromInputStream P file) t with
    hsame | ⟨domain, hdomain, hash, hhash, hne, hadded⟩
  · rw [hsame]
    exact h
  · rw [hadded, Table.forall_mem_insert]
    exact ⟨h, ⟨domain, rfl, isAuthPart_of_mem_split hline hdomain⟩,
      ⟨hash, rfl, isAuthPart_of_mem_split hline hhash, hne⟩⟩

theorem restorable_doSave {onionUrl hash : String}
    (hcheck : ClientAuthCreateDialogFragment.checkInput onionUrl hash = true) :
    V3ClientAuth.Restorable
      { domain := some (ClientAuthCreateDialogFragment.sanitizeOnionDomain onionUrl)
        hash := some hash } := by
  obtain ⟨hdomain, hhash⟩ := checkInput_eq_true_iff.mp hcheck
  have hne : hash ≠ "" := fun hempty ↦
    ne_nil_of_isKeyHash hhash (by rw [hempty, String.toList_empty])
  rw [isV3Domain, Bool.and_eq_true] at hdomain
  rw [isKeyHash, Bool.and_eq_true] at hhash
  exact ⟨⟨_, rfl, isAuthPart_of_all (by decide) hdomain.2⟩,
    ⟨_, rfl, isAuthPart_of_all (by decide) hhash.2, hne⟩⟩

/-- A stored key is restored from its file. -/
theorem restore_createV3AuthBackup {P : Platform} {columns : V3ClientAuth}
    (hcolumns : columns.Restorable)
    (hdecode : P.decode (P.encode columns.fileText) = columns.fileText) (t : ClientAuthTable) :
    restoreClientAuthBackup (readFileFromInputStream P (createV3AuthBackup P columns)) t =
      t.insert { domain := columns.domain, hash := columns.hash } := by
  obtain ⟨⟨domain, hdomain, hdomainPart⟩, hash, hhash, hhashPart, hne⟩ := hcolumns
  rw [Option.mem_def] at hdomain hhash
  have htext : columns.fileText = buildV3ClientAuthFile domain hash := by
    rw [V3ClientAuth.fileText, hdomain, hhash]
    rfl
  have hline : ∀ c ∈ columns.fileText.toList, c ≠ '\n' ∧ c ≠ '\r' := by
    intro c hc
    rw [htext, buildV3ClientAuthFile, String.toList_append, String.toList_append,
      List.mem_append, List.mem_append] at hc
    rcases hc with (hc | hc) | hc
    · exact (hdomainPart c hc).2
    · have hmiddle : ":descriptor:x25519:".toList.all fun c ↦ c ≠ '\n' ∧ c ≠ '\r' := by decide
      exact of_decide_eq_true (List.all_eq_true.mp hmiddle c hc)
    · exact (hhashPart c hc).2
  rw [createV3AuthBackup, readFileFromInputStream_encode hdecode hline, htext,
    restore_authFile (fun hc ↦ (hdomainPart ':' hc).1 rfl) (fun hc ↦ (hhashPart ':' hc).1 rfl)
      (fun hnil ↦ hne (String.toList_inj.mp hnil)), hdomain, hhash]

/-! ## Cookies -/

/-- A row that may be added, if there is one to add. -/
theorem forall_mem_elim_insert {p : ClientCookie → Prop} {t : CookieTable}
    {cookie : Option ClientCookie} (h : ∀ row ∈ t.rows, p row.columns)
    (hcookie : ∀ columns ∈ cookie, p columns) :
    ∀ row ∈ (cookie.elim t t.insert).rows, p row.columns := by
  cases cookie with
  | none => exact h
  | some columns => exact (Table.forall_mem_insert columns).mpr ⟨h, hcookie columns rfl⟩

theorem restorable_addScannedCookie {P : Platform} {results : String} {t : CookieTable}
    (h : ∀ row ∈ t.rows, row.columns.Restorable) :
    ∀ row ∈ (addScannedCookie P results t).rows, row.columns.Restorable := by
  unfold addScannedCookie
  split
  · exact h
  · refine forall_mem_elim_insert h fun columns hcolumns ↦ ?_
    obtain ⟨object, -, hcolumns⟩ := Option.bind_eq_some_iff.mp hcolumns
    obtain ⟨domain, -, hcolumns⟩ := Option.bind_eq_some_iff.mp hcolumns
    obtain ⟨value, -, hcolumns⟩ := Option.bind_eq_some_iff.mp hcolumns
    rw [← Option.some_inj.mp hcolumns]
    exact ⟨rfl, rfl⟩

theorem restorable_restoreCookieBackup {P : Platform} {jString : String} {t : CookieTable}
    (h : ∀ row ∈ t.rows, row.columns.Restorable) :
    ∀ row ∈ (restoreCookieBackup P jString t).rows, row.columns.Restorable := by
  refine forall_mem_elim_insert h fun columns hcolumns ↦ ?_
  obtain ⟨object, -, hcolumns⟩ := Option.bind_eq_some_iff.mp hcolumns
  obtain ⟨domain, -, hcolumns⟩ := Option.bind_eq_some_iff.mp hcolumns
  obtain ⟨value, -, hcolumns⟩ := Option.bind_eq_some_iff.mp hcolumns
  obtain ⟨enabled, -, hcolumns⟩ := Option.bind_eq_some_iff.mp hcolumns
  rw [← Option.some_inj.mp hcolumns]
  exact ⟨rfl, rfl⟩

/-- A stored cookie is restored from its object. -/
theorem restore_createBackupData {P : Platform} {columns : ClientCookie}
    (hcolumns : columns.Restorable) (hP : P.RoundTripsLine columns.backup) (t : CookieTable) :
    restoreCookieBackup P (readFileFromInputStream P (createBackupData P columns)) t =
      t.insert columns := by
  obtain ⟨domain, authCookieValue, enabled⟩ := columns
  obtain ⟨hdomain, hvalue⟩ := hcolumns
  obtain ⟨domain, rfl⟩ := Option.isSome_iff_exists.mp hdomain
  obtain ⟨authCookieValue, rfl⟩ := Option.isSome_iff_exists.mp hvalue
  rw [createBackupData, readFileFromInputStream_encode hP.decode_encode hP.escapes,
    restoreCookieBackup, hP.parse_print]
  rfl

/-! ## All states -/

theorem restorable_next (P : Platform) (s : Credentials) (action : CredentialAction)
    (hs : s.Restorable) (henabled : (credentialSystem P).enabled s action) :
    ((credentialSystem P).next s action).Restorable := by
  cases action with
  | saveCookie domain cookie =>
    exact ⟨(Table.forall_mem_insert _).mpr ⟨hs.cookies, rfl, rfl⟩, hs.auths⟩
  | scanCookie results => exact ⟨restorable_addScannedCookie hs.cookies, hs.auths⟩
  | restoreCookie file => exact ⟨restorable_restoreCookieBackup hs.cookies, hs.auths⟩
  | checkCookie id isChecked =>
    refine ⟨Table.forall_mem_update ?_ hs.cookies _, hs.auths⟩
    exact fun _ hcolumns ↦ hcolumns
  | deleteCookie id => exact ⟨Table.forall_mem_delete hs.cookies _, hs.auths⟩
  | saveAuth onionUrl hash =>
    exact ⟨hs.cookies, (Table.forall_mem_insert _).mpr ⟨hs.auths, restorable_doSave henabled⟩⟩
  | restoreAuth file =>
    have hauths := restorable_restoreClientAuthBackup P file hs.auths
    exact ⟨hs.cookies, hauths⟩
  | checkAuth id isChecked =>
    refine ⟨hs.cookies, Table.forall_mem_update ?_ hs.auths _⟩
    exact fun _ hcolumns ↦ hcolumns
  | deleteAuth id => exact ⟨hs.cookies, Table.forall_mem_delete hs.auths _⟩

theorem restorable_of_reachable {P : Platform} {s : Credentials}
    (hs : (credentialSystem P).Reachable s) : s.Restorable :=
  (credentialSystem P).invariant_of_reachableBy Credentials.Restorable
    ⟨fun _ hrow ↦ absurd hrow List.not_mem_nil, fun _ hrow ↦ absurd hrow List.not_mem_nil⟩
    (fun s action hs henabled _ ↦ restorable_next P s action hs henabled) hs

/-- In every state of the tables the backup of each key is restored as a row with its address and
its hash, and the backup of each cookie as a row with its address, its value and its switch. -/
theorem credentialBackups_roundTrip (P : Platform) {s : Credentials}
    (hs : (credentialSystem P).Reachable s) :
    (∀ row ∈ s.auths.rows, P.decode (P.encode row.columns.fileText) = row.columns.fileText →
        ∀ t, restoreClientAuthBackup
          (readFileFromInputStream P (createV3AuthBackup P row.columns)) t =
            t.insert { domain := row.columns.domain, hash := row.columns.hash }) ∧
      ∀ row ∈ s.cookies.rows, P.RoundTripsLine row.columns.backup →
        ∀ t, restoreCookieBackup P
          (readFileFromInputStream P (createBackupData P row.columns)) t =
            t.insert
              { domain := row.columns.domain
                authCookieValue := row.columns.authCookieValue
                enabled := row.columns.enabled } := by
  have hrestorable := restorable_of_reachable hs
  exact ⟨fun row hrow hdecode t ↦ restore_createV3AuthBackup (hrestorable.auths row hrow) hdecode t,
    fun row hrow hP t ↦ restore_createBackupData (hrestorable.cookies row hrow) hP t⟩

/-- A cookie from the dialog that is switched off, and a cookie and a key from files with line
ends. -/
def someCredentials : List CredentialAction :=
  [.saveCookie "abcdefghijklmnop.onion" "c1", .checkCookie 1 false,
    .restoreCookie (flatPlatform.encode
      "\x7b\"domain\":\"b\",\n\"auth_cookie_value\":\"\",\r\n\"enabled\":-1\x7d"),
    .restoreAuth (flatPlatform.encode ":x\n:y:z\r\n::")]

theorem credentialBackups_roundTrip_someCredentials :
    let P := flatPlatform
    let s := (credentialSystem P).run (credentialSystem P).init someCredentials
    (s.auths.rows.length = 1 ∧ s.cookies.rows.length = 2) ∧
      (∀ row ∈ s.auths.rows, ∀ t, restoreClientAuthBackup
        (readFileFromInputStream P (createV3AuthBackup P row.columns)) t =
          t.insert { domain := row.columns.domain, hash := row.columns.hash }) ∧
      ∀ row ∈ s.cookies.rows, ∀ t, restoreCookieBackup P
        (readFileFromInputStream P (createBackupData P row.columns)) t =
          t.insert
            { domain := row.columns.domain
              authCookieValue := row.columns.authCookieValue
              enabled := row.columns.enabled } := by
  intro P s
  have hsaved : AddCookieDialog.checkInput "abcdefghijklmnop.onion" "c1" = true := by decide
  have hreachable : (credentialSystem P).Reachable s :=
    ⟨someCredentials, ⟨hsaved, trivial, trivial, trivial, trivial, trivial, trivial, trivial,
      trivial⟩, rfl⟩
  have hauthRows : s.auths.rows = [⟨1, { domain := some "", hash := some "z" }⟩] := by
    decide +kernel
  have hcookieRows : s.cookies.rows =
      [⟨1, ⟨some "abcdefghijklmnop.onion", some "c1", 0⟩⟩, ⟨2, ⟨some "b", some "", -1⟩⟩] := by
    decide +kernel
  have hdecode : ∀ row ∈ s.auths.rows,
      P.decode (P.encode row.columns.fileText) = row.columns.fileText := by
    rw [hauthRows]
    decide
  have hobject : ∀ row ∈ s.cookies.rows,
      P.decode (P.encode (P.printObject row.columns.backup)) = P.printObject row.columns.backup ∧
        P.parseObject (P.printObject row.columns.backup) = some row.columns.backup ∧
        (P.printObject row.columns.backup).toList.all fun c ↦ c ≠ '\n' ∧ c ≠ '\r' := by
    rw [hcookieRows]
    decide +kernel
  obtain ⟨hauths, hcookies⟩ := credentialBackups_roundTrip P hreachable
  refine ⟨by rw [hauthRows, hcookieRows]; exact ⟨rfl, rfl⟩,
    fun row hrow ↦ hauths row hrow (hdecode row hrow), fun row hrow ↦ ?_⟩
  obtain ⟨hread, hparse, hline⟩ := hobject row hrow
  exact hcookies row hrow
    { decode_encode := hread
      parse_print := hparse
      parse_decimal := readInteger_decimal
      escapes := fun c hc ↦ of_decide_eq_true (List.all_eq_true.mp hline c hc) }

end Orbot.OnionService
