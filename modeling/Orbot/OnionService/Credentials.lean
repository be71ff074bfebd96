import Orbot.OnionService.Platform

/-!
# The credentials of a client

The cookies of v2 services are the rows of the table `hs_client_cookie`, the keys of v3 services
those of `v3_client_auths`. A cookie comes from its dialog, from a scanned code or from a backup, a
key from its dialog or from a backup. Only the dialogs check what they store.
-/

namespace Orbot.OnionService

open Orbot.Foundation

/-- The columns of a v2 cookie; `none` is `NULL`. -/
structure ClientCookie where
  domain : Option String := none
  authCookieValue : Option String := none
  enabled : Int32 := 1
  deriving DecidableEq

/-- The columns of a v3 key. -/
structure V3ClientAuth where
  domain : Option String := none
  hash : Option String := none
  enabled : Int32 := 1
  deriving DecidableEq

abbrev CookieTable := Table ClientCookie

abbrev ClientAuthTable := Table V3ClientAuth

/-- A lower-case letter or a digit. -/
def isLowerAlphaNum (c : Char) : Bool := c.isDigit || ('a' ≤ c && c ≤ 'z')

/-! ## Cookies -/

namespace AddCookieDialog

/-- A match of `([a-z0-9]{16}).onion`, in which the dot stands for one character. -/
def isV2OnionAddressValid (onionToTest : String) : Bool :=
  let name := onionToTest.toList.take 16
  name.length == 16 && name.all isLowerAlphaNum &&
    match onionToTest.toList.drop 16 with
    | dot :: rest => !isLineTerminator dot && rest == "onion".toList
    | [] => false

/-- The check that enables the button that saves. -/
def checkInput (onion cookie : String) : Bool :=
  if trim onion = "" ∨ trim cookie = "" then false else isV2OnionAddressValid onion

def saveData (domain cookie : String) (t : CookieTable) : CookieTable :=
  t.insert { domain := some domain, authCookieValue := some cookie }

end AddCookieDialog

/-- The scanned text of `ClientCookiesActivity.onActivityResult`; a `JSONException` is reported. -/
def addScannedCookie (P : Platform) (results : String) (t : CookieTable) : CookieTable :=
  let cookie : Option ClientCookie := do
    let savedValues ← P.parseObject results
    let domain ← getString savedValues "domain"
    let authCookieValue ← getString savedValues "auth_cookie_value"
    return { domain := some domain, authCookieValue := some authCookieValue }
  if results = "" then t else cookie.elim t t.insert

/-- `BackupUtils.restoreCookieBackup`. -/
def restoreCookieBackup (P : Platform) (jString : String) (t : CookieTable) : CookieTable :=
  let cookie : Option ClientCookie := do
    let savedValues ← P.parseObject jString
    let domain ← getString savedValues "domain"
    let authCookieValue ← getString savedValues "auth_cookie_value"
    let enabled ← getInt P savedValues "enabled"
    return { domain := some domain, authCookieValue := some authCookieValue, enabled := enabled }
  cookie.elim t t.insert

/-- The address that the dialog stores is a single line. -/
theorem AddCookieDialog.lineFeed_not_mem {onion cookie : String}
    (h : AddCookieDialog.checkInput onion cookie = true) : '\n' ∉ onion.toList := by
  unfold checkInput at h
  split at h
  · simp at h
  · rw [isV2OnionAddressValid, Bool.and_eq_true, Bool.and_eq_true] at h
    obtain ⟨⟨-, hname⟩, hrest⟩ := h
    rw [← List.take_append_drop 16 onion.toList, List.mem_append]
    rintro (hlineFeed | hlineFeed)
    · exact absurd (List.all_eq_true.mp hname _ hlineFeed) (by decide)
    · split at hrest
      · next dot rest hdrop =>
        simp only [Bool.and_eq_true, beq_iff_eq] at hrest
        obtain ⟨hdot, rfl⟩ := hrest
        rw [hdrop] at hlineFeed
        rcases List.mem_cons.mp hlineFeed with rfl | hlast
        · simp [isLineTerminator] at hdot
        · simp at hlast
      · simp at hrest

/-! ## Keys -/

namespace ClientAuthCreateDialogFragment

/-- The text before the first occurrence of a part. -/
def textBefore (part : List Char) : List Char → List Char
  | [] => []
  | c :: rest => if part <+: c :: rest then [] else c :: textBefore part rest

/-- `sanitizeOnionDomainTextField`. -/
def sanitizeOnionDomain (onion : String) : String :=
  let domain := ".onion".toList
  if domain <:+ onion.toList then String.ofList (textBefore domain onion.toList) else onion

/-- The check that enables the button that saves. -/
def checkInput (onionUrl hash : String) : Bool :=
  let onion := (sanitizeOnionDomain onionUrl).toList
  onion.length == 56 && onion.all isLowerAlphaNum && hash.toList.length == 52 &&
    hash.toList.all fun c ↦ ('A' ≤ c && c ≤ 'Z') || ('2' ≤ c && c ≤ '7')

def doSave (onionUrl hash : String) (t : ClientAuthTable) : ClientAuthTable :=
  t.insert { domain := some (sanitizeOnionDomain onionUrl), hash := some hash }

end ClientAuthCreateDialogFragment

/-- `BackupUtils.restoreClientAuthBackup`: the first and the last of four parts. -/
def restoreClientAuthBackup (authFileContents : String) (t : ClientAuthTable) : ClientAuthTable :=
  match split ':' authFileContents with
  | [domain, _, _, hash] => t.insert { domain := some domain, hash := some hash }
  | _ => t

end Orbot.OnionService
