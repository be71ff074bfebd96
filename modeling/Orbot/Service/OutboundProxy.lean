import Orbot.Foundation.TextParts
import Orbot.Service.Settings

/-!
# The outgoing proxy in the torrc

Without bridges and without the VPN, `processSettingsImpl` writes the server of the outgoing proxy
and the credentials for it. For a SOCKS 5 proxy the lines give the settings back; for the other
types the port is written in the place of the password.
-/

namespace Orbot.Service

open Orbot.Foundation Orbot.OnionService

/-- The five settings of the proxy. -/
structure ProxyConfig where
  proxyType : String
  proxyHost : String
  proxyPort : String
  proxyUser : Option String
  proxyPass : Option String
  deriving DecidableEq

/-- A text that is not empty and has no whitespace. -/
def IsWord (text : String) : Prop := text ≠ "" ∧ ∀ c ∈ text.toList, c.isWhitespace = false

instance : DecidablePred IsWord := fun text ↦
  have := List.decidableBAll (fun c : Char ↦ c.isWhitespace = false) text.toList
  inferInstanceAs (Decidable (text ≠ "" ∧ _))

namespace ProxyConfig

structure Valid (c : ProxyConfig) : Prop where
  proxyType : c.proxyType ≠ ""
  proxyHost : IsWord c.proxyHost
  proxyPort : IsWord c.proxyPort
  proxyUser : ∀ user ∈ c.proxyUser, IsWord user ∧ ':' ∉ user.toList
  proxyPass : ∀ pass ∈ c.proxyPass, IsWord pass ∧ ':' ∉ pass.toList

/-- The preferences with these settings. -/
def storeIn (c : ProxyConfig) (prefs : Preferences) : Preferences :=
  { prefs with
    proxyType := some c.proxyType
    proxyHost := some c.proxyHost
    proxyPort := some c.proxyPort
    proxyUsername := c.proxyUser
    proxyPassword := c.proxyPass }

def isSocks5 (c : ProxyConfig) : Bool := equalsIgnoreCase c.proxyType "socks5"

/-- Both credentials are set. -/
def IsComplete (c : ProxyConfig) : Prop := c.proxyUser.isSome ∧ c.proxyPass.isSome

/-- The beginning of a line with credentials in one text. -/
def authenticator (c : ProxyConfig) : String := c.proxyType ++ "ProxyAuthenticator "

end ProxyConfig

/-- The lines about the proxy have the server and the credentials, and the text of all lines
determines the settings. -/
structure ProxySurvives (device : Device) (random : RandomChoice) (prefs : Preferences)
    (tables : Tables) (c : ProxyConfig) (lines : List Directive) : Prop where
  server : ∃ line ∈ lines,
    line.text = c.proxyType ++ "Proxy " ++ c.proxyHost ++ ":" ++ c.proxyPort
  credentials : ∀ user ∈ c.proxyUser, ∀ pass ∈ c.proxyPass,
    if c.isSocks5 then
      (∃ line ∈ lines, line.text = "Socks5ProxyUsername " ++ user) ∧
        ∃ line ∈ lines, line.text = "Socks5ProxyPassword " ++ pass
    else ∃ line ∈ lines, line.text = c.authenticator ++ user ++ ":" ++ pass
  determined : c.IsComplete → ∀ c' : ProxyConfig, c'.Valid → c'.IsComplete →
    ∀ lines' tables', processSettingsImpl device random (c'.storeIn prefs) tables =
        some (lines', tables') → directivesText lines' = directivesText lines →
      c'.proxyHost = c.proxyHost ∧ c'.proxyPort = c.proxyPort ∧ c'.proxyUser = c.proxyUser ∧
        c'.proxyPass = c.proxyPass
  noUser : c.proxyUser = none → ∀ line ∈ networkSettings device random.bridge (c.storeIn prefs),
    ¬ line.StartsWith c.authenticator

/-- The settings that the lines give back: for credentials a SOCKS 5 proxy, whose host and port
stand on the sides of the only colon between other characters. -/
def ProxyConfig.Recoverable (c : ProxyConfig) : Prop :=
  match c.proxyUser, c.proxyPass with
  | some _, some _ => c.isSocks5 = true ∧ ':' ∉ c.proxyHost.toList.tail ∧
      ':' ∉ c.proxyPort.toList.dropLast
  | none, some _ => False
  | _, none => True

/-! ## The lines about a proxy -/

namespace ProxyConfig

variable {device : Device} {random : RandomChoice} {prefs : Preferences} {tables : Tables}
  {c c' : ProxyConfig}

/-- The line of the server. -/
def serverLine (c : ProxyConfig) : Directive :=
  [.fixed (c.proxyType ++ "Proxy "), .stored c.proxyHost, .fixed ":", .stored c.proxyPort]

/-- The lines about the network. -/
def lines (c : ProxyConfig) : List Directive :=
  fixedLine "UseBridges 0" :: c.serverLine ::
    proxyCredentials c.proxyType c.proxyPort c.proxyUser c.proxyPass

theorem text_serverLine (c : ProxyConfig) :
    c.serverLine.text = c.proxyType ++ "Proxy " ++ c.proxyHost ++ ":" ++ c.proxyPort := by
  apply String.toList_inj.mp
  simp [serverLine, Directive.text, Directive.chars, Piece.chars]

theorem networkSettings_storeIn (hbridges : Prefs.bridgesEnabled device.farsi prefs = false)
    (hvpn : Prefs.useVpn prefs = false) (hvalid : c.Valid) (choice : BridgeChoice) :
    networkSettings device choice (c.storeIn prefs) = c.lines := by
  have hbridges' : Prefs.bridgesEnabled device.farsi (c.storeIn prefs) = false := hbridges
  have hvpn' : Prefs.useVpn (c.storeIn prefs) = false := hvpn
  rw [networkSettings, hbridges', if_neg Bool.false_ne_true, proxySettings, hvpn',
    if_neg Bool.false_ne_true]
  simp [proxyServer, storeIn, lines, serverLine, hvalid.proxyType, hvalid.proxyHost.1,
    hvalid.proxyPort.1]

/-- The lines after those about the network do not depend on the proxy. -/
theorem processSettingsImpl_storeIn (hbridges : Prefs.bridgesEnabled device.farsi prefs = false)
    (hvpn : Prefs.useVpn prefs = false) (hvalid : c.Valid) :
    processSettingsImpl device random (c.storeIn prefs) tables =
      (relaySettings device prefs).map fun relay ↦
        (c.lines ++ (localSettings device random prefs tables relay).1,
          (localSettings device random prefs tables relay).2) := by
  have hrelay : relaySettings device (c.storeIn prefs) = relaySettings device prefs := rfl
  have hlocal (relay : List Directive) :
      localSettings device random (c.storeIn prefs) tables relay =
        localSettings device random prefs tables relay := rfl
  rw [processSettingsImpl, hrelay]
  simp only [hlocal, networkSettings_storeIn hbridges hvpn hvalid]

/-- Once lines are written for one proxy, they are written for all, with the same rest. -/
theorem exists_others (hbridges : Prefs.bridgesEnabled device.farsi prefs = false)
    (hvpn : Prefs.useVpn prefs = false) (hvalid : c.Valid) {lines : List Directive}
    {tables' : Tables}
    (h : processSettingsImpl device random (c.storeIn prefs) tables = some (lines, tables')) :
    ∃ others, lines = c.lines ++ others ∧ ∀ c' : ProxyConfig, c'.Valid →
      processSettingsImpl device random (c'.storeIn prefs) tables =
        some (c'.lines ++ others, tables') := by
  rw [processSettingsImpl_storeIn hbridges hvpn hvalid] at h
  obtain ⟨relay, hrelay, hwritten⟩ := Option.map_eq_some_iff.mp h
  obtain ⟨hlines, htables⟩ := Prod.mk.inj hwritten
  refine ⟨_, hlines.symm, fun c' hvalid' ↦ ?_⟩
  rw [processSettingsImpl_storeIn hbridges hvpn hvalid', hrelay, Option.map_some, htables]

theorem directivesText_append_inj {first second others : List Directive} :
    directivesText (first ++ others) = directivesText (second ++ others) ↔
      directiveChars first = directiveChars second := by
  simp [directivesText, directiveChars, String.ofList_inj]

/-! ## SOCKS 5 proxies -/

theorem lineFeed_not_mem_of_isWord {text : String} (h : IsWord text) : '\n' ∉ text.toList := by
  intro hmem
  exact absurd (h.2 '\n' hmem) (by decide)

theorem socks5_spec (h : c.isSocks5 = true) :
    c.proxyType.toList.length = 6 ∧ '\n' ∉ c.proxyType.toList := by
  have hfold : c.proxyType.toList.map foldCase = "socks5".toList.map foldCase :=
    of_decide_eq_true h
  constructor
  · simpa using congrArg List.length hfold
  · intro hmem
    have hlineFeed : foldCase '\n' ∈ "socks5".toList.map foldCase := by
      rw [← hfold]
      exact List.mem_map_of_mem hmem
    exact absurd hlineFeed (by decide)

/-- The text of the lines for a SOCKS 5 proxy with credentials. -/
theorem chars_socks5 {user pass : String} (hsocks : c.isSocks5 = true)
    (huser : c.proxyUser = some user) (hpass : c.proxyPass = some pass) :
    directiveChars c.lines = "UseBridges 0\n".toList ++ (c.proxyType.toList ++
      ("Proxy ".toList ++ ((c.proxyHost.toList ++ ':' :: c.proxyPort.toList) ++
        '\n' :: ("Socks5ProxyUsername ".toList ++ (user.toList ++
          '\n' :: ("Socks5ProxyPassword ".toList ++ (pass.toList ++ ['\n']))))))) := by
  rw [isSocks5] at hsocks
  simp [lines, serverLine, proxyCredentials, huser, hpass, hsocks, fixedLine, storedLine,
    directiveChars, Directive.chars, Piece.chars]

/-- The text of the lines for another proxy with credentials, whose password is missing. -/
theorem chars_other {user pass : String} (hsocks : c.isSocks5 = false)
    (huser : c.proxyUser = some user) (hpass : c.proxyPass = some pass) :
    directiveChars c.lines = "UseBridges 0\n".toList ++ (c.proxyType.toList ++
      ("Proxy ".toList ++ ((c.proxyHost.toList ++ ':' :: c.proxyPort.toList) ++
        '\n' :: (c.proxyType.toList ++ ("ProxyAuthenticator ".toList ++ (user.toList ++
          ':' :: (c.proxyPort.toList ++ ['\n']))))))) := by
  rw [isSocks5] at hsocks
  simp [lines, serverLine, proxyCredentials, huser, hpass, hsocks, fixedLine,
    directiveChars, Directive.chars, Piece.chars]

/-- The lines for SOCKS 5 have an even number of ends, those for other types an odd one. -/
theorem isSocks5_eq {user pass user' pass' : String} (hvalid : c.Valid) (hvalid' : c'.Valid)
    (huser : c.proxyUser = some user) (hpass : c.proxyPass = some pass)
    (huser' : c'.proxyUser = some user') (hpass' : c'.proxyPass = some pass')
    (hsocks : c.isSocks5 = true) (h : directiveChars c'.lines = directiveChars c.lines) :
    c'.isSocks5 = true := by
  by_contra hother
  have hcount := congrArg (List.count '\n') h
  have hword {text : String} (htext : IsWord text) : text.toList.count '\n' = 0 :=
    List.count_eq_zero.mpr (lineFeed_not_mem_of_isWord htext)
  have htype := List.count_eq_zero.mpr (socks5_spec hsocks).2
  rw [chars_socks5 hsocks huser hpass, chars_other (Bool.not_eq_true _ |>.mp hother) huser' hpass']
    at hcount
  have hcolon (text : List Char) : (':' :: text).count '\n' = text.count '\n' :=
    List.count_cons_of_ne (by decide)
  have hswitch : "UseBridges 0\n".toList.count '\n' = 1 := by decide
  have hserver : "Proxy ".toList.count '\n' = 0 := by decide
  have husername : "Socks5ProxyUsername ".toList.count '\n' = 0 := by decide
  have hpassword : "Socks5ProxyPassword ".toList.count '\n' = 0 := by decide
  have hauthenticator : "ProxyAuthenticator ".toList.count '\n' = 0 := by decide
  simp only [List.count_append, List.count_cons_self, List.count_nil, hcolon, hswitch, hserver,
    husername, hpassword, hauthenticator, htype, hword hvalid.proxyHost, hword hvalid.proxyPort,
    hword (hvalid.proxyUser user huser).1, hword (hvalid.proxyPass pass hpass).1,
    hword hvalid'.proxyHost, hword hvalid'.proxyPort, hword (hvalid'.proxyUser user' huser').1]
    at hcount
  omega

/-- The only colon with characters on both sides separates the host and the port. -/
theorem host_port_inj {host host' port port' : List Char} (hhost : host' ≠ []) (hport : port' ≠ [])
    (hinner : ':' ∉ host.tail ∧ ':' ∉ port.dropLast)
    (h : host' ++ ':' :: port' = host ++ ':' :: port) : host' = host ∧ port' = port := by
  rcases List.append_eq_append_iff.mp h with ⟨middle, hhost', hport'⟩ | ⟨middle, hhost', hport'⟩
  · cases middle with
    | nil => simp_all
    | cons x middle =>
      obtain ⟨rfl, -⟩ := List.cons.inj hport'
      obtain ⟨y, rest, rfl⟩ := List.exists_cons_of_ne_nil hhost
      exact absurd (by simp [hhost']) hinner.1
  · cases middle with
    | nil => simp_all
    | cons x middle =>
      obtain ⟨rfl, hrest⟩ := List.cons.inj hport'
      have hmem : ':' ∈ port.dropLast := by
        change port = middle ++ ':' :: port' at hrest
        rw [hrest, List.dropLast_append_of_ne_nil (by simp), List.dropLast_cons_of_ne_nil hport]
        simp
      exact absurd hmem hinner.2

/-- The lines of a recoverable SOCKS 5 proxy are those of no other proxy. -/
theorem eq_of_chars_eq {user pass user' pass' : String} (hvalid : c.Valid) (hvalid' : c'.Valid)
    (huser : c.proxyUser = some user) (hpass : c.proxyPass = some pass)
    (huser' : c'.proxyUser = some user') (hpass' : c'.proxyPass = some pass')
    (hsocks : c.isSocks5 = true)
    (hinner : ':' ∉ c.proxyHost.toList.tail ∧ ':' ∉ c.proxyPort.toList.dropLast)
    (h : directiveChars c'.lines = directiveChars c.lines) :
    c'.proxyHost = c.proxyHost ∧ c'.proxyPort = c.proxyPort ∧ user' = user ∧ pass' = pass := by
  have hsocks' := isSocks5_eq hvalid hvalid' huser hpass huser' hpass' hsocks h
  have hserver {c : ProxyConfig} (hvalid : c.Valid) :
      '\n' ∉ c.proxyHost.toList ++ ':' :: c.proxyPort.toList := by
    simp [lineFeed_not_mem_of_isWord hvalid.proxyHost, lineFeed_not_mem_of_isWord hvalid.proxyPort]
  have hword {text : String} (hword : IsWord text ∧ ':' ∉ text.toList) : '\n' ∉ text.toList :=
    lineFeed_not_mem_of_isWord hword.1
  have hne {text : String} (hword : IsWord text) : text.toList ≠ [] := by
    simpa using hword.1
  rw [chars_socks5 hsocks huser hpass, chars_socks5 hsocks' huser' hpass',
    List.append_cancel_left_eq] at h
  -- the types have the same length, and line feeds end the values
  have htail := (List.append_inj h ((socks5_spec hsocks').1.trans (socks5_spec hsocks).1.symm)).2
  rw [List.append_cancel_left_eq] at htail
  obtain ⟨hhost, hcredentials⟩ := append_delimiter_inj (hserver hvalid') (hserver hvalid) htail
  rw [List.append_cancel_left_eq] at hcredentials
  obtain ⟨huserEq, hpassword⟩ := append_delimiter_inj (hword (hvalid'.proxyUser user' huser'))
    (hword (hvalid.proxyUser user huser)) hcredentials
  rw [List.append_cancel_left_eq, List.append_cancel_right_eq] at hpassword
  obtain ⟨hhostEq, hportEq⟩ :=
    host_port_inj (hne hvalid'.proxyHost) (hne hvalid'.proxyPort) hinner hhost
  exact ⟨String.toList_inj.mp hhostEq, String.toList_inj.mp hportEq, String.toList_inj.mp huserEq,
    String.toList_inj.mp hpassword⟩

/-! ## Settings that share their lines -/

theorem isWord_ofList {chars : List Char} (hne : chars ≠ [])
    (h : ∀ c ∈ chars, c.isWhitespace = false) : IsWord (String.ofList chars) := by
  refine ⟨fun hempty ↦ hne ?_, by simpa using h⟩
  simpa using congrArg String.toList hempty

/-- Another type than SOCKS 5 has the same lines with another password. -/
theorem exists_other_password {user pass : String} (hvalid : c.Valid) (hsocks : c.isSocks5 = false)
    (huser : c.proxyUser = some user) (hpass : c.proxyPass = some pass) :
    ∃ c' : ProxyConfig, c'.Valid ∧ c'.IsComplete ∧ c'.lines = c.lines ∧
      c'.proxyPass ≠ c.proxyPass := by
  obtain ⟨hword, hcolon⟩ := hvalid.proxyPass pass hpass
  refine ⟨{ c with proxyPass := some (pass ++ "x") }, ⟨hvalid.proxyType, hvalid.proxyHost,
    hvalid.proxyPort, hvalid.proxyUser, ?_⟩, ⟨by simp [huser], rfl⟩, ?_, ?_⟩
  · rintro other hother
    obtain rfl := Option.some_inj.mp hother
    refine ⟨⟨by simp, fun x hx ↦ ?_⟩, by simp [hcolon]⟩
    rw [String.toList_append, List.mem_append] at hx
    rcases hx with hx | hx
    · exact hword.2 x hx
    · rw [List.mem_singleton.mp hx]
      decide
  · rw [isSocks5] at hsocks
    simp [lines, serverLine, proxyCredentials, huser, hpass, hsocks]
  · rw [hpass]
    intro hsame
    have hlength := congrArg String.length (Option.some_inj.mp hsame)
    simp at hlength

/-- A colon within the host or the port can be the one that separates them. -/
theorem exists_other_host {user pass : String} (hvalid : c.Valid) (hsocks : c.isSocks5 = true)
    (huser : c.proxyUser = some user) (hpass : c.proxyPass = some pass)
    (hcolon : ':' ∈ c.proxyHost.toList.tail ∨ ':' ∈ c.proxyPort.toList.dropLast) :
    ∃ c' : ProxyConfig, c'.Valid ∧ c'.IsComplete ∧
      directiveChars c'.lines = directiveChars c.lines ∧ c'.proxyHost ≠ c.proxyHost := by
  have hsplit : ∃ host port, host ≠ [] ∧ port ≠ [] ∧ host ≠ c.proxyHost.toList ∧
      host ++ ':' :: port = c.proxyHost.toList ++ ':' :: c.proxyPort.toList := by
    rcases hcolon with hcolon | hcolon
    · obtain ⟨front, back, htail⟩ := List.append_of_mem hcolon
      obtain ⟨x, rest, hhost⟩ := List.exists_cons_of_ne_nil
        (List.ne_nil_of_mem (List.mem_of_mem_tail hcolon))
      rw [hhost, List.tail_cons] at htail
      refine ⟨x :: front, back ++ ':' :: c.proxyPort.toList, List.cons_ne_nil _ _, by simp, ?_, ?_⟩
      · simp [hhost, htail]
      · simp [hhost, htail]
    · obtain ⟨front, back, hfront⟩ := List.append_of_mem hcolon
      have hport : c.proxyPort.toList ≠ [] := by simpa using hvalid.proxyPort.1
      have hlast := List.dropLast_append_getLast hport
      rw [hfront] at hlast
      refine ⟨c.proxyHost.toList ++ ':' :: front, back ++ [c.proxyPort.toList.getLast hport],
        by simp, by simp, by simp, ?_⟩
      calc
        _ = c.proxyHost.toList ++
            ':' :: (front ++ ':' :: back ++ [c.proxyPort.toList.getLast hport]) := by simp
        _ = _ := by rw [hlast]
  obtain ⟨host, port, hhost, hport, hne, hjoined⟩ := hsplit
  have hchars : ∀ x ∈ host ++ ':' :: port, x.isWhitespace = false := by
    rw [hjoined]
    intro x hx
    rcases List.mem_append.mp hx with hx | hx
    · exact hvalid.proxyHost.2 x hx
    · rcases List.mem_cons.mp hx with rfl | hx
      · decide
      · exact hvalid.proxyPort.2 x hx
  refine ⟨{ c with proxyHost := String.ofList host, proxyPort := String.ofList port },
    ⟨hvalid.proxyType, isWord_ofList hhost fun x hx ↦ hchars x (List.mem_append_left _ hx),
      isWord_ofList hport fun x hx ↦ hchars x (by simp [hx]), hvalid.proxyUser, hvalid.proxyPass⟩,
    ⟨by simp [huser], by simp [hpass]⟩, ?_, fun hsame ↦ hne ?_⟩
  · have hchars' := chars_socks5
      (c := { c with proxyHost := String.ofList host, proxyPort := String.ofList port })
      hsocks huser hpass
    rw [hchars', chars_socks5 hsocks huser hpass]
    simp only [String.toList_ofList, hjoined]
  · simpa using congrArg String.toList hsame

end ProxyConfig

/-! ## Which settings survive -/

section Survival

variable {device : Device} {random : RandomChoice} {prefs : Preferences} {tables tables' : Tables}
  {c : ProxyConfig} {lines : List Directive}

/-- The texts of other settings are compared by the lines about the proxy. -/
theorem determined_iff (hbridges : Prefs.bridgesEnabled device.farsi prefs = false)
    (hvpn : Prefs.useVpn prefs = false) (hvalid : c.Valid)
    (h : processSettingsImpl device random (c.storeIn prefs) tables = some (lines, tables'))
    (Q : ProxyConfig → Prop) :
    (∀ c' : ProxyConfig, c'.Valid → c'.IsComplete → ∀ lines' tables'',
        processSettingsImpl device random (c'.storeIn prefs) tables = some (lines', tables'') →
        directivesText lines' = directivesText lines → Q c') ↔
      ∀ c' : ProxyConfig, c'.Valid → c'.IsComplete →
        directiveChars c'.lines = directiveChars c.lines → Q c' := by
  obtain ⟨others, rfl, hothers⟩ := ProxyConfig.exists_others hbridges hvpn hvalid h
  refine forall₃_congr fun c' hvalid' hcomplete ↦ ?_
  constructor
  · intro hQ hchars
    exact hQ _ _ (hothers c' hvalid') (ProxyConfig.directivesText_append_inj.mpr hchars)
  · intro hQ lines' tables'' hlines' htext
    rw [hothers c' hvalid', Option.some_inj, Prod.mk.injEq] at hlines'
    rw [← hlines'.1] at htext
    exact hQ (ProxyConfig.directivesText_append_inj.mp htext)

/-- Without credentials no line begins like an authenticator. -/
theorem not_startsWith_authenticator (hpass : c.proxyPass = none) {line : Directive}
    (hline : line ∈ c.lines) : ¬ line.StartsWith c.authenticator := by
  have hlines : c.lines = [fixedLine "UseBridges 0", c.serverLine] := by
    simp [ProxyConfig.lines, proxyCredentials, hpass]
  rw [hlines] at hline
  intro hstarts
  rcases List.mem_pair.mp hline with rfl | rfl
  · have hlength := List.IsPrefix.length_le hstarts
    simp [ProxyConfig.authenticator, fixedLine, Directive.chars, Piece.chars] at hlength
  · simp [Directive.StartsWith, ProxyConfig.authenticator, ProxyConfig.serverLine,
      Directive.chars, Piece.chars, List.prefix_append_right_inj] at hstarts

theorem server_written {others : List Directive} (hlines : lines = c.lines ++ others) :
    ∃ line ∈ lines, line.text = c.proxyType ++ "Proxy " ++ c.proxyHost ++ ":" ++ c.proxyPort := by
  refine ⟨c.serverLine, ?_, c.text_serverLine⟩
  simp [hlines, ProxyConfig.lines]

theorem credentials_written {others : List Directive} (hlines : lines = c.lines ++ others)
    {user pass : String} (huser : c.proxyUser = some user) (hpass : c.proxyPass = some pass)
    (hsocks : c.isSocks5 = true) :
    (∃ line ∈ lines, line.text = "Socks5ProxyUsername " ++ user) ∧
      ∃ line ∈ lines, line.text = "Socks5ProxyPassword " ++ pass := by
  have hcredentials : proxyCredentials c.proxyType c.proxyPort c.proxyUser c.proxyPass =
      [storedLine "Socks5ProxyUsername" user, storedLine "Socks5ProxyPassword" pass] := by
    simp only [ProxyConfig.isSocks5] at hsocks
    simp [proxyCredentials, huser, hpass, hsocks]
  constructor
  · refine ⟨storedLine "Socks5ProxyUsername" user, ?_, by simp [storedLine, Piece.chars]⟩
    simp [hlines, ProxyConfig.lines, hcredentials]
  · refine ⟨storedLine "Socks5ProxyPassword" pass, ?_, by simp [storedLine, Piece.chars]⟩
    simp [hlines, ProxyConfig.lines, hcredentials]

/-- The lines with both credentials determine the settings of the recoverable proxies only. -/
theorem determined_complete_iff {user pass : String} (hvalid : c.Valid)
    (huser : c.proxyUser = some user) (hpass : c.proxyPass = some pass) :
    (∀ c' : ProxyConfig, c'.Valid → c'.IsComplete →
        directiveChars c'.lines = directiveChars c.lines →
        c'.proxyHost = c.proxyHost ∧ c'.proxyPort = c.proxyPort ∧ c'.proxyUser = c.proxyUser ∧
          c'.proxyPass = c.proxyPass) ↔
      c.isSocks5 = true ∧ ':' ∉ c.proxyHost.toList.tail ∧ ':' ∉ c.proxyPort.toList.dropLast := by
  constructor
  · intro hsame
    have hsocks : c.isSocks5 = true := by
      by_contra hother
      obtain ⟨c', hvalid', hcomplete', hlines, hne⟩ :=
        ProxyConfig.exists_other_password hvalid (Bool.not_eq_true _ |>.mp hother) huser hpass
      exact hne (hsame c' hvalid' hcomplete' (by rw [hlines])).2.2.2
    refine ⟨hsocks, ?_⟩
    by_contra hcolon
    rw [not_and_or, not_not, not_not] at hcolon
    obtain ⟨c', hvalid', hcomplete', hchars, hne⟩ :=
      ProxyConfig.exists_other_host hvalid hsocks huser hpass hcolon
    exact hne (hsame c' hvalid' hcomplete' hchars).1
  · rintro ⟨hsocks, hinner⟩ c' hvalid' hcomplete' hchars
    obtain ⟨user', huser'⟩ := Option.isSome_iff_exists.mp hcomplete'.1
    obtain ⟨pass', hpass'⟩ := Option.isSome_iff_exists.mp hcomplete'.2
    have hsame := ProxyConfig.eq_of_chars_eq hvalid hvalid' huser hpass huser' hpass' hsocks hinner
      hchars
    simp [hsame, huser, hpass, huser', hpass']

/-- The settings of a proxy survive in the lines exactly when there are no credentials, or there is
a user name, the type is SOCKS 5 and the host and the port have no colon within. -/
theorem proxySurvives_iff (hbridges : Prefs.bridgesEnabled device.farsi prefs = false)
    (hvpn : Prefs.useVpn prefs = false) (hvalid : c.Valid)
    (h : processSettingsImpl device random (c.storeIn prefs) tables = some (lines, tables')) :
    ProxySurvives device random prefs tables c lines ↔ c.Recoverable := by
  have hdetermined := determined_iff hbridges hvpn hvalid h
  have hnetwork := ProxyConfig.networkSettings_storeIn hbridges hvpn hvalid random.bridge
  obtain ⟨others, hlines, -⟩ := ProxyConfig.exists_others hbridges hvpn hvalid h
  unfold ProxyConfig.Recoverable
  split
  · next user pass huser hpass =>
    have hcomplete : c.IsComplete := ⟨by simp [huser], by simp [hpass]⟩
    rw [← determined_complete_iff hvalid huser hpass, ← hdetermined]
    constructor
    · intro hsurvives
      exact hsurvives.determined hcomplete
    · intro hsame
      have hsocks := ((determined_complete_iff hvalid huser hpass).mp ((hdetermined _).mp hsame)).1
      refine ⟨server_written hlines, ?_, fun _ ↦ hsame, fun hnone ↦ by simp [huser] at hnone⟩
      intro user' huser' pass' hpass'
      rw [if_pos hsocks]
      exact credentials_written hlines huser' hpass' hsocks
  · next pass huser hpass =>
    refine iff_of_false (fun hsurvives ↦ ?_) id
    have hline : [.fixed c.authenticator, .fixed "null", .fixed ":", .stored c.proxyPort] ∈
        networkSettings device random.bridge (c.storeIn prefs) := by
      simp [hnetwork, ProxyConfig.lines, ProxyConfig.authenticator, proxyCredentials, huser, hpass]
    exact hsurvives.noUser huser _ hline (List.prefix_append _ _)
  · next hpass =>
    refine iff_of_true ⟨server_written hlines, ?_, ?_, ?_⟩ trivial
    · intro user _ pass hpass'
      simp [hpass] at hpass'
    · rintro ⟨-, hsome⟩
      simp [hpass] at hsome
    · intro _ line hline
      rw [hnetwork] at hline
      exact not_startsWith_authenticator hpass hline

end Survival

def socksProxy : ProxyConfig := ⟨"Socks5", "proxy.example", "1080", some "user", some "secret"⟩

def httpsProxy : ProxyConfig := ⟨"HTTPS", "proxy.example", "8080", some "user", some "secret"⟩

theorem valid_of_words {c : ProxyConfig} {user pass : String} (huser : c.proxyUser = some user)
    (hpass : c.proxyPass = some pass) (htype : c.proxyType ≠ "")
    (hwords : ∀ text ∈ [c.proxyHost, c.proxyPort, user, pass], IsWord text)
    (hcolon : ':' ∉ user.toList ∧ ':' ∉ pass.toList) : c.Valid where
  proxyType := htype
  proxyHost := hwords _ (by simp)
  proxyPort := hwords _ (by simp)
  proxyUser := by
    intro other hother
    obtain rfl : user = other := by simpa [huser] using hother
    exact ⟨hwords _ (by simp), hcolon.1⟩
  proxyPass := by
    intro other hother
    obtain rfl : pass = other := by simpa [hpass] using hother
    exact ⟨hwords _ (by simp), hcolon.2⟩

theorem socksProxy_survives :
    ∃ lines tables', processSettingsImpl plainDevice firstChoice (socksProxy.storeIn {}) noTables =
        some (lines, tables') ∧
      ProxySurvives plainDevice firstChoice {} noTables socksProxy lines :=
  ⟨_, _, rfl, (proxySurvives_iff rfl rfl (valid_of_words rfl rfl (by decide) (by decide)
    (by decide)) rfl).mpr ⟨by decide, by decide, by decide⟩⟩

/-- The password for an HTTPS proxy is in no line. -/
theorem httpsProxy_lost :
    httpsProxy.Valid ∧ ∃ lines tables',
      processSettingsImpl plainDevice firstChoice (httpsProxy.storeIn {}) noTables =
        some (lines, tables') ∧
      ¬ ProxySurvives plainDevice firstChoice {} noTables httpsProxy lines := by
  have hvalid : httpsProxy.Valid := valid_of_words rfl rfl (by decide) (by decide) (by decide)
  refine ⟨hvalid, _, _, rfl, fun h ↦ ?_⟩
  have hsame := (determined_iff rfl rfl hvalid rfl _).mp (h.determined ⟨rfl, rfl⟩)
  exact absurd ((determined_complete_iff hvalid rfl rfl).mp hsame).1 (by decide)

end Orbot.Service
