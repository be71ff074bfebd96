import Orbot.OnionService.Names
import Orbot.Service.Settings

/-!
# The stored texts in the torrc

Which stored texts `processSettingsImpl` writes depends on the switches and on what is empty. The
lines are clean if and only if these texts have no line feed: the directories of the services, the
built-in bridges and the lines of a custom list never have one.
-/

namespace Orbot.Service

open Orbot.Foundation Orbot.OnionService

/-! ## The texts that are written -/

/-- The credentials for the outgoing proxy; the password is written for SOCKS 5 only. -/
def credentialTexts (proxyType : String) (proxyUser proxyPass : Option String) : List String :=
  match proxyUser, proxyPass with
  | some user, some pass => if equalsIgnoreCase proxyType "socks5" then [user, pass] else [user]
  | none, _ | _, none => []

def proxyTexts (prefs : Preferences) : List String :=
  match prefs.proxyType, prefs.proxyHost, prefs.proxyPort with
  | some proxyType, some proxyHost, some proxyPort =>
      if proxyType ≠ "" ∧ proxyHost ≠ "" ∧ proxyPort ≠ "" then
        proxyHost :: proxyPort ::
          credentialTexts proxyType prefs.proxyUsername prefs.proxyPassword
      else []
  | _, _, _ => []

def nodeTexts (prefs : Preferences) : List String :=
  [prefs.entranceNodes.getD "", prefs.exitNodes.getD "", prefs.excludeNodes.getD ""]

def addressTexts (prefs : Preferences) : List String :=
  if prefs.limitsAddresses then [prefs.reachableAddressesPorts.getD "*:80,*:443"] else []

def relayTexts (farsi : Bool) (prefs : Preferences) : List String :=
  if prefs.relays ∧ ¬ Prefs.bridgesEnabled farsi prefs ∧ ¬ prefs.limitsAddresses then
    [prefs.orNickname.getD "Orbot"]
  else []

/-- The names of the v2 services that authorize a client. -/
def clientNames (services : ServiceTable) : List String :=
  (services.rows.filter fun row ↦ isEnabled row && row.columns.authCookie == 1).map
    fun row ↦ row.columns.name

def cookieTexts (cookies : CookieTable) : List String :=
  (cookies.rows.filter fun row ↦ row.columns.enabled == 1).flatMap fun row ↦
    [row.columns.domain.getD "null", row.columns.authCookieValue.getD "null"]

/-- The texts that the user, a backup, a scanned code or another app has chosen. -/
def writtenTexts (farsi : Bool) (prefs : Preferences) (tables : Tables) : List String :=
  (if Prefs.bridgesEnabled farsi prefs ∨ Prefs.useVpn prefs then [] else proxyTexts prefs) ++
    nodeTexts prefs ++ addressTexts prefs ++ relayTexts farsi prefs ++
    if Prefs.hostOnionServicesEnabled prefs then
      clientNames tables.v2Services ++ cookieTexts tables.cookies
    else []

/-- No text has a line feed. -/
def SingleLines (texts : List String) : Prop := ∀ text ∈ texts, '\n' ∉ text.toList

instance (texts : List String) : Decidable (SingleLines texts) :=
  inferInstanceAs (Decidable (∀ text ∈ texts, _))

@[simp]
theorem singleLines_nil : SingleLines [] := by simp [SingleLines]

@[simp]
theorem singleLines_cons {text : String} {texts : List String} :
    SingleLines (text :: texts) ↔ '\n' ∉ text.toList ∧ SingleLines texts := by
  simp [SingleLines]

@[simp]
theorem singleLines_append {texts others : List String} :
    SingleLines (texts ++ others) ↔ SingleLines texts ∧ SingleLines others := by
  simp [SingleLines, or_imp, forall_and]

/-- The lines are clean. -/
def CleanLines (lines : List Directive) : Prop := ∀ line ∈ lines, line.Clean

@[simp]
theorem cleanLines_nil : CleanLines [] := by simp [CleanLines]

@[simp]
theorem cleanLines_cons {line : Directive} {lines : List Directive} :
    CleanLines (line :: lines) ↔ line.Clean ∧ CleanLines lines := by
  simp [CleanLines]

@[simp]
theorem cleanLines_append {lines others : List Directive} :
    CleanLines (lines ++ others) ↔ CleanLines lines ∧ CleanLines others := by
  simp [CleanLines, or_imp, forall_and]

@[simp]
theorem clean_fixedLine (text : String) : (fixedLine text).Clean := by simp [fixedLine]

@[simp]
theorem clean_storedLine {keyword value : String} :
    (storedLine keyword value).Clean ↔ '\n' ∉ value.toList := by simp [storedLine]

/-! ## Bridges and proxies -/

theorem cleanLines_pluginLines (ports : IPtProxy) (bridgeList : String) :
    CleanLines (pluginLines ports bridgeList) := by
  unfold pluginLines
  split_ifs <;> simp [clientTransportPlugin]

/-- The part about bridges is clean for every bridge list. -/
theorem cleanLines_bridgeSettings (ports : IPtProxy) (choice : BridgeChoice)
    (resource bridgeList : String) :
    CleanLines (bridgeSettings ports choice resource bridgeList) := by
  have hbridges : CleanLines (bridgeLines choice (loadBridgeDefaults resource) bridgeList) := by
    unfold bridgeLines
    split
    · intro line hline
      obtain ⟨b, hb, rfl⟩ := List.mem_map.mp hline
      have hdefault := (choice.perm _).subset (getBridges_mem hb).1
      simpa [Bridge.directive] using lineFeed_not_mem_config hdefault
    · intro line hline
      obtain ⟨bridgeLine, hchosen, rfl⟩ :=
        Option.map_eq_some_iff.mp (Option.mem_toList.mp hline)
      simpa [customBridge] using lineFeed_not_mem_chosen hchosen
  simp [bridgeSettings, cleanLines_pluginLines, hbridges]

theorem cleanLines_proxyCredentials {proxyType proxyPort : String}
    (hport : '\n' ∉ proxyPort.toList) (proxyUser proxyPass : Option String) :
    CleanLines (proxyCredentials proxyType proxyPort proxyUser proxyPass) ↔
      SingleLines (credentialTexts proxyType proxyUser proxyPass) := by
  cases proxyUser with
  | none => cases proxyPass <;> simp [proxyCredentials, credentialTexts, hport]
  | some user =>
    cases proxyPass with
    | none => simp [proxyCredentials, credentialTexts]
    | some pass =>
      simp only [proxyCredentials, credentialTexts]
      split <;> simp [hport]

theorem cleanLines_proxyServer (prefs : Preferences) :
    CleanLines (proxyServer prefs) ↔ SingleLines (proxyTexts prefs) := by
  unfold proxyServer proxyTexts
  cases prefs.proxyType with
  | none => simp
  | some proxyType =>
    cases prefs.proxyHost with
    | none => simp
    | some proxyHost =>
      cases prefs.proxyPort with
      | none => simp
      | some proxyPort =>
        by_cases hset : proxyType ≠ "" ∧ proxyHost ≠ "" ∧ proxyPort ≠ ""
        · simp only [if_pos hset, cleanLines_cons, singleLines_cons, Directive.clean_fixed,
            Directive.clean_stored, Directive.clean_nil, and_true, and_assoc]
          refine and_congr_right fun _ ↦ and_congr_right fun hport ↦ ?_
          exact cleanLines_proxyCredentials hport prefs.proxyUsername prefs.proxyPassword
        · simp [if_neg hset]

theorem cleanLines_networkSettings (device : Device) (choice : BridgeChoice)
    (prefs : Preferences) :
    CleanLines (networkSettings device choice prefs) ↔
      SingleLines (if Prefs.bridgesEnabled device.farsi prefs ∨ Prefs.useVpn prefs then []
        else proxyTexts prefs) := by
  unfold networkSettings proxySettings
  cases hbridges : Prefs.bridgesEnabled device.farsi prefs with
  | true => simp [cleanLines_bridgeSettings]
  | false =>
    cases hvpn : Prefs.useVpn prefs with
    | true =>
      simp only [Bool.false_eq_true, if_false, if_true, cleanLines_cons, or_true]
      split <;> simp
    | false => simp [cleanLines_proxyServer]

/-! ## Nodes, addresses and the relay -/

theorem cleanLines_geoIPSettings (device : Device) : CleanLines (geoIPSettings device) := by
  unfold geoIPSettings
  split <;> simp

theorem cleanLines_nodesLine (keyword : String) (nodes : Option String) :
    CleanLines (nodesLine keyword nodes) ↔ '\n' ∉ (nodes.getD "").toList := by
  unfold nodesLine
  split
  · next hempty => simp [hempty]
  · simp

theorem cleanLines_nodeSettings (prefs : Preferences) :
    CleanLines (nodeSettings prefs) ↔ SingleLines (nodeTexts prefs) := by
  simp [nodeSettings, nodeTexts, cleanLines_nodesLine]

theorem cleanLines_addressSettings (prefs : Preferences) :
    CleanLines (addressSettings prefs) ↔ SingleLines (addressTexts prefs) := by
  unfold addressSettings addressTexts
  split <;> simp

theorem cleanLines_relaySettings {device : Device} {prefs : Preferences} {relay : List Directive}
    (h : relaySettings device prefs = some relay) :
    CleanLines relay ↔ SingleLines (relayTexts device.farsi prefs) := by
  unfold relaySettings at h
  unfold relayTexts
  split at h
  · next hrelays =>
    rw [if_pos hrelays]
    cases hport : parseInt (prefs.orPort.getD "9001") with
    | none => simp [hport] at h
    | some orPort =>
      simp only [hport] at h
      split at h
      · obtain rfl := Option.some_inj.mp h
        simp
      · simp at h
  · next hrelays =>
    rw [if_neg hrelays]
    obtain rfl := Option.some_inj.mp h
    simp

/-! ## Services and cookies -/

/-- The name of a listed directory is a single line. -/
theorem lineFeed_not_mem_listedPath {v : Version} {t : ServiceTable} (h : WellNamed v t)
    (randomUUID : ℕ → Uuid) {row : Row} (hrow : row ∈ t.rows) :
    IsServiceName v row.columns.port (listedPath v randomUUID row) ∧
      '\n' ∉ (listedPath v randomUUID row).toList := by
  have hname : IsServiceName v row.columns.port (listedPath v randomUUID row) := by
    unfold listedPath
    cases hpath : row.columns.filepath with
    | some path => exact h row hrow path hpath
    | none =>
      rw [Option.getD_none, newPath]
      split
      · exact .inl ⟨_, rfl⟩
      · exact .inr rfl
  refine ⟨hname, ?_⟩
  have hstart : '\n' ∉ v.dirPrefix.toList := by cases v <;> decide
  rcases hname with ⟨uuid, huuid⟩ | hport
  · rw [huuid, Version.uuidDir, String.toList_append, List.mem_append, not_or]
    exact ⟨hstart, uuid.not_mem (by decide)⟩
  · rw [hport, Version.portDir, String.toList_append, List.mem_append, not_or]
    exact ⟨hstart, not_mem_decimal row.columns.port (by decide)⟩

/-- The directory of a listed service is a single line. -/
theorem lineFeed_not_mem_dir {v : Version} {t : ServiceTable} (h : WellNamed v t)
    (device : Device) (randomUUID : ℕ → Uuid) {row : Row} (hrow : row ∈ t.rows) :
    '\n' ∉ (pathText (hiddenService v (v.base device.filesDir) row
      (listedPath v randomUUID row)).dir).toList := by
  obtain ⟨hname, hsingle⟩ := lineFeed_not_mem_listedPath h randomUUID hrow
  have hdir : (hiddenService v (v.base device.filesDir) row (listedPath v randomUUID row)).dir =
      (device.filesDir ++ [v.servicesDir]) ++ [listedPath v randomUUID row] :=
    hname.serviceDir (v.base device.filesDir)
  have hbase : '\n' ∉ v.servicesDir.toList := by cases v <;> decide
  rw [hdir, pathText_append_singleton, pathText_append_singleton]
  simp only [String.toList_append, List.mem_append, not_or]
  exact ⟨⟨device.lineFeed_not_mem, by decide, hbase⟩, by decide, hsingle⟩

theorem cleanLines_serviceDirectives (service : HiddenService) :
    CleanLines (serviceDirectives service) ↔
      '\n' ∉ (pathText service.dir).toList ∧
        ∀ client ∈ service.authorizedClient, '\n' ∉ client.toList := by
  unfold serviceDirectives
  cases service.authorizedClient <;> simp

theorem cleanLines_flatMap {α : Type*} {items : List α} {lines : α → List Directive} :
    CleanLines (items.flatMap lines) ↔ ∀ item ∈ items, CleanLines (lines item) := by
  unfold CleanLines
  constructor
  · intro h item hitem line hline
    exact h line (List.mem_flatMap.mpr ⟨item, hitem, hline⟩)
  · intro h line hline
    obtain ⟨item, hitem, hline⟩ := List.mem_flatMap.mp hline
    exact h item hitem line hline

/-- The services of a generation are clean if and only if the names of their clients are. -/
theorem cleanLines_services {v : Version} {t : ServiceTable} (h : WellNamed v t)
    (device : Device) (randomUUID : ℕ → Uuid) :
    CleanLines ((addServicesToTorrc v (v.base device.filesDir) randomUUID t).2.flatMap
        serviceDirectives) ↔
      (v = .v2 → SingleLines (clientNames t)) := by
  rw [services_addServicesToTorrc, cleanLines_flatMap, List.forall_mem_map]
  simp only [cleanLines_serviceDirectives]
  constructor
  · intro hall hv text htext
    obtain ⟨row, hrow, rfl⟩ := List.mem_map.mp htext
    obtain ⟨hmem, hlisted⟩ := List.mem_filter.mp hrow
    rw [Bool.and_eq_true, beq_iff_eq] at hlisted
    refine (hall row (List.mem_filter.mpr ⟨hmem, hlisted.1⟩)).2 _ ?_
    simp [hiddenService, hv, hlisted.2]
  · intro hclients row hrow
    obtain ⟨hmem, henabled⟩ := List.mem_filter.mp hrow
    refine ⟨lineFeed_not_mem_dir h device randomUUID hmem, fun client hclient ↦ ?_⟩
    by_cases hauthorizes : v = .v2 ∧ row.columns.authCookie = 1
    · obtain rfl : row.columns.name = client := by simpa [hiddenService, hauthorizes] using hclient
      refine hclients hauthorizes.1 _ (List.mem_map.mpr ⟨row, ?_, rfl⟩)
      exact List.mem_filter.mpr ⟨hmem, by simp [henabled, hauthorizes.2]⟩
    · simp [hiddenService, hauthorizes] at hclient

theorem cleanLines_cookies (cookies : CookieTable) :
    CleanLines (addV2ClientCookiesToTorrc cookies) ↔ SingleLines (cookieTexts cookies) := by
  unfold addV2ClientCookiesToTorrc cookieTexts
  induction cookies.rows.filter fun row ↦ row.columns.enabled == 1 with
  | nil => simp
  | cons row rest ih =>
    rw [List.map_cons, cleanLines_cons, ih, List.flatMap_cons, singleLines_append]
    simp [and_assoc]

/-- Tables with the directory names that the app gives. -/
structure Tables.WellNamed (tables : Tables) : Prop where
  v3 : OnionService.WellNamed .v3 tables.v3Services
  v2 : OnionService.WellNamed .v2 tables.v2Services

theorem cleanLines_onionSettings {tables : Tables} (h : tables.WellNamed) (device : Device)
    (random : RandomChoice) :
    CleanLines (onionSettings device random tables).1 ↔
      SingleLines (clientNames tables.v2Services ++ cookieTexts tables.cookies) := by
  have hv3 := cleanLines_services h.v3 device random.v3Uuid
  have hv2 := cleanLines_services h.v2 device random.v2Uuid
  simp only [reduceCtorEq, false_implies, iff_true, forall_const] at hv3 hv2
  simp [onionSettings, addV3OnionServicesToTorrc, addV2HiddenServicesToTorrc,
    addV3ClientAuthToTorrc, hv3, hv2, cleanLines_cookies]

/-- The settings are clean if and only if the stored texts that they write are single lines. -/
theorem cleanLines_processSettingsImpl {tables : Tables} (h : tables.WellNamed) {device : Device}
    {random : RandomChoice} {prefs : Preferences} {lines : List Directive} {tables' : Tables}
    (hlines : processSettingsImpl device random prefs tables = some (lines, tables')) :
    CleanLines lines ↔ SingleLines (writtenTexts device.farsi prefs tables) := by
  obtain ⟨relay, hrelay, hresult⟩ := Option.map_eq_some_iff.mp hlines
  obtain rfl := congrArg Prod.fst hresult
  have honion : CleanLines (if Prefs.hostOnionServicesEnabled prefs then
      onionSettings device random tables else ([], tables)).1 ↔
        SingleLines (if Prefs.hostOnionServicesEnabled prefs then
          clientNames tables.v2Services ++ cookieTexts tables.cookies else []) := by
    cases Prefs.hostOnionServicesEnabled prefs with
    | true => exact cleanLines_onionSettings h device random
    | false => simp
  simp only [localSettings, writtenTexts, cleanLines_append, singleLines_append,
    cleanLines_networkSettings, cleanLines_geoIPSettings, cleanLines_nodeSettings,
    cleanLines_addressSettings, cleanLines_relaySettings hrelay, honion, true_and, and_assoc]

end Orbot.Service
