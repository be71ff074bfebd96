import Orbot.OnionService.Hostnames
import Orbot.Service.Settings

/-!
# The torrc file

`OrbotService.updateTorrcCustomFile` writes the ports, the padding and the logging, then what
`processSettingsImpl` appends, then the text of the user. A port that something on the device
listens at is replaced by the next free one. A second generation from the tables that the first one
left gives the same text, and so does one from the preferences with their defaults filled in.
-/

namespace Orbot.Service

open Orbot.Foundation Orbot.OnionService

/-- The entries that `updateTorrcCustomFile` reads by itself, with those of the settings. -/
structure TorrcPreferences extends Preferences where
  socks : Option String := none
  http : Option String := none
  isolateDest : Option Bool := none
  preferIpv6 : Option Bool := none
  disableIpv4 : Option Bool := none
  openProxyOnAllInterfaces : Option Bool := none
  connectionPadding : Option Bool := none
  reducedConnectionPadding : Option Bool := none
  circuitPadding : Option Bool := none
  reducedCircuitPadding : Option Bool := none
  transport : Option String := none
  dnsport : Option String := none
  enableLogging : Option Bool := none
  customTorrc : Option String := none
  deriving DecidableEq

/-! ## Ports -/

/-- The loop of `checkPortOrAuto`. The number counts the ports from this one on; a number past the
last port is taken as it is, since nothing can listen there. -/
def nextFreePort (isPortOpen : ℕ → Bool) : ℕ → ℕ → ℕ
  | 0, port => port
  | ports + 1, port =>
      if isPortOpen port then nextFreePort isPortOpen ports (port + 1) else port

/-- `checkPortOrAuto`, with none for the exception about a text that is no number. -/
def checkPortOrAuto (isPortOpen : ℕ → Bool) (portString : String) : Option String :=
  if equalsIgnoreCase portString "auto" then some portString
  else
    (parseInt portString).map fun port ↦
      if port.toInt < 0 then decimal port
      else toString (nextFreePort isPortOpen (65536 - port.toInt.toNat) port.toInt.toNat)

/-- The port after an address; none for the exception when nothing follows the colon. -/
def portAfterAddress (pref : String) : Option String :=
  if ':' ∈ pref.toList then (split ':' pref)[1]? else some pref

/-- The texts of the four ports, each next to a free port of the device. -/
structure PortTexts where
  socksPort : String
  httpPort : String
  transPort : String
  dnsPort : String
  deriving DecidableEq

def portTexts (isPortOpen : ℕ → Bool) (prefs : TorrcPreferences) : Option PortTexts :=
  ((portAfterAddress (prefs.socks.getD "9050")).bind (checkPortOrAuto isPortOpen)).bind fun socks ↦
    ((portAfterAddress (prefs.http.getD "8118")).bind (checkPortOrAuto isPortOpen)).bind fun http ↦
      (checkPortOrAuto isPortOpen (prefs.transport.getD "9040")).bind fun trans ↦
        (checkPortOrAuto isPortOpen (prefs.dnsport.getD "5400")).map fun dns ↦
          ⟨socks, http, trans, dns⟩

/-! ## The text -/

/-- A line that is there only when a switch is on. -/
def switchedLine (enabled : Bool) (line : String) : List Directive :=
  if enabled then [fixedLine line] else []

/-- The flags after the SOCKS port. -/
def socksFlags (prefs : TorrcPreferences) : String :=
  (if prefs.isolateDest.getD false then " IsolateDestAddr " else "") ++
    (if prefs.preferIpv6.getD true then " IPv6Traffic PreferIPv6 " else "") ++
    (if prefs.disableIpv4.getD false then " IPv6Traffic NoIPv4Traffic " else "")

/-- The lines before those of `processSettingsImpl`. -/
def portSettings (ports : PortTexts) (prefs : TorrcPreferences) : List Directive :=
  [fixedLine "RunAsDaemon 0", fixedLine "AvoidDiskWrites 0",
    fixedLine ("SOCKSPort " ++ ports.socksPort ++ socksFlags prefs),
    fixedLine "SafeSocks 0", fixedLine "TestSocks 0"] ++
  switchedLine (prefs.openProxyOnAllInterfaces.getD false) "SocksListenAddress 0.0.0.0" ++
  [fixedLine ("HTTPTunnelPort " ++ ports.httpPort)] ++
  switchedLine (prefs.connectionPadding.getD false) "ConnectionPadding 1" ++
  switchedLine (prefs.reducedConnectionPadding.getD true) "ReducedConnectionPadding 1" ++
  [fixedLine (if prefs.circuitPadding.getD true then "CircuitPadding 1" else "CircuitPadding 0")] ++
  switchedLine (prefs.reducedCircuitPadding.getD true) "ReducedCircuitPadding 1" ++
  [fixedLine ("TransPort " ++ ports.transPort), fixedLine ("DNSPort " ++ ports.dnsPort),
    fixedLine "VirtualAddrNetwork 10.192.0.0/10", fixedLine "AutomapHostsOnResolve 1",
    fixedLine "DormantClientTimeout 10 minutes", fixedLine "DormantCanceledByStartup 1",
    fixedLine "DisableNetwork 0"] ++
  if prefs.enableLogging.getD false then
    [fixedLine "Log debug syslog", fixedLine "SafeLogging 0"]
  else []

def torrcText (lines : List Directive) (customTorrc : Option String) : String :=
  "\n" ++ directivesText lines ++ "\n" ++ customTorrc.getD "" ++ "\n"

/-- What one generation finds on the device and draws. -/
structure TorrcChoice where
  isPortOpen : ℕ → Bool
  random : RandomChoice

/-- `updateTorrcCustomFile`: the text of the file and the tables; none when it throws, and for
`null`. -/
def updateTorrcCustomFile (device : Device) (choice : TorrcChoice) (prefs : TorrcPreferences)
    (tables : Tables) : Option (String × Tables) :=
  (portTexts choice.isPortOpen prefs).bind fun ports ↦
    (processSettingsImpl device choice.random prefs.toPreferences tables).map fun settings ↦
      (torrcText (portSettings ports prefs ++ settings.1) prefs.customTorrc, settings.2)

/-! ## A second generation -/

section Regeneration

variable {v : Version} {base : Path} {randomUUID : ℕ → Uuid}

/-- The services in the order of the rows. -/
def listedServices (v : Version) (base : Path) (randomUUID : ℕ → Uuid) (rows : List Row) :
    List HiddenService :=
  (rows.filter isEnabled).map fun row ↦ hiddenService v base row (listedPath v randomUUID row)

/-- A row that stays enabled with the name it is listed under is listed in the same way. -/
theorem listedServices_cons_congr {row row' : Row} {rows rows' : List Row}
    (henabled : isEnabled row' = isEnabled row)
    (hlisted : hiddenService v base row' (listedPath v randomUUID row') =
      hiddenService v base row (listedPath v randomUUID row))
    (hrest : listedServices v base randomUUID rows' = listedServices v base randomUUID rows) :
    listedServices v base randomUUID (row' :: rows') =
      listedServices v base randomUUID (row :: rows) := by
  unfold listedServices at hrest ⊢
  rw [List.filter_cons, List.filter_cons, henabled]
  split
  · rw [List.map_cons, List.map_cons, hlisted, hrest]
  · exact hrest

theorem listedServices_assignPath (rows : List Row) :
    listedServices v base randomUUID (rows.map (assignPath v randomUUID)) =
      listedServices v base randomUUID rows := by
  induction rows with
  | nil => rfl
  | cons row rest ih =>
    rw [List.map_cons]
    by_cases hassigned : isEnabled row ∧ row.columns.filepath = none
    · have hrow : assignPath v randomUUID row = { row with columns :=
          { row.columns with
            filepath := some (newPath v (randomUUID row.id) row.columns) } } := if_pos hassigned
      apply listedServices_cons_congr _ _ ih
      · rw [hrow]
        rfl
      · rw [hrow]
        simp [hiddenService, listedPath, hassigned.2]
    · have hrow : assignPath v randomUUID row = row := if_neg hassigned
      exact listedServices_cons_congr (by rw [hrow]) (by rw [hrow]) ih

/-- The values of a refreshed row, which has a directory name: an address and maybe a cookie. -/
def SetsNames (step : Row → NameUpdate) : Prop :=
  ∀ row values, step row = .set values → row.columns.filepath.isSome ∧
    ∃ domain cookie, values = { domain := domain, authCookieValue := cookie }

theorem listedServices_namedRows {step : Row → NameUpdate} (hstep : SetsNames step)
    (rows : List Row) :
    listedServices v base randomUUID (namedRows step rows) =
      listedServices v base randomUUID rows := by
  induction rows with
  | nil => rfl
  | cons row rest ih =>
    rw [namedRows]
    split
    · exact listedServices_cons_congr rfl rfl ih
    · next values hset =>
      obtain ⟨hpath, domain, cookie, rfl⟩ := hstep row values hset
      obtain ⟨path, hpath⟩ := Option.isSome_iff_exists.mp hpath
      apply listedServices_cons_congr _ _ ih
      · rfl
      · simp [hiddenService, listedPath, ContentValues.apply, hpath]
    · rfl

theorem services_regenerate (t : ServiceTable) :
    (addServicesToTorrc v base randomUUID (addServicesToTorrc v base randomUUID t).1).2 =
      (addServicesToTorrc v base randomUUID t).2 := by
  rw [services_addServicesToTorrc, services_addServicesToTorrc, rows_addServicesToTorrc]
  exact listedServices_assignPath t.rows

theorem services_updateNames {step : Row → NameUpdate} (hstep : SetsNames step)
    (t : ServiceTable) :
    (addServicesToTorrc v base randomUUID (updateNames step t.rows t)).2 =
      (addServicesToTorrc v base randomUUID t).2 := by
  rw [services_addServicesToTorrc, services_addServicesToTorrc,
    rows_updateNames step [] t.rows t rfl]
  exact listedServices_namedRows hstep t.rows

end Regeneration

theorem setsNames_v3NameUpdate (P : Platform) (base : Path) (d : Disk Bytes) :
    SetsNames (v3NameUpdate P base d) := by
  intro row values hset
  obtain ⟨path, content, -, hpath, -, rfl⟩ := v3NameUpdate_eq_set hset
  exact ⟨by rw [hpath]; rfl, _, none, rfl⟩

theorem setsNames_v2NameUpdate (P : Platform) (base : Path) (d : Disk Bytes) :
    SetsNames (v2NameUpdate P base d) := by
  intro row values hset
  obtain ⟨hpath, address, cookie, rfl⟩ := v2NameUpdate_eq_set hset
  exact ⟨hpath, some address, cookie, rfl⟩

/-- The refresh of the names of one kind of services after a start. -/
def updateTableNames (P : Platform) (device : Device) (d : Disk Bytes) (tables : Tables) :
    Version → Tables
  | .v2 =>
      { tables with
        v2Services := (updateLegacyV2OnionNames P (Version.v2.base device.filesDir)
          ⟨tables.v2Services, d⟩).table }
  | .v3 =>
      { tables with
        v3Services := (updateV3OnionNames P (Version.v3.base device.filesDir)
          ⟨tables.v3Services, d⟩).table }

theorem onionSettings_regenerate (device : Device) (random : RandomChoice) (tables : Tables) :
    (onionSettings device random (onionSettings device random tables).2).1 =
      (onionSettings device random tables).1 := by
  simp only [onionSettings, addV3OnionServicesToTorrc, addV2HiddenServicesToTorrc,
    services_regenerate]

theorem onionSettings_updateTableNames (P : Platform) (device : Device) (d : Disk Bytes)
    (random : RandomChoice) (tables : Tables) (v : Version) :
    (onionSettings device random (updateTableNames P device d tables v)).1 =
      (onionSettings device random tables).1 := by
  cases v with
  | v2 =>
    simp only [onionSettings, updateTableNames, updateLegacyV2OnionNames,
      addV2HiddenServicesToTorrc, services_updateNames (setsNames_v2NameUpdate P _ d)]
  | v3 =>
    simp only [onionSettings, updateTableNames, updateV3OnionNames, addV3OnionServicesToTorrc,
      services_updateNames (setsNames_v3NameUpdate P _ d)]

section Text

variable {device : Device} {choice : TorrcChoice} {prefs : TorrcPreferences} {tables : Tables}

/-- The text depends on the tables only through the lines about onion services. -/
theorem updateTorrcCustomFile_text {tables' : Tables}
    (h : (onionSettings device choice.random tables').1 =
      (onionSettings device choice.random tables).1) :
    (updateTorrcCustomFile device choice prefs tables').map Prod.fst =
      (updateTorrcCustomFile device choice prefs tables).map Prod.fst := by
  have hlocal (relay : List Directive) :
      (localSettings device choice.random prefs.toPreferences tables' relay).1 =
        (localSettings device choice.random prefs.toPreferences tables relay).1 := by
    simp only [localSettings]
    split
    · rw [h]
    · rfl
  unfold updateTorrcCustomFile processSettingsImpl
  cases portTexts choice.isPortOpen prefs with
  | none => rfl
  | some ports =>
    cases relaySettings device prefs.toPreferences with
    | none => rfl
    | some relay => simp [hlocal]

/-- A generation leaves the tables, or gives the services their directories. -/
theorem updateTorrcCustomFile_tables {text : String} {tables' : Tables}
    (h : updateTorrcCustomFile device choice prefs tables = some (text, tables')) :
    tables' = tables ∨ tables' = (onionSettings device choice.random tables).2 := by
  unfold updateTorrcCustomFile processSettingsImpl at h
  obtain ⟨ports, -, hsettings⟩ := Option.bind_eq_some_iff.mp h
  obtain ⟨settings, hrelay, hfile⟩ := Option.map_eq_some_iff.mp hsettings
  obtain ⟨relay, -, rfl⟩ := Option.map_eq_some_iff.mp hrelay
  rw [← (Prod.mk.inj hfile).2]
  simp only [localSettings]
  split
  · exact .inr rfl
  · exact .inl rfl

/-- Generating the file again from the tables that are left gives the same text. -/
theorem updateTorrcCustomFile_again {text : String} {tables' : Tables}
    (h : updateTorrcCustomFile device choice prefs tables = some (text, tables')) :
    (updateTorrcCustomFile device choice prefs tables').map Prod.fst = some text := by
  have hsame : (onionSettings device choice.random tables').1 =
      (onionSettings device choice.random tables).1 := by
    rcases updateTorrcCustomFile_tables h with rfl | rfl
    · rfl
    · exact onionSettings_regenerate device choice.random tables
  rw [updateTorrcCustomFile_text hsame, h]
  rfl

end Text

/-! ## The preferences that count -/

/-- An outgoing proxy is set up only without bridges and without the VPN. -/
def usesProxy (device : Device) (prefs : Preferences) : Bool :=
  !Prefs.bridgesEnabled device.farsi prefs && !Prefs.useVpn prefs

/-- A relay runs only without bridges and with all addresses. -/
def runsRelay (device : Device) (prefs : Preferences) : Bool :=
  prefs.relays && !Prefs.bridgesEnabled device.farsi prefs && !prefs.limitsAddresses

/-- The preferences with their defaults filled in, and nothing where no value is read. -/
def Preferences.effective (device : Device) (prefs : Preferences) : Preferences where
  bridgesEnabled := some (Prefs.bridgesEnabled device.farsi prefs)
  bridgesList :=
    if Prefs.bridgesEnabled device.farsi prefs then some (Prefs.getBridgesList device.farsi prefs)
    else none
  useVpn :=
    if Prefs.bridgesEnabled device.farsi prefs then none else some (Prefs.useVpn prefs)
  hostOnionServices := some (Prefs.hostOnionServicesEnabled prefs)
  proxyType := if usesProxy device prefs then prefs.proxyType else none
  proxyHost := if usesProxy device prefs then prefs.proxyHost else none
  proxyPort := if usesProxy device prefs then prefs.proxyPort else none
  proxyUsername := if usesProxy device prefs then prefs.proxyUsername else none
  proxyPassword := if usesProxy device prefs then prefs.proxyPassword else none
  entranceNodes := some (prefs.entranceNodes.getD "")
  exitNodes := some (prefs.exitNodes.getD "")
  excludeNodes := some (prefs.excludeNodes.getD "")
  strictNodes := some prefs.enableStrictNodes
  reachableAddresses := some prefs.limitsAddresses
  reachableAddressesPorts :=
    if prefs.limitsAddresses then some (prefs.reachableAddressesPorts.getD "*:80,*:443") else none
  becomeRelay := some (runsRelay device prefs)
  orPort := if runsRelay device prefs then some (prefs.orPort.getD "9001") else none
  orNickname := if runsRelay device prefs then some (prefs.orNickname.getD "Orbot") else none

def TorrcPreferences.effective (device : Device) (prefs : TorrcPreferences) :
    TorrcPreferences where
  toPreferences := prefs.toPreferences.effective device
  socks := some (prefs.socks.getD "9050")
  http := some (prefs.http.getD "8118")
  isolateDest := some (prefs.isolateDest.getD false)
  preferIpv6 := some (prefs.preferIpv6.getD true)
  disableIpv4 := some (prefs.disableIpv4.getD false)
  openProxyOnAllInterfaces := some (prefs.openProxyOnAllInterfaces.getD false)
  connectionPadding := some (prefs.connectionPadding.getD false)
  reducedConnectionPadding := some (prefs.reducedConnectionPadding.getD true)
  circuitPadding := some (prefs.circuitPadding.getD true)
  reducedCircuitPadding := some (prefs.reducedCircuitPadding.getD true)
  transport := some (prefs.transport.getD "9040")
  dnsport := some (prefs.dnsport.getD "5400")
  enableLogging := some (prefs.enableLogging.getD false)
  customTorrc := some (prefs.customTorrc.getD "")

section Effective

variable (device : Device) (prefs : Preferences)

theorem bridgesEnabled_effective :
    Prefs.bridgesEnabled device.farsi (prefs.effective device) =
      Prefs.bridgesEnabled device.farsi prefs := rfl

theorem limitsAddresses_effective :
    (prefs.effective device).limitsAddresses = prefs.limitsAddresses := rfl

theorem networkSettings_effective (choice : BridgeChoice) :
    networkSettings device choice (prefs.effective device) =
      networkSettings device choice prefs := by
  unfold networkSettings
  rw [bridgesEnabled_effective]
  split
  · next hbridges =>
    have hlist : Prefs.getBridgesList device.farsi (prefs.effective device) =
        Prefs.getBridgesList device.farsi prefs := by
      simp [Prefs.getBridgesList, Preferences.effective, hbridges]
    rw [hlist]
  · next hbridges =>
    have hvpn : Prefs.useVpn (prefs.effective device) = Prefs.useVpn prefs := by
      simp [Prefs.useVpn, Preferences.effective, hbridges]
    unfold proxySettings
    rw [hvpn]
    split
    · rfl
    · next huse =>
      have huses : usesProxy device prefs = true := by simp [usesProxy, hbridges, huse]
      simp [proxyServer, Preferences.effective, huses]

theorem relaySettings_effective :
    relaySettings device (prefs.effective device) = relaySettings device prefs := by
  have hruns : (prefs.effective device).relays = runsRelay device prefs := rfl
  unfold relaySettings
  rw [bridgesEnabled_effective, limitsAddresses_effective, hruns]
  by_cases hrelay : prefs.relays ∧ ¬ Prefs.bridgesEnabled device.farsi prefs ∧
      ¬ prefs.limitsAddresses
  · have htrue : runsRelay device prefs = true := by simp [runsRelay, hrelay]
    rw [if_pos hrelay, if_pos ⟨htrue, hrelay.2⟩]
    simp [Preferences.effective, htrue]
  · have hfalse : runsRelay device prefs = false := by
      simpa [runsRelay, and_assoc] using hrelay
    rw [if_neg hrelay, if_neg]
    simp [hfalse]

theorem localSettings_effective (random : RandomChoice) (tables : Tables)
    (relay : List Directive) :
    localSettings device random (prefs.effective device) tables relay =
      localSettings device random prefs tables relay := by
  have hnodes : nodeSettings (prefs.effective device) = nodeSettings prefs := rfl
  have haddresses : addressSettings (prefs.effective device) = addressSettings prefs := by
    unfold addressSettings
    rw [limitsAddresses_effective]
    split
    · next hlimits => simp [Preferences.effective, hlimits]
    · rfl
  have hhost : Prefs.hostOnionServicesEnabled (prefs.effective device) =
      Prefs.hostOnionServicesEnabled prefs := rfl
  simp only [localSettings, hnodes, haddresses, hhost]

/-- The generation reads no more than the effective preferences. -/
theorem updateTorrcCustomFile_effective (choice : TorrcChoice) (prefs : TorrcPreferences)
    (tables : Tables) :
    updateTorrcCustomFile device choice (prefs.effective device) tables =
      updateTorrcCustomFile device choice prefs tables := by
  have hports : portTexts choice.isPortOpen (prefs.effective device) =
      portTexts choice.isPortOpen prefs := rfl
  have hsettings : processSettingsImpl device choice.random
      (prefs.effective device).toPreferences tables =
        processSettingsImpl device choice.random prefs.toPreferences tables := by
    change processSettingsImpl device choice.random (prefs.toPreferences.effective device) tables =
      _
    simp only [processSettingsImpl, relaySettings_effective, networkSettings_effective,
      localSettings_effective]
  unfold updateTorrcCustomFile
  rw [hports, hsettings]
  rfl

end Effective

/-! ## The switch for bridges -/

/-- The line about bridges comes first among the settings. -/
theorem networkSettings_head (device : Device) (choice : BridgeChoice) (prefs : Preferences) :
    ∃ rest, networkSettings device choice prefs =
      fixedLine ("UseBridges " ++
        if Prefs.bridgesEnabled device.farsi prefs then "1" else "0") :: rest := by
  unfold networkSettings
  split
  · exact ⟨_, rfl⟩
  · exact ⟨_, rfl⟩

theorem toList_torrcText (before after : List Directive) (line : Directive)
    (customTorrc : Option String) :
    (torrcText (before ++ line :: after) customTorrc).toList =
      '\n' :: directiveChars before ++ (line.chars ++
        ('\n' :: directiveChars after ++ '\n' :: (customTorrc.getD "").toList ++ ['\n'])) := by
  simp [torrcText, directivesText, directiveChars]

/-- The text up to the line about bridges, when the ports and switches before it are given. -/
theorem updateTorrcCustomFile_head {device : Device} {choice : TorrcChoice}
    {prefs : TorrcPreferences} {tables : Tables} {text : String} {ports : PortTexts}
    (hports : portTexts choice.isPortOpen prefs = some ports)
    (h : (updateTorrcCustomFile device choice prefs tables).map Prod.fst = some text) :
    ∃ rest, text.toList = '\n' :: directiveChars (portSettings ports prefs) ++
      ((fixedLine ("UseBridges " ++
        if Prefs.bridgesEnabled device.farsi prefs.toPreferences then "1" else "0")).chars ++
          rest) := by
  obtain ⟨file, hfile, rfl⟩ := Option.map_eq_some_iff.mp h
  unfold updateTorrcCustomFile processSettingsImpl at hfile
  rw [hports, Option.bind_some] at hfile
  obtain ⟨settings, hrelay, rfl⟩ := Option.map_eq_some_iff.mp hfile
  obtain ⟨relay, -, rfl⟩ := Option.map_eq_some_iff.mp hrelay
  obtain ⟨others, hothers⟩ := networkSettings_head device choice.random.bridge prefs.toPreferences
  dsimp only
  rw [hothers, List.cons_append, toList_torrcText]
  exact ⟨_, rfl⟩

/-- With the same ports and switches before it, the switch for bridges gives another text. -/
theorem updateTorrcCustomFile_ne {device : Device} {choice : TorrcChoice}
    {prefs prefs' : TorrcPreferences} {tables tables' : Tables} {ports ports' : PortTexts}
    {text : String} (hports : portTexts choice.isPortOpen prefs = some ports)
    (hports' : portTexts choice.isPortOpen prefs' = some ports')
    (hhead : portSettings ports prefs = portSettings ports' prefs')
    (hbridges : Prefs.bridgesEnabled device.farsi prefs.toPreferences ≠
      Prefs.bridgesEnabled device.farsi prefs'.toPreferences)
    (h : (updateTorrcCustomFile device choice prefs tables).map Prod.fst = some text) :
    (updateTorrcCustomFile device choice prefs' tables').map Prod.fst ≠ some text := by
  intro h'
  obtain ⟨rest, hrest⟩ := updateTorrcCustomFile_head hports h
  obtain ⟨rest', hrest'⟩ := updateTorrcCustomFile_head hports' h'
  rw [hrest, hhead, List.append_cancel_left_eq] at hrest'
  revert hrest' hbridges
  cases Prefs.bridgesEnabled device.farsi prefs.toPreferences <;>
    cases Prefs.bridgesEnabled device.farsi prefs'.toPreferences <;>
    simp [fixedLine, Directive.chars, Piece.chars]

end Orbot.Service
