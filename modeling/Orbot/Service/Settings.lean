import Orbot.OnionService.Credentials
import Orbot.OnionService.Services
import Orbot.Service.Bridges

/-!
# The settings of the torrc

`OrbotService.processSettingsImpl` appends lines to the torrc for the preferences and for the stored
services and cookies. What comes from a preference or a text column is a stored part of its line;
the rest of a line, with the numbers and the paths of the app, is fixed. The type of the outgoing
proxy is the keyword of its line and counts as fixed.
-/

namespace Orbot.Service

open Orbot.Foundation Orbot.OnionService

/-! ## Preferences -/

/-- The entries of the `SharedPreferences`, `none` where nothing is stored. -/
structure Preferences where
  bridgesEnabled : Option Bool := none
  bridgesList : Option String := none
  useVpn : Option Bool := none
  hostOnionServices : Option Bool := none
  proxyType : Option String := none
  proxyHost : Option String := none
  proxyPort : Option String := none
  proxyUsername : Option String := none
  proxyPassword : Option String := none
  entranceNodes : Option String := none
  exitNodes : Option String := none
  excludeNodes : Option String := none
  strictNodes : Option Bool := none
  reachableAddresses : Option Bool := none
  reachableAddressesPorts : Option String := none
  becomeRelay : Option Bool := none
  orPort : Option String := none
  orNickname : Option String := none
  deriving DecidableEq

namespace Prefs

/-- The defaults depend on whether the language of the device is Farsi. -/
def bridgesEnabled (farsi : Bool) (prefs : Preferences) : Bool := prefs.bridgesEnabled.getD farsi

def getBridgesList (farsi : Bool) (prefs : Preferences) : String :=
  prefs.bridgesList.getD (if farsi then "meek" else "obfs4")

def useVpn (prefs : Preferences) : Bool := prefs.useVpn.getD false

def hostOnionServicesEnabled (prefs : Preferences) : Bool := prefs.hostOnionServices.getD true

end Prefs

/-- The switches that `processSettingsImpl` reads by itself, with their defaults. -/
def Preferences.enableStrictNodes (prefs : Preferences) : Bool := prefs.strictNodes.getD false

def Preferences.limitsAddresses (prefs : Preferences) : Bool := prefs.reachableAddresses.getD false

def Preferences.relays (prefs : Preferences) : Bool := prefs.becomeRelay.getD false

/-! ## What does not depend on the preferences -/

/-- The device and the files of the app, whose paths have no line feed. -/
structure Device where
  farsi : Bool
  isLollipop : Bool
  sSocksProxyLocalhost : Option String
  sSocksProxyServerPort : Int32
  iptProxy : IPtProxy
  /-- The resource `R.raw.bridges`. -/
  bridges : String
  /-- `appBinHome`, the directory of the app's files. -/
  filesDir : Path
  /-- The file `geoip` exists. -/
  geoIP : Bool
  /-- `writeDNSFile` does not throw. -/
  writesDNSFile : Bool
  lineFeed_not_mem : '\n' ∉ (pathText filesDir).toList

/-- The stored services and cookies. -/
structure Tables where
  v3Services : ServiceTable
  v2Services : ServiceTable
  cookies : CookieTable

/-- The random choices of one call. -/
structure RandomChoice where
  bridge : BridgeChoice
  v3Uuid : ℕ → Uuid
  v2Uuid : ℕ → Uuid

/-! ## Lines -/

/-- A line without a stored part. -/
def fixedLine (text : String) : Directive := [.fixed text]

/-- A keyword and a stored value. -/
def storedLine (keyword value : String) : Directive := [.fixed (keyword ++ " "), .stored value]

/-- A file of the app. -/
def Device.file (device : Device) (name : String) : String := pathText (device.filesDir ++ [name])

/-- The lines of the credentials for the outgoing proxy; the authenticator names the port in the
place of the password. -/
def proxyCredentials (proxyType proxyPort : String) (proxyUser proxyPass : Option String) :
    List Directive :=
  let authenticator (user : Piece) : Directive :=
    [.fixed (proxyType ++ "ProxyAuthenticator "), user, .fixed ":", .stored proxyPort]
  match proxyUser, proxyPass with
  | some user, some pass =>
      if equalsIgnoreCase proxyType "socks5" then
        [storedLine "Socks5ProxyUsername" user, storedLine "Socks5ProxyPassword" pass]
      else [authenticator (.stored user)]
  | none, some _ => [authenticator (.fixed "null")]
  | _, none => []

/-- The outgoing proxy, when it has a type, a host and a port. -/
def proxyServer (prefs : Preferences) : List Directive :=
  match prefs.proxyType, prefs.proxyHost, prefs.proxyPort with
  | some proxyType, some proxyHost, some proxyPort =>
      if proxyType ≠ "" ∧ proxyHost ≠ "" ∧ proxyPort ≠ "" then
        [.fixed (proxyType ++ "Proxy "), .stored proxyHost, .fixed ":", .stored proxyPort] ::
          proxyCredentials proxyType proxyPort prefs.proxyUsername prefs.proxyPassword
      else []
  | _, _, _ => []

/-- The part of the torrc without bridges. -/
def proxySettings (device : Device) (prefs : Preferences) : List Directive :=
  fixedLine "UseBridges 0" ::
    if Prefs.useVpn prefs then
      if device.isLollipop then []
      else
        [fixedLine ("socks5Proxy " ++ device.sSocksProxyLocalhost.getD "null" ++ ":" ++
          decimal device.sSocksProxyServerPort)]
    else proxyServer prefs

def geoIPSettings (device : Device) : List Directive :=
  if device.geoIP then
    [fixedLine ("GeoIPFile " ++ device.file "geoip"),
      fixedLine ("GeoIPv6File " ++ device.file "geoip6")]
  else []

/-- A line for a list of nodes that is not empty. -/
def nodesLine (keyword : String) (nodes : Option String) : List Directive :=
  if nodes.getD "" = "" then [] else [storedLine keyword (nodes.getD "")]

def nodeSettings (prefs : Preferences) : List Directive :=
  nodesLine "EntryNodes" prefs.entranceNodes ++ nodesLine "ExitNodes" prefs.exitNodes ++
    nodesLine "ExcludeNodes" prefs.excludeNodes ++
      [fixedLine ("StrictNodes " ++ if prefs.enableStrictNodes then "1" else "0")]

def addressSettings (prefs : Preferences) : List Directive :=
  if prefs.limitsAddresses then
    [storedLine "ReachableAddresses" (prefs.reachableAddressesPorts.getD "*:80,*:443")]
  else []

/-- The part about a relay; `none` when an exception is reported, after which the settings are
given up. -/
def relaySettings (device : Device) (prefs : Preferences) : Option (List Directive) :=
  if prefs.relays ∧ ¬ Prefs.bridgesEnabled device.farsi prefs ∧ ¬ prefs.limitsAddresses then
    match parseInt (prefs.orPort.getD "9001") with
    | some orPort =>
        if device.writesDNSFile then
          some [fixedLine ("ServerDNSResolvConfFile " ++ device.file "resolv.conf"),
            fixedLine ("ORPort " ++ decimal orPort),
            storedLine "Nickname" (prefs.orNickname.getD "Orbot"),
            fixedLine "ExitPolicy reject *:*"]
        else none
    | none => none
  else some []

/-- The lines of a service, as `HiddenService.lines` gives their texts. -/
def serviceDirectives (service : HiddenService) : List Directive :=
  [[.fixed "HiddenServiceDir ", .stored (pathText service.dir)],
    fixedLine service.version.torrcVersion,
    fixedLine ("HiddenServicePort " ++ decimal service.onionPort ++ " 127.0.0.1:" ++
      decimal service.localPort)] ++
  match service.authorizedClient with
  | some client => [[.fixed "HiddenServiceAuthorizeClient stealth ", .stored client]]
  | none => []

/-- The line of `addV3ClientAuthToTorrc`. -/
def addV3ClientAuthToTorrc (device : Device) : List Directive :=
  [fixedLine ("ClientOnionAuthDir " ++ device.file "v3_client_auth")]

/-- `addV2ClientCookiesToTorrc`; a missing value is written as `null`. -/
def addV2ClientCookiesToTorrc (cookies : CookieTable) : List Directive :=
  (cookies.rows.filter fun row ↦ row.columns.enabled == 1).map fun row ↦
    [.fixed "HidServAuth ", .stored (row.columns.domain.getD "null"), .fixed " ",
      .stored (row.columns.authCookieValue.getD "null")]

/-- The part about onion services, with the tables in which the services have directories. -/
def onionSettings (device : Device) (random : RandomChoice) (tables : Tables) :
    List Directive × Tables :=
  let (v3Services, v3) := addV3OnionServicesToTorrc (Version.v3.base device.filesDir) random.v3Uuid
    tables.v3Services
  let (v2Services, v2) := addV2HiddenServicesToTorrc (Version.v2.base device.filesDir) random.v2Uuid
    tables.v2Services
  (v3.flatMap serviceDirectives ++ addV3ClientAuthToTorrc device ++
      v2.flatMap serviceDirectives ++ addV2ClientCookiesToTorrc tables.cookies,
    { tables with v3Services := v3Services, v2Services := v2Services })

/-- The part about bridges, or about a proxy when they are off. -/
def networkSettings (device : Device) (choice : BridgeChoice) (prefs : Preferences) :
    List Directive :=
  if Prefs.bridgesEnabled device.farsi prefs then
    bridgeSettings device.iptProxy choice device.bridges (Prefs.getBridgesList device.farsi prefs)
  else proxySettings device prefs

/-- The parts after it, for the lines of the relay. -/
def localSettings (device : Device) (random : RandomChoice) (prefs : Preferences) (tables : Tables)
    (relay : List Directive) : List Directive × Tables :=
  let onion :=
    if Prefs.hostOnionServicesEnabled prefs then onionSettings device random tables
    else ([], tables)
  (geoIPSettings device ++ nodeSettings prefs ++ addressSettings prefs ++ relay ++ onion.1, onion.2)

/-- `processSettingsImpl`: the appended lines and the tables; `none` for `null`. -/
def processSettingsImpl (device : Device) (random : RandomChoice) (prefs : Preferences)
    (tables : Tables) : Option (List Directive × Tables) :=
  (relaySettings device prefs).map fun relay ↦
    let others := localSettings device random prefs tables relay
    (networkSettings device random.bridge prefs ++ others.1, others.2)

/-- The two accounts of a service's lines agree. -/
theorem text_serviceDirectives (service : HiddenService) :
    (serviceDirectives service).map Directive.text = service.lines := by
  obtain ⟨id, version, dir, onionPort, localPort, authorizedClient⟩ := service
  cases authorizedClient with
  | none =>
    simp only [serviceDirectives, HiddenService.lines, fixedLine, List.append_nil, List.map_cons,
      List.map_nil, Directive.text_single, Directive.text_pair, Piece.chars, String.ofList_toList]
    rfl
  | some client =>
    simp only [serviceDirectives, HiddenService.lines, fixedLine, List.cons_append,
      List.nil_append, List.map_cons, List.map_nil, Directive.text_single, Directive.text_pair,
      Piece.chars, String.ofList_toList]
    rfl

/-- With bridges there is no relay, and the settings are complete. -/
theorem processSettingsImpl_of_bridges {device : Device} {prefs : Preferences}
    (h : Prefs.bridgesEnabled device.farsi prefs = true) (random : RandomChoice) (tables : Tables) :
    processSettingsImpl device random prefs tables =
      some (bridgeSettings device.iptProxy random.bridge device.bridges
          (Prefs.getBridgesList device.farsi prefs) ++
        (localSettings device random prefs tables []).1,
        (localSettings device random prefs tables []).2) := by
  simp [processSettingsImpl, relaySettings, networkSettings, h]

/-! ## Fixed inputs -/

/-- A recent device with English texts. -/
def plainDevice : Device where
  farsi := false
  isLollipop := true
  sSocksProxyLocalhost := none
  sSocksProxyServerPort := -1
  iptProxy := ⟨47000, 47300, 47350, 52610⟩
  bridges := "obfs4 192.0.2.1:443\nmeek_lite 192.0.2.2:2\nsnowflake 192.0.2.3:1\n"
  filesDir := appFiles
  geoIP := true
  writesDNSFile := true
  lineFeed_not_mem := by decide

/-- No shuffle, always the first line, and the UUIDs by row. -/
def firstChoice : RandomChoice where
  bridge := ⟨id, fun _ ↦ List.Perm.refl _, fun _ ↦ 0, fun _ h ↦ h⟩
  v3Uuid := drawByRow
  v2Uuid := drawByRow

def noTables : Tables where
  v3Services := Table.empty
  v2Services := Table.empty
  cookies := Table.empty

end Orbot.Service
