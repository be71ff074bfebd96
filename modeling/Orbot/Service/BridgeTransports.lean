import Orbot.Service.Settings

/-!
# Transports of the bridges in the torrc

A bridge line names its transport in its first word. Tor can use it when the torrc has a plugin
line for the transport and the service has started the proxy behind it. The built-in bridges have
both, and so has a custom bridge with obfs3 or obfs4; a custom bridge with another transport of the
app has no plugin line.
-/

namespace Orbot.Service

open Orbot.Foundation Orbot.OnionService

/-- The transports that the app has a client for. -/
def shippedTransports : List String := ["obfs3", "obfs4", "meek_lite", "snowflake"]

/-- The first word of a text, after its blanks. -/
def firstWord (text : List Char) : List Char :=
  (text.dropWhile isBlank).takeWhile fun c ↦ !isBlank c

/-- The first word after the keyword of a bridge line. -/
def bridgeTransport (line : Directive) : Option String :=
  if line.StartsWith "Bridge " then
    some (String.ofList (firstWord (line.chars.drop "Bridge ".toList.length)))
  else none

/-- A plugin line for a transport. -/
def IsPluginLine (transport : String) (line : Directive) : Prop :=
  line.StartsWith ("ClientTransportPlugin " ++ transport ++ " ")

/-- A start request starts the proxy for a transport of the app. -/
def startsProxyFor (bridgeList transport : String) : Bool :=
  if transport = "snowflake" then useIPtSnowflakeProxy bridgeList
  else useIPtObfsMeekProxy bridgeList

/-- Each bridge line with a transport of the app has a plugin line among the lines, and the proxy
behind it is started. -/
def BridgesServed (bridgeList : String) (lines : List Directive) : Prop :=
  ∀ line ∈ lines, ∀ transport ∈ bridgeTransport line, transport ∈ shippedTransports →
    (∃ plugin ∈ lines, IsPluginLine transport plugin) ∧ startsProxyFor bridgeList transport = true

/-- The line drawn from a custom list has a transport other than meek and snowflake. -/
def DrawsServedBridge (choice : BridgeChoice) (bridgeList : String) : Prop :=
  builtInBridgeType bridgeList = none → ∀ line ∈ chosenBridgeLine choice bridgeList,
    String.ofList (firstWord line.toList) ∉ ["meek_lite", "snowflake"]

instance (choice : BridgeChoice) (bridgeList : String) :
    Decidable (DrawsServedBridge choice bridgeList) :=
  inferInstanceAs (Decidable (_ → ∀ line ∈ chosenBridgeLine choice bridgeList, _))

/-! ## Lines that are not about bridges -/

/-- The beginnings of the other lines. -/
def localHeads : List String :=
  ["GeoIPFile ", "GeoIPv6File ", "EntryNodes ", "ExitNodes ", "ExcludeNodes ", "StrictNodes ",
    "ReachableAddresses ", "HiddenServiceDir ", "HiddenServiceVersion ", "HiddenServicePort ",
    "HiddenServiceAuthorizeClient ", "ClientOnionAuthDir ", "HidServAuth "]

def HasLocalHead (line : Directive) : Prop := ∃ head ∈ localHeads, line.StartsWith head

theorem HasLocalHead.of_fixed (head : String) (hhead : head ∈ localHeads) (text : String)
    (rest : Directive) : HasLocalHead (.fixed (head ++ text) :: rest) :=
  ⟨head, hhead, Directive.startsWith_fixed head text rest⟩

theorem HasLocalHead.of_head {head : String} (hhead : head ∈ localHeads) (rest : Directive) :
    HasLocalHead (.fixed head :: rest) :=
  ⟨head, hhead, List.prefix_append _ _⟩

theorem hasLocalHead_nodesLine {keyword : String} (hhead : keyword ++ " " ∈ localHeads)
    {nodes : Option String} {line : Directive} (h : line ∈ nodesLine keyword nodes) :
    HasLocalHead line := by
  unfold nodesLine at h
  split at h
  · simp at h
  · rw [List.mem_singleton.mp h]
    exact .of_head hhead _

theorem hasLocalHead_serviceDirectives {service : HiddenService} {line : Directive}
    (h : line ∈ serviceDirectives service) : HasLocalHead line := by
  rcases List.mem_append.mp h with hfirst | hclient
  · simp only [List.mem_cons, List.not_mem_nil, or_false] at hfirst
    rcases hfirst with rfl | rfl | rfl
    · exact .of_head (by decide) _
    · cases service.version with
      | v2 => exact .of_fixed "HiddenServiceVersion " (by decide) "2" []
      | v3 => exact .of_fixed "HiddenServiceVersion " (by decide) "3" []
    · rw [fixedLine, String.append_assoc, String.append_assoc]
      exact .of_fixed "HiddenServicePort " (by decide) _ []
  · split at hclient
    · rw [List.mem_singleton.mp hclient]
      exact .of_fixed "HiddenServiceAuthorizeClient " (by decide) "stealth " _
    · simp at hclient

theorem hasLocalHead_geoIPSettings {device : Device} {line : Directive}
    (h : line ∈ geoIPSettings device) : HasLocalHead line := by
  unfold geoIPSettings at h
  split at h
  · simp only [List.mem_cons, List.not_mem_nil, or_false] at h
    rcases h with rfl | rfl
    · exact .of_fixed "GeoIPFile " (by decide) _ []
    · exact .of_fixed "GeoIPv6File " (by decide) _ []
  · simp at h

theorem hasLocalHead_nodeSettings {prefs : Preferences} {line : Directive}
    (h : line ∈ nodeSettings prefs) : HasLocalHead line := by
  simp only [nodeSettings, List.mem_append, List.mem_singleton] at h
  rcases h with ((hentry | hexit) | hexclude) | rfl
  · exact hasLocalHead_nodesLine (by decide) hentry
  · exact hasLocalHead_nodesLine (by decide) hexit
  · exact hasLocalHead_nodesLine (by decide) hexclude
  · exact .of_fixed "StrictNodes " (by decide) _ []

theorem hasLocalHead_addressSettings {prefs : Preferences} {line : Directive}
    (h : line ∈ addressSettings prefs) : HasLocalHead line := by
  unfold addressSettings at h
  split at h
  · rw [List.mem_singleton.mp h]
    exact .of_head (by decide) _
  · simp at h

theorem hasLocalHead_onionSettings {device : Device} {random : RandomChoice} {tables : Tables}
    {line : Directive} (h : line ∈ (onionSettings device random tables).1) :
    HasLocalHead line := by
  simp only [onionSettings, addV3ClientAuthToTorrc, addV2ClientCookiesToTorrc, List.mem_append,
    List.mem_flatMap, List.mem_map, List.mem_singleton] at h
  rcases h with ((⟨service, -, hservice⟩ | rfl) | ⟨service, -, hservice⟩) | ⟨row, -, rfl⟩
  · exact hasLocalHead_serviceDirectives hservice
  · exact .of_fixed "ClientOnionAuthDir " (by decide) _ []
  · exact hasLocalHead_serviceDirectives hservice
  · exact .of_head (by decide) _

theorem hasLocalHead_localSettings {device : Device} {random : RandomChoice} {prefs : Preferences}
    {tables : Tables} {line : Directive}
    (h : line ∈ (localSettings device random prefs tables []).1) : HasLocalHead line := by
  simp only [localSettings, List.append_nil, List.mem_append] at h
  rcases h with ((hgeoIP | hnode) | haddress) | honion
  · exact hasLocalHead_geoIPSettings hgeoIP
  · exact hasLocalHead_nodeSettings hnode
  · exact hasLocalHead_addressSettings haddress
  · split at honion
    · exact hasLocalHead_onionSettings honion
    · simp at honion

/-- The other lines are no bridge lines. -/
theorem HasLocalHead.bridgeTransport_eq_none {line : Directive} (h : HasLocalHead line) :
    bridgeTransport line = none := by
  obtain ⟨head, hhead, hstarts⟩ := h
  have hne : ∀ other ∈ localHeads, ¬ other.toList <+: "Bridge ".toList ∧
      ¬ "Bridge ".toList <+: other.toList := by decide +kernel
  exact if_neg (hstarts.ne (hne head hhead))

/-- The other lines are no plugin lines. -/
theorem HasLocalHead.not_isPluginLine {line : Directive} (h : HasLocalHead line)
    (transport : String) : ¬ IsPluginLine transport line := by
  obtain ⟨head, hhead, hstarts⟩ := h
  have hne : ∀ other ∈ localHeads, ¬ other.toList <+: "ClientTransportPlugin ".toList ∧
      ¬ "ClientTransportPlugin ".toList <+: other.toList := by decide +kernel
  intro hplugin
  rw [IsPluginLine, Directive.StartsWith, String.append_assoc, String.toList_append] at hplugin
  exact hstarts.ne (hne head hhead) ((List.prefix_append _ _).trans hplugin)

/-! ## Lines about bridges -/

/-- A word that a space follows is the first word. -/
theorem firstWord_append {word rest : List Char} (hne : word ≠ [])
    (hword : ∀ c ∈ word, isBlank c = false) : firstWord (word ++ ' ' :: rest) = word := by
  have hdrop : (word ++ ' ' :: rest).dropWhile isBlank = word ++ ' ' :: rest := by
    cases word with
    | nil => exact absurd rfl hne
    | cons c word => simp [hword c List.mem_cons_self]
  have htake (c : Char) (hc : c ∈ word) : (!isBlank c) = true := by simp [hword c hc]
  rw [firstWord, hdrop, List.takeWhile_append_of_pos htake]
  simp [isBlank]

theorem firstWord_isInfix (text : List Char) : firstWord text <:+: text :=
  (List.takeWhile_prefix _).isInfix.trans (List.dropWhile_suffix _).isInfix

theorem bridgeTransport_of_chars {line : Directive} {rest : List Char}
    (h : line.chars = "Bridge ".toList ++ rest) :
    bridgeTransport line = some (String.ofList (firstWord rest)) := by
  have hstarts : line.StartsWith "Bridge " := by
    rw [Directive.StartsWith, h]
    exact List.prefix_append _ _
  rw [bridgeTransport, if_pos hstarts, h, List.drop_left]

theorem bridgeTransport_customBridge (line : String) :
    bridgeTransport (customBridge line) = some (String.ofList (firstWord line.toList)) :=
  bridgeTransport_of_chars (by simp [customBridge, Directive.chars, Piece.chars])

theorem bridgeTransport_directive {b : Bridge} (htype : b.type ∈ shippedTransports) :
    bridgeTransport b.directive = some b.type := by
  have hchars : b.directive.chars =
      "Bridge ".toList ++ (b.type.toList ++ ' ' :: b.config.toList) := by
    simp [Bridge.directive, Directive.chars, Piece.chars]
  have hword : ∀ transport ∈ shippedTransports,
      transport.toList ≠ [] ∧ transport.toList.all (!isBlank ·) = true := by decide
  obtain ⟨hne, hall⟩ := hword b.type htype
  have hblank : ∀ c ∈ b.type.toList, isBlank c = false := by simpa using hall
  rw [bridgeTransport_of_chars hchars, firstWord_append hne hblank, String.ofList_toList]

theorem isPluginLine_clientTransportPlugin (transport : String) (port : ℕ) :
    IsPluginLine transport (clientTransportPlugin transport port) := by
  have htext : "ClientTransportPlugin " ++ transport ++ " socks5 127.0.0.1:" ++ toString port =
      ("ClientTransportPlugin " ++ transport ++ " ") ++ ("socks5 127.0.0.1:" ++ toString port) := by
    simp [← String.toList_inj]
  rw [IsPluginLine, clientTransportPlugin, htext]
  exact Directive.startsWith_fixed _ _ []

theorem bridgeTransport_clientTransportPlugin (transport : String) (port : ℕ) :
    bridgeTransport (clientTransportPlugin transport port) = none :=
  if_neg ((startsWith_clientTransportPlugin transport port).ne (by decide))

theorem bridgeTransport_of_mem_pluginLines {ports : IPtProxy} {bridgeList : String}
    {line : Directive} (h : line ∈ pluginLines ports bridgeList) : bridgeTransport line = none := by
  simp only [pluginLines, List.mem_append] at h
  rcases h with (hobfs | hmeek) | hsnowflake
  · split at hobfs
    · simp only [List.mem_cons, List.not_mem_nil, or_false] at hobfs
      rcases hobfs with rfl | rfl <;> exact bridgeTransport_clientTransportPlugin _ _
    · simp at hobfs
  · split at hmeek
    · rw [List.mem_singleton.mp hmeek, bridgeTransport_clientTransportPlugin]
    · simp at hmeek
  · split at hsnowflake
    · rw [List.mem_singleton.mp hsnowflake, bridgeTransport_clientTransportPlugin]
    · simp at hsnowflake

theorem startsWith_of_mem_bridgeLines {choice : BridgeChoice} {bridges : List Bridge}
    {bridgeList : String} {line : Directive} (h : line ∈ bridgeLines choice bridges bridgeList) :
    line.StartsWith "Bridge " := by
  unfold bridgeLines at h
  split at h
  · obtain ⟨b, -, rfl⟩ := List.mem_map.mp h
    rw [Bridge.directive, String.append_assoc]
    exact Directive.startsWith_fixed _ _ _
  · obtain ⟨bridgeLine, -, rfl⟩ := Option.map_eq_some_iff.mp (Option.mem_toList.mp h)
    exact startsWith_customBridge bridgeLine

/-- Only the bridge lines have transports, and only the plugin lines are plugin lines. -/
theorem bridgesServed_iff (ports : IPtProxy) (choice : BridgeChoice) (resource bridgeList : String)
    {others : List Directive} (hothers : ∀ line ∈ others, HasLocalHead line) :
    BridgesServed bridgeList (bridgeSettings ports choice resource bridgeList ++ others) ↔
      ∀ line ∈ bridgeLines choice (loadBridgeDefaults resource) bridgeList,
        ∀ transport ∈ bridgeTransport line, transport ∈ shippedTransports →
          (∃ plugin ∈ pluginLines ports bridgeList, IsPluginLine transport plugin) ∧
            startsProxyFor bridgeList transport = true := by
  have hmem (line : Directive) :
      line ∈ bridgeSettings ports choice resource bridgeList ++ others ↔
        line = [.fixed "UseBridges 1"] ∨ line ∈ pluginLines ports bridgeList ∨
          line ∈ bridgeLines choice (loadBridgeDefaults resource) bridgeList ∨ line ∈ others := by
    simp [bridgeSettings]
  have hplugin (transport : String) :
      (∃ plugin ∈ bridgeSettings ports choice resource bridgeList ++ others,
        IsPluginLine transport plugin) ↔
          ∃ plugin ∈ pluginLines ports bridgeList, IsPluginLine transport plugin := by
    constructor
    · rintro ⟨plugin, hplugin, hstarts⟩
      have hhead : plugin.StartsWith "ClientTransportPlugin " := by
        rw [IsPluginLine, Directive.StartsWith, String.append_assoc, String.toList_append]
          at hstarts
        exact (List.prefix_append _ _).trans hstarts
      rcases (hmem plugin).mp hplugin with rfl | hplugin | hbridge | hother
      · exact absurd hhead (by decide)
      · exact ⟨plugin, hplugin, hstarts⟩
      · exact absurd hhead ((startsWith_of_mem_bridgeLines hbridge).ne (by decide))
      · exact absurd hstarts ((hothers plugin hother).not_isPluginLine transport)
    · rintro ⟨plugin, hplugin, hstarts⟩
      exact ⟨plugin, (hmem plugin).mpr (.inr (.inl hplugin)), hstarts⟩
  simp only [BridgesServed, hplugin]
  constructor
  · intro hall line hline
    exact hall line ((hmem line).mpr (.inr (.inr (.inl hline))))
  · intro hall line hline transport htransport
    rcases (hmem line).mp hline with rfl | hplugin | hbridge | hother
    · have hnone : bridgeTransport [.fixed "UseBridges 1"] = none := by decide
      simp [hnone] at htransport
    · simp [bridgeTransport_of_mem_pluginLines hplugin] at htransport
    · exact hall line hbridge transport htransport
    · simp [(hothers line hother).bridgeTransport_eq_none] at htransport

/-- What is written and started for a built-in type. -/
theorem served_of_builtIn {bridgeList type : String} (h : builtInBridgeType bridgeList = some type)
    (ports : IPtProxy) :
    type ∈ shippedTransports ∧
      (∃ plugin ∈ pluginLines ports bridgeList, IsPluginLine type plugin) ∧
        startsProxyFor bridgeList type = true := by
  rcases eq_of_builtInBridgeType h with ⟨rfl, rfl⟩ | ⟨rfl, rfl⟩ | ⟨rfl, rfl⟩
  · have hobfs : contains "obfs4" "obfs" = true := by decide
    refine ⟨by decide, ⟨_, ?_, isPluginLine_clientTransportPlugin _ ports.obfs4Port⟩, by decide⟩
    simp [pluginLines, hobfs]
  · refine ⟨by decide, ⟨_, ?_, isPluginLine_clientTransportPlugin _ ports.meekPort⟩, by decide⟩
    simp [pluginLines]
  · refine ⟨by decide, ⟨_, ?_, isPluginLine_clientTransportPlugin _ ports.snowflakePort⟩,
      by decide⟩
    simp [pluginLines]

/-- The bridges of a built-in type have its plugin and its proxy. -/
theorem served_builtIn {bridgeList type : String} (h : builtInBridgeType bridgeList = some type)
    (ports : IPtProxy) (choice : BridgeChoice) (bridges : List Bridge) {line : Directive}
    (hline : line ∈ bridgeLines choice bridges bridgeList) {transport : String}
    (htransport : transport ∈ bridgeTransport line) :
    (∃ plugin ∈ pluginLines ports bridgeList, IsPluginLine transport plugin) ∧
      startsProxyFor bridgeList transport = true := by
  obtain ⟨hshipped, hserved⟩ := served_of_builtIn h ports
  rw [bridgeLines, h] at hline
  obtain ⟨b, hb, rfl⟩ := List.mem_map.mp hline
  obtain rfl := (getBridges_mem hb).2
  rw [bridgeTransport_directive hshipped] at htransport
  obtain rfl := Option.some_inj.mp htransport
  exact hserved

/-- Neither of the two obfs plugins serves the other transports. -/
theorem not_isPluginLine_of_obfs {transport : String} (h : transport ∈ ["meek_lite", "snowflake"])
    {obfs : String} (hobfs : obfs ∈ ["obfs3", "obfs4"]) (port : ℕ) :
    ¬ IsPluginLine transport (clientTransportPlugin obfs port) := by
  have hne : ∀ obfs ∈ ["obfs3", "obfs4"], ∀ transport ∈ ["meek_lite", "snowflake"],
      ¬ ("ClientTransportPlugin " ++ obfs ++ " ").toList <+:
          ("ClientTransportPlugin " ++ transport ++ " ").toList ∧
        ¬ ("ClientTransportPlugin " ++ transport ++ " ").toList <+:
          ("ClientTransportPlugin " ++ obfs ++ " ").toList := by decide +kernel
  exact Directive.StartsWith.ne (isPluginLine_clientTransportPlugin obfs port)
    (hne obfs hobfs transport h)

/-- A custom list with a bridge whose transport is obfs3 or obfs4 contains `obfs`. -/
theorem contains_obfs_of_chosen {choice : BridgeChoice} {bridgeList bridgeLine : String}
    (hchosen : chosenBridgeLine choice bridgeList = some bridgeLine)
    (hobfs : String.ofList (firstWord bridgeLine.toList) ∈ ["obfs3", "obfs4"]) :
    contains bridgeList "obfs" = true := by
  have hword : ∀ transport ∈ ["obfs3", "obfs4"], "obfs".toList <:+: transport.toList := by decide
  have htext : (String.ofList (firstWord bridgeLine.toList)).toList = firstWord bridgeLine.toList :=
    String.toList_ofList
  have hfirst : "obfs".toList <:+: firstWord bridgeLine.toList := htext ▸ hword _ hobfs
  have hline := infix_of_mem_parseBridges (mem_parseBridges_of_chosen hchosen) (by decide)
    (hfirst.trans (firstWord_isInfix bridgeLine.toList))
  exact contains_eq_true.mpr hline

/-- A custom bridge with a transport of the app has its plugin and its proxy if and only if the
transport is obfs3 or obfs4. -/
theorem served_custom_iff {bridgeList : String} (h : builtInBridgeType bridgeList = none)
    (ports : IPtProxy) {choice : BridgeChoice} {bridgeLine : String}
    (hchosen : chosenBridgeLine choice bridgeList = some bridgeLine) {transport : String}
    (htransport : String.ofList (firstWord bridgeLine.toList) = transport)
    (hshipped : transport ∈ shippedTransports) :
    ((∃ plugin ∈ pluginLines ports bridgeList, IsPluginLine transport plugin) ∧
      startsProxyFor bridgeList transport = true) ↔ transport ∉ ["meek_lite", "snowflake"] := by
  rw [pluginLines_of_custom h]
  by_cases hother : transport ∈ ["meek_lite", "snowflake"]
  · refine iff_of_false ?_ (not_not_intro hother)
    rintro ⟨⟨plugin, hplugin, hstarts⟩, -⟩
    split at hplugin
    · simp only [List.mem_cons, List.not_mem_nil, or_false] at hplugin
      rcases hplugin with rfl | rfl <;>
        exact not_isPluginLine_of_obfs hother (by decide) _ hstarts
    · simp at hplugin
  · refine iff_of_true ?_ hother
    have hcases : ∀ other ∈ shippedTransports, other ∉ ["meek_lite", "snowflake"] →
        other ∈ ["obfs3", "obfs4"] := by decide
    have hobfs := hcases transport hshipped hother
    have hcontains : contains bridgeList "obfs" = true := by
      rw [← htransport] at hobfs
      exact contains_obfs_of_chosen hchosen hobfs
    have hstarted : useIPtObfsMeekProxy bridgeList = true :=
      Bool.or_eq_true_iff.mpr (.inl hcontains)
    rw [if_pos hcontains]
    simp only [List.mem_cons, List.not_mem_nil, or_false] at hobfs
    rcases hobfs with rfl | rfl
    · exact ⟨⟨_, List.mem_cons_self, isPluginLine_clientTransportPlugin _ _⟩, hstarted⟩
    · exact ⟨⟨_, List.mem_cons_of_mem _ List.mem_cons_self,
        isPluginLine_clientTransportPlugin _ _⟩, hstarted⟩

/-- With bridges the settings are complete, and each bridge with a transport of the app has its
plugin and its proxy if and only if a bridge drawn from a custom list has neither the transport of
meek nor that of snowflake. -/
theorem bridges_served_iff (device : Device) (random : RandomChoice) (prefs : Preferences)
    (tables : Tables) (henabled : Prefs.bridgesEnabled device.farsi prefs = true) :
    ∃ lines tables', processSettingsImpl device random prefs tables = some (lines, tables') ∧
      (BridgesServed (Prefs.getBridgesList device.farsi prefs) lines ↔
        DrawsServedBridge random.bridge (Prefs.getBridgesList device.farsi prefs)) := by
  refine ⟨_, _, processSettingsImpl_of_bridges henabled random tables, ?_⟩
  generalize Prefs.getBridgesList device.farsi prefs = bridgeList
  rw [bridgesServed_iff _ _ _ _ fun line hline ↦ hasLocalHead_localSettings hline]
  cases hbuiltIn : builtInBridgeType bridgeList with
  | some type =>
    refine iff_of_true (fun line hline transport htransport _ ↦ ?_) fun hnone ↦ ?_
    · exact served_builtIn hbuiltIn device.iptProxy _ _ hline htransport
    · rw [hbuiltIn] at hnone
      simp at hnone
  | none =>
    simp only [DrawsServedBridge, hbuiltIn, forall_const, bridgeLines]
    cases hchosen : chosenBridgeLine random.bridge bridgeList with
    | none => simp
    | some bridgeLine =>
      have hserved := served_custom_iff hbuiltIn device.iptProxy hchosen rfl
      have hshipped : ∀ other ∈ ["meek_lite", "snowflake"], other ∈ shippedTransports := by decide
      simp only [Option.map_some, Option.toList_some, List.mem_singleton, forall_eq,
        Option.mem_some_iff, forall_eq', bridgeTransport_customBridge]
      constructor
      · intro hall hother
        exact (hserved (hshipped _ hother)).mp (hall (hshipped _ hother)) hother
      · intro hnot hmem
        exact (hserved hmem).mpr hnot

theorem bridges_served_iff_meek :
    ∃ lines tables', processSettingsImpl plainDevice firstChoice
        { bridgesEnabled := some true, bridgesList := some "meek" } noTables =
          some (lines, tables') ∧
      (BridgesServed "meek" lines ↔ DrawsServedBridge firstChoice.bridge "meek") :=
  bridges_served_iff plainDevice firstChoice
    { bridgesEnabled := some true, bridgesList := some "meek" } noTables (by decide)

/-- The address of the app's own snowflake bridge. -/
def snowflakeLine : String := "snowflake 192.0.2.3:1"

/-- The proxy of a pasted snowflake bridge is started, but its plugin line is missing. -/
theorem pasted_snowflake_without_plugin :
    ¬ ∀ (device : Device) (random : RandomChoice) (prefs : Preferences) (tables : Tables),
      Prefs.bridgesEnabled device.farsi prefs = true → ∃ lines tables',
        processSettingsImpl device random prefs tables = some (lines, tables') ∧
          BridgesServed (Prefs.getBridgesList device.farsi prefs) lines := by
  intro h
  obtain ⟨lines, tables', hlines, hserved⟩ := h plainDevice firstChoice
    { bridgesEnabled := some true, bridgesList := some snowflakeLine } noTables (by decide)
  rw [processSettingsImpl_of_bridges (by decide), Option.some_inj, Prod.mk.injEq] at hlines
  obtain ⟨rfl, -⟩ := hlines
  have hbridges := (bridgesServed_iff _ _ _ _ fun _ h ↦ hasLocalHead_localSettings h).mp hserved
  have hcustom : builtInBridgeType snowflakeLine = none := by decide
  have hchosen : chosenBridgeLine firstChoice.bridge snowflakeLine = some snowflakeLine := by
    decide
  have hword : String.ofList (firstWord snowflakeLine.toList) = "snowflake" := by decide
  have hline : customBridge snowflakeLine ∈ bridgeLines firstChoice.bridge
      (loadBridgeDefaults plainDevice.bridges) snowflakeLine := by
    simp [bridgeLines, hcustom, hchosen]
  have hfound := hbridges _ hline "snowflake" (by simp [bridgeTransport_customBridge, hword])
    (by decide)
  exact (served_custom_iff hcustom plainDevice.iptProxy hchosen hword (by decide)).mp hfound
    (by decide)

end Orbot.Service
