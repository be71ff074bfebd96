import Orbot.Service.StoredTexts

/-!
# Directives that stored texts add

Two states that agree in everything but the contents of their texts lead to lines of one shape, in
which a stored text comes after the keyword of its line. Against a state whose texts are single
lines, the other one has the same directives if and only if its texts are single lines too. Of the
contents of a custom bridge list, the lines also depend on whether it contains `obfs`.
-/

namespace Orbot.Service

open Orbot.Foundation Orbot.OnionService

/-! ## States that agree up to the contents of their texts -/

/-- The preferences agree in the switches, the ports of the relay, the kind of the bridge list and
the type of the proxy, and in which texts are stored and empty. -/
structure SamePreferences (farsi : Bool) (prefs prefs' : Preferences) : Prop where
  bridgesEnabled : Prefs.bridgesEnabled farsi prefs = Prefs.bridgesEnabled farsi prefs'
  bridgeMode : builtInBridgeType (Prefs.getBridgesList farsi prefs) =
    builtInBridgeType (Prefs.getBridgesList farsi prefs')
  useVpn : Prefs.useVpn prefs = Prefs.useVpn prefs'
  hostOnionServices :
    Prefs.hostOnionServicesEnabled prefs = Prefs.hostOnionServicesEnabled prefs'
  proxyType : prefs.proxyType = prefs'.proxyType
  proxyHost : isNullOrEmpty prefs.proxyHost = isNullOrEmpty prefs'.proxyHost
  proxyPort : isNullOrEmpty prefs.proxyPort = isNullOrEmpty prefs'.proxyPort
  proxyUsername : prefs.proxyUsername.isSome = prefs'.proxyUsername.isSome
  proxyPassword : prefs.proxyPassword.isSome = prefs'.proxyPassword.isSome
  entranceNodes : isNullOrEmpty prefs.entranceNodes = isNullOrEmpty prefs'.entranceNodes
  exitNodes : isNullOrEmpty prefs.exitNodes = isNullOrEmpty prefs'.exitNodes
  excludeNodes : isNullOrEmpty prefs.excludeNodes = isNullOrEmpty prefs'.excludeNodes
  strictNodes : prefs.enableStrictNodes = prefs'.enableStrictNodes
  reachableAddresses : prefs.limitsAddresses = prefs'.limitsAddresses
  becomeRelay : prefs.relays = prefs'.relays
  orPort : prefs.orPort.getD "9001" = prefs'.orPort.getD "9001"

/-- The rows of services agree in the columns that are no texts. -/
structure SameService (row row' : Row) : Prop where
  id : row.id = row'.id
  onionPort : row.columns.onionPort = row'.columns.onionPort
  authCookie : row.columns.authCookie = row'.columns.authCookie
  createdByUser : row.columns.createdByUser = row'.columns.createdByUser
  enabled : row.columns.enabled = row'.columns.enabled
  port : row.columns.port = row'.columns.port

/-- The rows of cookies agree in the columns that are no texts. -/
def SameCookie (row row' : Record ClientCookie) : Prop :=
  row.id = row'.id ∧ row.columns.enabled = row'.columns.enabled

instance (row row' : Record ClientCookie) : Decidable (SameCookie row row') :=
  inferInstanceAs (Decidable (_ ∧ _))

structure SameTables (tables tables' : Tables) : Prop where
  v3 : List.Forall₂ SameService tables.v3Services.rows tables'.v3Services.rows
  v2 : List.Forall₂ SameService tables.v2Services.rows tables'.v2Services.rows
  cookies : List.Forall₂ SameCookie tables.cookies.rows tables'.cookies.rows

/-! ## The shape of the lines -/

theorem sameShape_storedLine (keyword value value' : String) :
    (storedLine keyword value).SameShape (storedLine keyword value') :=
  .cons rfl (.cons trivial .nil)

theorem pluginLines_eq (ports : IPtProxy) {bridgeList bridgeList' : String}
    (hmode : builtInBridgeType bridgeList = builtInBridgeType bridgeList')
    (hobfs : builtInBridgeType bridgeList = none →
      contains bridgeList "obfs" = contains bridgeList' "obfs") :
    pluginLines ports bridgeList = pluginLines ports bridgeList' := by
  cases hbuiltIn : builtInBridgeType bridgeList with
  | none =>
    rw [pluginLines_of_custom hbuiltIn, pluginLines_of_custom (hmode ▸ hbuiltIn), hobfs hbuiltIn]
  | some type => rw [eq_of_builtInBridgeType_eq hbuiltIn (hmode ▸ hbuiltIn)]

/-- The drawn bridges of a type are as many for every shuffle, and a custom bridge is always one. -/
theorem sameShape_bridgeLines (choice choice' : BridgeChoice) (bridges : List Bridge)
    {bridgeList bridgeList' : String}
    (hmode : builtInBridgeType bridgeList = builtInBridgeType bridgeList') :
    SameShape (bridgeLines choice bridges bridgeList)
      (bridgeLines choice' bridges bridgeList') := by
  unfold bridgeLines
  rw [← hmode]
  cases builtInBridgeType bridgeList with
  | none =>
    obtain ⟨line, hline⟩ := exists_chosenBridgeLine choice bridgeList
    obtain ⟨line', hline'⟩ := exists_chosenBridgeLine choice' bridgeList'
    rw [hline, hline']
    exact .cons (.cons rfl (.cons trivial .nil)) .nil
  | some type =>
    have hlength (c : BridgeChoice) : (getBridges type 0 (c.shuffle bridges)).length =
        min (maxBridges + 1) (bridges.countP fun b ↦ b.type = type) := by
      rw [length_getBridges, (c.perm bridges).countP_eq]
    apply List.forall₂_iff_get.mpr
    refine ⟨by simp [hlength], fun index hindex hindex' ↦ ?_⟩
    simp only [List.get_eq_getElem, List.getElem_map, Bridge.directive]
    have htype := (getBridges_mem (List.getElem_mem (by simpa using hindex))).2
    have htype' := (getBridges_mem (List.getElem_mem (by simpa using hindex'))).2
    rw [htype, htype']
    exact .cons rfl (.cons trivial .nil)

theorem sameShape_proxyCredentials (proxyType proxyPort proxyPort' : String)
    {user user' pass pass' : Option String} (huser : user.isSome = user'.isSome)
    (hpass : pass.isSome = pass'.isSome) :
    SameShape (proxyCredentials proxyType proxyPort user pass)
      (proxyCredentials proxyType proxyPort' user' pass') := by
  have hauthenticator {first first' : Piece} (hfirst : first.SameShape first') :
      Directive.SameShape
        [.fixed (proxyType ++ "ProxyAuthenticator "), first, .fixed ":", .stored proxyPort]
        [.fixed (proxyType ++ "ProxyAuthenticator "), first', .fixed ":", .stored proxyPort'] :=
    .cons rfl (.cons hfirst (.cons rfl (.cons trivial .nil)))
  cases pass with
  | none =>
    cases pass' with
    | none => cases user <;> cases user' <;> exact .nil
    | some pass' => simp at hpass
  | some pass =>
    cases pass' with
    | none => simp at hpass
    | some pass' =>
      cases user with
      | none =>
        cases user' with
        | none => exact .cons (hauthenticator rfl) .nil
        | some user' => simp at huser
      | some user =>
        cases user' with
        | none => simp at huser
        | some user' =>
          simp only [proxyCredentials]
          split
          · exact .cons (sameShape_storedLine _ user user')
              (.cons (sameShape_storedLine _ pass pass') .nil)
          · exact .cons (hauthenticator trivial) .nil

theorem exists_of_not_isNullOrEmpty {text : Option String} (h : isNullOrEmpty text = false) :
    ∃ value, text = some value ∧ value ≠ "" := by
  cases text with
  | none => simp [isNullOrEmpty] at h
  | some value => exact ⟨value, rfl, by simpa [isNullOrEmpty] using h⟩

/-- The proxy has a type, a host and a port. -/
def HasProxy (prefs : Preferences) : Prop :=
  isNullOrEmpty prefs.proxyType = false ∧ isNullOrEmpty prefs.proxyHost = false ∧
    isNullOrEmpty prefs.proxyPort = false

theorem proxyServer_of_hasProxy {prefs : Preferences} (h : HasProxy prefs) :
    ∃ proxyType proxyHost proxyPort, prefs.proxyType = some proxyType ∧
      proxyServer prefs =
        [.fixed (proxyType ++ "Proxy "), .stored proxyHost, .fixed ":", .stored proxyPort] ::
          proxyCredentials proxyType proxyPort prefs.proxyUsername prefs.proxyPassword := by
  obtain ⟨proxyType, htype, htypeSet⟩ := exists_of_not_isNullOrEmpty h.1
  obtain ⟨proxyHost, hhost, hhostSet⟩ := exists_of_not_isNullOrEmpty h.2.1
  obtain ⟨proxyPort, hport, hportSet⟩ := exists_of_not_isNullOrEmpty h.2.2
  refine ⟨proxyType, proxyHost, proxyPort, htype, ?_⟩
  simp only [proxyServer, htype, hhost, hport]
  rw [if_pos ⟨htypeSet, hhostSet, hportSet⟩]

theorem proxyServer_of_not_hasProxy {prefs : Preferences} (h : ¬ HasProxy prefs) :
    proxyServer prefs = [] := by
  unfold proxyServer
  split
  · next proxyType proxyHost proxyPort htype hhost hport =>
    rw [if_neg]
    rintro ⟨htypeSet, hhostSet, hportSet⟩
    exact h ⟨by simp [isNullOrEmpty, htype, htypeSet], by simp [isNullOrEmpty, hhost, hhostSet],
      by simp [isNullOrEmpty, hport, hportSet]⟩
  · rfl

section Same

variable {device : Device} {prefs prefs' : Preferences}

theorem SamePreferences.proxyServer (h : SamePreferences device.farsi prefs prefs') :
    SameShape (Service.proxyServer prefs) (Service.proxyServer prefs') := by
  have hsame : HasProxy prefs ↔ HasProxy prefs' := by
    unfold HasProxy
    rw [h.proxyType, h.proxyHost, h.proxyPort]
  by_cases hproxy : HasProxy prefs
  · obtain ⟨proxyType, proxyHost, proxyPort, htype, hlines⟩ := proxyServer_of_hasProxy hproxy
    obtain ⟨proxyType', proxyHost', proxyPort', htype', hlines'⟩ :=
      proxyServer_of_hasProxy (hsame.mp hproxy)
    rw [h.proxyType, htype'] at htype
    obtain rfl := Option.some_inj.mp htype
    rw [hlines, hlines']
    refine .cons (.cons rfl (.cons trivial (.cons rfl (.cons trivial .nil)))) ?_
    exact sameShape_proxyCredentials proxyType' proxyPort proxyPort' h.proxyUsername h.proxyPassword
  · rw [proxyServer_of_not_hasProxy hproxy, proxyServer_of_not_hasProxy (mt hsame.mpr hproxy)]
    exact .nil

/-- The two bridge lists agree on `obfs`, where this decides about plugin lines. -/
def SameObfs (farsi : Bool) (prefs prefs' : Preferences) : Prop :=
  Prefs.bridgesEnabled farsi prefs = true →
    builtInBridgeType (Prefs.getBridgesList farsi prefs) = none →
      contains (Prefs.getBridgesList farsi prefs) "obfs" =
        contains (Prefs.getBridgesList farsi prefs') "obfs"

theorem SamePreferences.networkSettings (h : SamePreferences device.farsi prefs prefs')
    (hobfs : SameObfs device.farsi prefs prefs') (choice choice' : BridgeChoice) :
    SameShape (Service.networkSettings device choice prefs)
      (Service.networkSettings device choice' prefs') := by
  unfold Service.networkSettings proxySettings
  rw [← h.bridgesEnabled, ← h.useVpn]
  cases hbridges : Prefs.bridgesEnabled device.farsi prefs with
  | true =>
    have hplugins := pluginLines_eq device.iptProxy h.bridgeMode (hobfs hbridges)
    have hlines := sameShape_bridgeLines choice choice' (loadBridgeDefaults device.bridges)
      h.bridgeMode
    simp only [if_true, bridgeSettings, hplugins]
    exact .cons (Directive.SameShape.refl _) (SameShape.append (SameShape.refl _) hlines)
  | false =>
    cases Prefs.useVpn prefs with
    | true => exact SameShape.refl _
    | false => exact .cons (Directive.SameShape.refl _) h.proxyServer

theorem sameShape_nodesLine (keyword : String) {nodes nodes' : Option String}
    (h : isNullOrEmpty nodes = isNullOrEmpty nodes') :
    SameShape (nodesLine keyword nodes) (nodesLine keyword nodes') := by
  have hempty : nodes.getD "" = "" ↔ nodes'.getD "" = "" := by
    simpa [isNullOrEmpty] using congrArg (· = true) h
  unfold nodesLine
  by_cases hnodes : nodes.getD "" = ""
  · rw [if_pos hnodes, if_pos (hempty.mp hnodes)]
    exact .nil
  · rw [if_neg hnodes, if_neg (mt hempty.mpr hnodes)]
    exact .cons (sameShape_storedLine _ _ _) .nil

theorem SamePreferences.nodeSettings (h : SamePreferences device.farsi prefs prefs') :
    SameShape (Service.nodeSettings prefs) (Service.nodeSettings prefs') := by
  unfold Service.nodeSettings
  rw [← h.strictNodes]
  have hentrance := sameShape_nodesLine "EntryNodes" h.entranceNodes
  have hexit := sameShape_nodesLine "ExitNodes" h.exitNodes
  have hexclude := sameShape_nodesLine "ExcludeNodes" h.excludeNodes
  exact ((hentrance.append hexit).append hexclude).append (SameShape.refl _)

theorem SamePreferences.addressSettings (h : SamePreferences device.farsi prefs prefs') :
    SameShape (Service.addressSettings prefs) (Service.addressSettings prefs') := by
  unfold Service.addressSettings
  rw [← h.reachableAddresses]
  split
  · exact .cons (sameShape_storedLine _ _ _) .nil
  · exact .nil

theorem SamePreferences.relaySettings (h : SamePreferences device.farsi prefs prefs')
    {relay relay' : List Directive} (hrelay : Service.relaySettings device prefs = some relay)
    (hrelay' : Service.relaySettings device prefs' = some relay') : SameShape relay relay' := by
  unfold Service.relaySettings at hrelay hrelay'
  rw [← h.becomeRelay, ← h.bridgesEnabled, ← h.reachableAddresses, ← h.orPort] at hrelay'
  split at hrelay
  · next hrelays =>
    rw [if_pos hrelays] at hrelay'
    cases hport : parseInt (prefs.orPort.getD "9001") with
    | none => simp [hport] at hrelay
    | some orPort =>
      simp only [hport] at hrelay hrelay'
      split at hrelay
      · next hwrites =>
        rw [if_pos hwrites] at hrelay'
        obtain rfl := Option.some_inj.mp hrelay
        obtain rfl := Option.some_inj.mp hrelay'
        exact .cons (.refl _) (.cons (.refl _) (.cons (sameShape_storedLine _ _ _)
          (.cons (.refl _) .nil)))
      · simp at hrelay
  · next hrelays =>
    rw [if_neg hrelays] at hrelay'
    obtain rfl := Option.some_inj.mp hrelay
    obtain rfl := Option.some_inj.mp hrelay'
    exact .nil

end Same

theorem sameShape_flatMap {α : Type*} {Same : α → α → Prop} {items items' : List α}
    {lines lines' : α → List Directive} (h : List.Forall₂ Same items items')
    (hlines : ∀ item item', Same item item' → SameShape (lines item) (lines' item')) :
    SameShape (items.flatMap lines) (items'.flatMap lines') := by
  induction h with
  | nil => exact .nil
  | cons hitem hrest ih =>
    rw [List.flatMap_cons, List.flatMap_cons]
    exact (hlines _ _ hitem).append ih

/-- The lines of a service say nothing else about its row than where its texts are. -/
theorem sameShape_serviceDirectives (v : Version) (base : Path) {row row' : Row}
    (h : SameService row row') (path path' : String) :
    SameShape (serviceDirectives (hiddenService v base row path))
      (serviceDirectives (hiddenService v base row' path')) := by
  simp only [serviceDirectives, hiddenService, h.onionPort, h.port, h.authCookie]
  refine .cons (.cons rfl (.cons trivial .nil)) (.cons (.refl _) (.cons (.refl _) ?_))
  split_ifs
  · exact .cons (.cons rfl (.cons trivial .nil)) .nil
  · exact .nil

theorem sameShape_services (v : Version) (base : Path) (randomUUID randomUUID' : ℕ → Uuid)
    {t t' : ServiceTable} (h : List.Forall₂ SameService t.rows t'.rows) :
    SameShape ((addServicesToTorrc v base randomUUID t).2.flatMap serviceDirectives)
      ((addServicesToTorrc v base randomUUID' t').2.flatMap serviceDirectives) := by
  have henabled : List.Forall₂ SameService (t.rows.filter isEnabled) (t'.rows.filter isEnabled) :=
    List.rel_filter (fun row row' hrow ↦ by simp [isEnabled, hrow.enabled]) h
  rw [services_addServicesToTorrc, services_addServicesToTorrc, List.flatMap_map, List.flatMap_map]
  exact sameShape_flatMap henabled fun row row' hrow ↦
    sameShape_serviceDirectives v base hrow _ _

theorem sameShape_cookies {cookies cookies' : CookieTable}
    (h : List.Forall₂ SameCookie cookies.rows cookies'.rows) :
    SameShape (addV2ClientCookiesToTorrc cookies) (addV2ClientCookiesToTorrc cookies') := by
  refine List.rel_map (R := SameCookie) (fun row row' _ ↦ ?_)
    (List.rel_filter (fun row row' hrow ↦ by simp [hrow.2]) h)
  exact .cons rfl (.cons trivial (.cons rfl (.cons trivial .nil)))

theorem SameTables.onionSettings {tables tables' : Tables} (h : SameTables tables tables')
    (device : Device) (random random' : RandomChoice) :
    SameShape (Service.onionSettings device random tables).1
      (Service.onionSettings device random' tables').1 := by
  have hv3 := sameShape_services .v3 (Version.v3.base device.filesDir) random.v3Uuid
    random'.v3Uuid h.v3
  have hv2 := sameShape_services .v2 (Version.v2.base device.filesDir) random.v2Uuid
    random'.v2Uuid h.v2
  exact ((hv3.append (SameShape.refl _)).append hv2).append (sameShape_cookies h.cookies)

/-- States that agree in all but the contents of their texts lead to lines of one shape. -/
theorem sameShape_processSettingsImpl {device : Device} {random random' : RandomChoice}
    {prefs prefs' : Preferences} {tables tables' assigned assigned' : Tables}
    {lines lines' : List Directive} (hprefs : SamePreferences device.farsi prefs prefs')
    (htables : SameTables tables tables') (hobfs : SameObfs device.farsi prefs prefs')
    (hlines : processSettingsImpl device random prefs tables = some (lines, assigned))
    (hlines' : processSettingsImpl device random' prefs' tables' = some (lines', assigned')) :
    SameShape lines lines' := by
  obtain ⟨relay, hrelay, hresult⟩ := Option.map_eq_some_iff.mp hlines
  obtain ⟨relay', hrelay', hresult'⟩ := Option.map_eq_some_iff.mp hlines'
  obtain ⟨rfl, -⟩ := Prod.mk.inj hresult
  obtain ⟨rfl, -⟩ := Prod.mk.inj hresult'
  have honion : SameShape
      (if Prefs.hostOnionServicesEnabled prefs then Service.onionSettings device random tables
        else ([], tables)).1
      (if Prefs.hostOnionServicesEnabled prefs' then Service.onionSettings device random' tables'
        else ([], tables')).1 := by
    rw [← hprefs.hostOnionServices]
    cases Prefs.hostOnionServicesEnabled prefs with
    | true => exact htables.onionSettings device random random'
    | false => exact .nil
  have hnetwork := hprefs.networkSettings hobfs random.bridge random'.bridge
  have hlocal := (((SameShape.refl (geoIPSettings device)).append hprefs.nodeSettings).append
    hprefs.addressSettings).append (hprefs.relaySettings hrelay hrelay')
  exact hnetwork.append (hlocal.append honion)

/-! ## The keywords come first -/

/-- In every line the stored texts come after the keyword. -/
def ProtectedLines (lines : List Directive) : Prop := ∀ line ∈ lines, line.Protected

@[simp]
theorem protectedLines_nil : ProtectedLines [] := by simp [ProtectedLines]

@[simp]
theorem protectedLines_cons {line : Directive} {lines : List Directive} :
    ProtectedLines (line :: lines) ↔ line.Protected ∧ ProtectedLines lines := by
  simp [ProtectedLines]

@[simp]
theorem protectedLines_append {lines others : List Directive} :
    ProtectedLines (lines ++ others) ↔ ProtectedLines lines ∧ ProtectedLines others := by
  simp [ProtectedLines, or_imp, forall_and]

@[simp]
theorem protected_fixedLine (text : String) : (fixedLine text).Protected :=
  Directive.protected_fixed text

theorem protected_stored {head : String} (h : EndsKeyword head) (value : String) :
    Directive.Protected [.fixed head, .stored value] :=
  Directive.protected_of_endsKeyword h (by simp)

theorem protectedLines_bridgeSettings (ports : IPtProxy) (choice : BridgeChoice)
    (resource bridgeList : String) :
    ProtectedLines (bridgeSettings ports choice resource bridgeList) := by
  have hplugins : ProtectedLines (pluginLines ports bridgeList) := by
    unfold pluginLines
    split_ifs <;> simp [clientTransportPlugin, Directive.protected_fixed]
  have hbridges : ProtectedLines (bridgeLines choice (loadBridgeDefaults resource) bridgeList) := by
    unfold bridgeLines
    split
    · next type htype =>
      intro line hline
      obtain ⟨b, hb, rfl⟩ := List.mem_map.mp hline
      rw [Bridge.directive, (getBridges_mem hb).2]
      rcases eq_of_builtInBridgeType htype with ⟨-, rfl⟩ | ⟨-, rfl⟩ | ⟨-, rfl⟩ <;>
        exact protected_stored (by decide) b.config
    · intro line hline
      obtain ⟨bridgeLine, -, rfl⟩ := Option.map_eq_some_iff.mp (Option.mem_toList.mp hline)
      exact protected_stored (by decide) bridgeLine
  simp [bridgeSettings, hplugins, hbridges, Directive.protected_fixed]

theorem protectedLines_proxyServer (prefs : Preferences) : ProtectedLines (proxyServer prefs) := by
  have hhead (proxyType keyword : String) (h : EndsKeyword keyword) {rest : Directive}
      (hrest : ∀ text, .fixed text ∈ rest → '\n' ∉ text.toList) :
      Directive.Protected (.fixed (proxyType ++ keyword) :: rest) :=
    Directive.protected_of_endsKeyword (h.append proxyType) hrest
  by_cases hproxy : HasProxy prefs
  · obtain ⟨proxyType, proxyHost, proxyPort, -, hlines⟩ := proxyServer_of_hasProxy hproxy
    rw [hlines, protectedLines_cons]
    refine ⟨hhead proxyType "Proxy " (by decide) (by simp), ?_⟩
    have hauthenticator {user : Piece} (huser : ∀ text, user = .fixed text → '\n' ∉ text.toList) :
        Directive.Protected
          [.fixed (proxyType ++ "ProxyAuthenticator "), user, .fixed ":", .stored proxyPort] := by
      refine hhead proxyType "ProxyAuthenticator " (by decide) fun text htext ↦ ?_
      rcases List.mem_cons.mp htext with huserText | hmore
      · exact huser text huserText.symm
      · obtain rfl : text = ":" := by simpa using hmore
        decide
    unfold proxyCredentials
    split
    · split
      · rw [protectedLines_cons, protectedLines_cons]
        exact ⟨protected_stored (by decide) _, protected_stored (by decide) _, protectedLines_nil⟩
      · rw [protectedLines_cons]
        exact ⟨hauthenticator (by simp), protectedLines_nil⟩
    · rw [protectedLines_cons]
      refine ⟨hauthenticator fun text htext ↦ ?_, protectedLines_nil⟩
      obtain rfl := Piece.fixed.inj htext
      decide
    · exact protectedLines_nil
  · rw [proxyServer_of_not_hasProxy hproxy]
    exact protectedLines_nil

theorem protectedLines_networkSettings (device : Device) (choice : BridgeChoice)
    (prefs : Preferences) : ProtectedLines (networkSettings device choice prefs) := by
  unfold networkSettings proxySettings
  split_ifs <;> simp [protectedLines_bridgeSettings, protectedLines_proxyServer]

theorem protectedLines_nodesLine (keyword : String) (h : EndsKeyword (keyword ++ " "))
    (nodes : Option String) : ProtectedLines (nodesLine keyword nodes) := by
  unfold nodesLine
  split
  · exact protectedLines_nil
  · rw [protectedLines_cons]
    exact ⟨protected_stored h _, protectedLines_nil⟩

theorem protectedLines_relaySettings {device : Device} {prefs : Preferences}
    {relay : List Directive} (h : relaySettings device prefs = some relay) :
    ProtectedLines relay := by
  unfold relaySettings at h
  split at h
  · cases hport : parseInt (prefs.orPort.getD "9001") with
    | none => simp [hport] at h
    | some orPort =>
      simp only [hport] at h
      split at h
      · obtain rfl := Option.some_inj.mp h
        have hnickname : (storedLine "Nickname" (prefs.orNickname.getD "Orbot")).Protected :=
          protected_stored (by decide) _
        simp [hnickname]
      · simp at h
  · obtain rfl := Option.some_inj.mp h
    exact protectedLines_nil

theorem protectedLines_serviceDirectives (service : HiddenService) :
    ProtectedLines (serviceDirectives service) := by
  have hdir : Directive.Protected [.fixed "HiddenServiceDir ", .stored (pathText service.dir)] :=
    protected_stored (by decide) _
  have hclient (client : String) :
      Directive.Protected [.fixed "HiddenServiceAuthorizeClient stealth ", .stored client] :=
    protected_stored (by decide) _
  unfold serviceDirectives
  cases service.authorizedClient <;> simp [hdir, hclient]

theorem protectedLines_onionSettings (device : Device) (random : RandomChoice) (tables : Tables) :
    ProtectedLines (onionSettings device random tables).1 := by
  have hservices (services : List HiddenService) :
      ProtectedLines (services.flatMap serviceDirectives) := by
    intro line hline
    obtain ⟨service, -, hmem⟩ := List.mem_flatMap.mp hline
    exact protectedLines_serviceDirectives service line hmem
  have hcookies : ProtectedLines (addV2ClientCookiesToTorrc tables.cookies) := by
    intro line hline
    obtain ⟨row, -, rfl⟩ := List.mem_map.mp hline
    refine Directive.protected_of_endsKeyword (by decide) fun text htext ↦ ?_
    obtain rfl : text = " " := by simpa using htext
    decide
  simp only [onionSettings, protectedLines_append]
  exact ⟨⟨⟨hservices _, by simp [addV3ClientAuthToTorrc]⟩, hservices _⟩, hcookies⟩

/-- The stored texts never come before the keyword of their line. -/
theorem protectedLines_processSettingsImpl {device : Device} {random : RandomChoice}
    {prefs : Preferences} {tables assigned : Tables} {lines : List Directive}
    (hlines : processSettingsImpl device random prefs tables = some (lines, assigned)) :
    ProtectedLines lines := by
  obtain ⟨relay, hrelay, hresult⟩ := Option.map_eq_some_iff.mp hlines
  obtain ⟨rfl, -⟩ := Prod.mk.inj hresult
  have hgeoIP : ProtectedLines (geoIPSettings device) := by
    unfold geoIPSettings
    split <;> simp
  have hentrance := protectedLines_nodesLine "EntryNodes" (by decide) prefs.entranceNodes
  have hexit := protectedLines_nodesLine "ExitNodes" (by decide) prefs.exitNodes
  have hexclude := protectedLines_nodesLine "ExcludeNodes" (by decide) prefs.excludeNodes
  have hnodes : ProtectedLines (nodeSettings prefs) := by
    simp [nodeSettings, hentrance, hexit, hexclude]
  have haddresses : ProtectedLines (addressSettings prefs) := by
    unfold addressSettings
    split
    · rw [protectedLines_cons]
      exact ⟨protected_stored (by decide) _, protectedLines_nil⟩
    · exact protectedLines_nil
  have honion : ProtectedLines
      (if Prefs.hostOnionServicesEnabled prefs then Service.onionSettings device random tables
        else ([], tables)).1 := by
    split
    · exact protectedLines_onionSettings device random tables
    · exact protectedLines_nil
  simp only [localSettings, protectedLines_append]
  exact ⟨protectedLines_networkSettings device random.bridge prefs,
    ⟨⟨⟨hgeoIP, hnodes⟩, haddresses⟩, protectedLines_relaySettings hrelay⟩, honion⟩

/-! ## The directives of two states -/

/-- The keyword after `UseBridges 1` tells whether a custom list has plugin lines. -/
theorem keywords_of_custom {device : Device} {random : RandomChoice} {prefs : Preferences}
    {tables assigned : Tables} {lines : List Directive}
    (hbridges : Prefs.bridgesEnabled device.farsi prefs = true)
    (hcustom : builtInBridgeType (Prefs.getBridgesList device.farsi prefs) = none)
    (hlines : processSettingsImpl device random prefs tables = some (lines, assigned)) :
    ["UseBridges", if contains (Prefs.getBridgesList device.farsi prefs) "obfs" then
      "ClientTransportPlugin" else "Bridge"] <+: leadingKeywords (directivesText lines) := by
  have hfirst : (LineReader.fresh []).read (Directive.chars [.fixed "UseBridges 1"] ++ ['\n']) =
      LineReader.fresh ["UseBridges".toList] := rfl
  have hplugin : (LineReader.fresh ["UseBridges".toList]).read "ClientTransportPlugin ".toList =
      ⟨["UseBridges".toList], "ClientTransportPlugin".toList, true⟩ := rfl
  have hbridge : (LineReader.fresh ["UseBridges".toList]).read "Bridge ".toList =
      ⟨["UseBridges".toList], "Bridge".toList, true⟩ := rfl
  rw [processSettingsImpl_of_bridges hbridges, bridgeSettings, pluginLines_of_custom hcustom]
    at hlines
  obtain ⟨rfl, -⟩ := Prod.mk.inj (Option.some_inj.mp hlines)
  split
  · simp only [List.cons_append]
    exact keyword_pair_isPrefix hfirst hplugin (startsWith_clientTransportPlugin _ _) _
  · obtain ⟨line, hline⟩ := exists_chosenBridgeLine random.bridge
      (Prefs.getBridgesList device.farsi prefs)
    simp only [bridgeLines, hcustom, hline, Option.map_some, Option.toList_some, List.nil_append,
      List.cons_append]
    exact keyword_pair_isPrefix hfirst hbridge (startsWith_customBridge line) _

section Pair

variable {device : Device} {random random' : RandomChoice} {prefs prefs' : Preferences}
  {tables tables' assigned assigned' : Tables} {lines lines' : List Directive}

theorem sameObfs_of_sameDirectives (hprefs : SamePreferences device.farsi prefs prefs')
    (hlines : processSettingsImpl device random prefs tables = some (lines, assigned))
    (hlines' : processSettingsImpl device random' prefs' tables' = some (lines', assigned'))
    (h : SameDirectives lines lines') : SameObfs device.farsi prefs prefs' := by
  intro hbridges hcustom
  have hkeywords := keywords_of_custom hbridges hcustom hlines
  have hkeywords' := keywords_of_custom (hprefs.bridgesEnabled ▸ hbridges)
    (hprefs.bridgeMode ▸ hcustom) hlines'
  rw [h.2] at hkeywords
  have hpart := List.prefix_of_prefix_length_le hkeywords hkeywords' le_rfl
  have hsame := hpart.eq_of_length rfl
  simp only [List.cons.injEq, true_and, and_true] at hsame
  generalize contains (Prefs.getBridgesList device.farsi prefs) "obfs" = hasObfs at hsame ⊢
  generalize contains (Prefs.getBridgesList device.farsi prefs') "obfs" = hasObfs' at hsame ⊢
  cases hasObfs <;> cases hasObfs' <;> simp_all

/-- Against a state whose stored texts are single lines. -/
theorem sameDirectives_iff_singleLines (hnames : tables.WellNamed) (hnames' : tables'.WellNamed)
    (hprefs : SamePreferences device.farsi prefs prefs') (htables : SameTables tables tables')
    (hlines : processSettingsImpl device random prefs tables = some (lines, assigned))
    (hlines' : processSettingsImpl device random' prefs' tables' = some (lines', assigned'))
    (hsingle' : SingleLines (writtenTexts device.farsi prefs' tables')) :
    SameDirectives lines lines' ↔
      SameObfs device.farsi prefs prefs' ∧
        SingleLines (writtenTexts device.farsi prefs tables) := by
  have hclean' : CleanLines lines' := (cleanLines_processSettingsImpl hnames' hlines').mpr hsingle'
  have hiff (hobfs : SameObfs device.farsi prefs prefs') :
      SameDirectives lines lines' ↔ SingleLines (writtenTexts device.farsi prefs tables) := by
    have hshape := sameShape_processSettingsImpl hprefs htables hobfs hlines hlines'
    have hprotected := protectedLines_processSettingsImpl hlines
    rw [sameDirectives_iff_keywords, leadingKeywords_eq_iff hshape hprotected hclean']
    exact cleanLines_processSettingsImpl hnames hlines
  constructor
  · intro h
    have hobfs := sameObfs_of_sameDirectives hprefs hlines hlines' h
    exact ⟨hobfs, (hiff hobfs).mp h⟩
  · rintro ⟨hobfs, hsingle⟩
    exact (hiff hobfs).mpr hsingle

end Pair

/-- The services of both generations in states that runs of the app reach; any cookies. -/
structure Tables.Reached (P : Platform) (filesDir : Path) (tables : Tables) : Prop where
  v3 : ∃ s, (system .v3 P filesDir).Reachable s ∧ s.store.table = tables.v3Services
  v2 : ∃ s, (system .v2 P filesDir).Reachable s ∧ s.store.table = tables.v2Services

theorem Tables.Reached.wellNamed {P : Platform} {filesDir : Path} {tables : Tables}
    (h : tables.Reached P filesDir) : tables.WellNamed := by
  obtain ⟨s3, hreach3, h3⟩ := h.v3
  obtain ⟨s2, hreach2, h2⟩ := h.v2
  exact ⟨h3 ▸ wellNamed_of_reachableBy hreach3, h2 ▸ wellNamed_of_reachableBy hreach2⟩

/-- Where the stored texts are single lines, nothing but `obfs` in a custom bridge list shows in the
directives. -/
theorem sameDirectives_iff_sameObfs {P : Platform} {device : Device}
    {random random' : RandomChoice} {prefs prefs' : Preferences}
    {tables tables' assigned assigned' : Tables} {lines lines' : List Directive}
    (hreached : tables.Reached P device.filesDir) (hreached' : tables'.Reached P device.filesDir)
    (hprefs : SamePreferences device.farsi prefs prefs') (htables : SameTables tables tables')
    (hlines : processSettingsImpl device random prefs tables = some (lines, assigned))
    (hlines' : processSettingsImpl device random' prefs' tables' = some (lines', assigned'))
    (hsingle : SingleLines (writtenTexts device.farsi prefs tables))
    (hsingle' : SingleLines (writtenTexts device.farsi prefs' tables')) :
    SameDirectives lines lines' ↔ SameObfs device.farsi prefs prefs' := by
  have hiff := sameDirectives_iff_singleLines hreached.wellNamed hreached'.wellNamed hprefs htables
    hlines hlines' hsingle'
  exact hiff.trans (and_iff_left hsingle)

/-! ## Fixed inputs -/

/-- The text of a code with a cookie for a domain. -/
def cookieCode (domain : String) : String :=
  flatPlatform.printObject [("domain", .string domain), ("auth_cookie_value", .string "c")]

/-- One scanned cookie and no service. -/
def scannedTables (results : String) : Tables :=
  { noTables with cookies := addScannedCookie flatPlatform results Table.empty }

theorem reached_scannedTables (results : String) :
    (scannedTables results).Reached flatPlatform appFiles where
  v3 := ⟨installed (Version.v3.base appFiles), ⟨[], trivial, rfl⟩, rfl⟩
  v2 := ⟨installed (Version.v2.base appFiles), ⟨[], trivial, rfl⟩, rfl⟩

theorem SamePreferences.refl (farsi : Bool) (prefs : Preferences) :
    SamePreferences farsi prefs prefs := by
  constructor <;> rfl

theorem sameTables_scanned {results results' : String}
    (h : List.Forall₂ SameCookie (scannedTables results).cookies.rows
      (scannedTables results').cookies.rows) :
    SameTables (scannedTables results) (scannedTables results') where
  v3 := .nil
  v2 := .nil
  cookies := h

theorem sameDirectives_twoCookies :
    ∃ lines assigned lines' assigned',
      processSettingsImpl plainDevice firstChoice {} (scannedTables (cookieCode "a.onion")) =
        some (lines, assigned) ∧
      processSettingsImpl plainDevice firstChoice {} (scannedTables (cookieCode "b.onion")) =
        some (lines', assigned') ∧
      SameDirectives lines lines' := by
  have hreached (domain : String) :
      (scannedTables (cookieCode domain)).Reached flatPlatform plainDevice.filesDir :=
    reached_scannedTables _
  have htables : SameTables (scannedTables (cookieCode "a.onion"))
      (scannedTables (cookieCode "b.onion")) := sameTables_scanned (by decide)
  have hobfs : SameObfs plainDevice.farsi {} {} := fun _ _ ↦ rfl
  have hsingle : SingleLines (writtenTexts plainDevice.farsi {}
      (scannedTables (cookieCode "a.onion"))) := by decide
  have hsingle' : SingleLines (writtenTexts plainDevice.farsi {}
      (scannedTables (cookieCode "b.onion"))) := by decide
  refine ⟨_, _, _, _, rfl, rfl, ?_⟩
  exact (sameDirectives_iff_sameObfs (hreached _) (hreached _) (.refl _ _) htables rfl rfl hsingle
    hsingle').mpr hobfs

/-- Two similar states that the directives tell apart. -/
def ToldApart (prefs prefs' : Preferences) (tables tables' : Tables) : Prop :=
  SamePreferences plainDevice.farsi prefs prefs' ∧ SameTables tables tables' ∧
    tables.Reached flatPlatform plainDevice.filesDir ∧
    tables'.Reached flatPlatform plainDevice.filesDir ∧
    ∃ lines assigned lines' assigned',
      processSettingsImpl plainDevice firstChoice prefs tables = some (lines, assigned) ∧
      processSettingsImpl plainDevice firstChoice prefs' tables' = some (lines', assigned') ∧
      ¬ SameDirectives lines lines'

/-- The preferences with bridges from a custom list. -/
def customBridges (bridgesList : String) : Preferences :=
  { bridgesEnabled := some true, bridgesList := some bridgesList }

/-- A bridge for `obfs4` brings plugin lines, and the domain of a scanned cookie a directive. -/
theorem texts_tell_apart :
    ToldApart (customBridges "obfs4 192.0.2.1:443") (customBridges "webtunnel 192.0.2.1:443")
        (scannedTables (cookieCode "a.onion")) (scannedTables (cookieCode "a.onion")) ∧
      ToldApart {} {} (scannedTables (cookieCode "a.onion\nControlPort 9051"))
        (scannedTables (cookieCode "a.onion")) := by
  have hreached (domain : String) :
      (scannedTables (cookieCode domain)).Reached flatPlatform plainDevice.filesDir :=
    reached_scannedTables _
  constructor
  · have hobfs : ¬ SameObfs plainDevice.farsi (customBridges "obfs4 192.0.2.1:443")
        (customBridges "webtunnel 192.0.2.1:443") := fun h ↦ absurd (h rfl (by decide)) (by decide)
    have hprefs : SamePreferences plainDevice.farsi (customBridges "obfs4 192.0.2.1:443")
        (customBridges "webtunnel 192.0.2.1:443") := by
      constructor <;> rfl
    refine ⟨hprefs, sameTables_scanned (by decide), hreached _, hreached _, _, _, _, _, rfl, rfl,
      fun h ↦ ?_⟩
    exact hobfs (sameObfs_of_sameDirectives hprefs rfl rfl h)
  · have htables : SameTables (scannedTables (cookieCode "a.onion\nControlPort 9051"))
        (scannedTables (cookieCode "a.onion")) := sameTables_scanned (by decide)
    have hsingle' : SingleLines (writtenTexts plainDevice.farsi {}
        (scannedTables (cookieCode "a.onion"))) := by decide
    refine ⟨.refl _ _, htables, hreached _, hreached _, _, _, _, _, rfl, rfl, fun h ↦ ?_⟩
    have hsingle := ((sameDirectives_iff_singleLines (hreached _).wellNamed (hreached _).wellNamed
      (.refl _ _) htables rfl rfl hsingle').mp h).2
    exact absurd hsingle (by decide)

end Orbot.Service
