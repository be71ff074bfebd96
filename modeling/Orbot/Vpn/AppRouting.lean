import Orbot.Vpn.TorifiedApp

/-!
# Which apps the VPN captures

`OrbotVpnManager.doLollipopAppRouting` adds the torified apps whose switch is on to the allow-list
of the VPN builder and excludes Orbot itself when no app is torified. An empty allow-list without
an exclusion captures everything.
-/

namespace Orbot.Vpn

open Orbot.Foundation

/-- The two lists of a `VpnService.Builder`. -/
structure Builder where
  allowed : List String
  disallowed : List String
  deriving DecidableEq

def Builder.new : Builder := ⟨[], []⟩

def Builder.addAllowedApplication (builder : Builder) (packageName : String) : Builder :=
  { builder with allowed := builder.allowed ++ [packageName] }

def Builder.addDisallowedApplication (builder : Builder) (packageName : String) : Builder :=
  { builder with disallowed := builder.disallowed ++ [packageName] }

/-- The VPN captures the allowed packages or, when none is, all that are not disallowed. -/
def Builder.Routes (builder : Builder) (packageName : String) : Prop :=
  if builder.allowed = [] then packageName ∉ builder.disallowed
  else packageName ∈ builder.allowed

instance (builder : Builder) (packageName : String) : Decidable (builder.Routes packageName) := by
  unfold Builder.Routes
  infer_instance

def APP_TOR_KEY : String := "_app_tor"

/-- The switch of an app. -/
def torSwitch (prefs : SharedPreferences) (packageName : String) : Bool :=
  prefs.getBoolean (packageName ++ APP_TOR_KEY) true

/-- The loop over the apps, with the flag `perAppEnabled`. -/
def allowApps (ownPackage : String) (prefs : SharedPreferences) :
    List TorifiedApp → Builder → Bool → Builder × Bool
  | [], builder, perAppEnabled => (builder, perAppEnabled)
  | app :: rest, builder, perAppEnabled =>
      if app.torified && app.packageName != ownPackage then
        allowApps ownPackage prefs rest
          (if torSwitch prefs app.packageName then builder.addAllowedApplication app.packageName
            else builder)
          true
      else allowApps ownPackage prefs rest builder perAppEnabled

/-- `doLollipopAppRouting`; `none` when it throws. -/
def doLollipopAppRouting (ownPackage : String) (foldCase : Char → Char)
    (pMgr : PackageManager) (prefs : SharedPreferences) (builder : Builder) : Option Builder := do
  let apps ← getApps foldCase pMgr prefs
  let (builder, perAppEnabled) := allowApps ownPackage prefs apps builder false
  return if perAppEnabled then builder else builder.addDisallowedApplication ownPackage

/-- The packages of the torified apps of a list, without Orbot. -/
def torifiedPackages (ownPackage : String) (apps : List TorifiedApp) : List String :=
  (apps.filter fun app ↦ app.torified && app.packageName != ownPackage).map
    TorifiedApp.packageName

/-- The loop allows the packages whose switch is on; its flag says whether there was any. -/
theorem allowApps_eq (ownPackage : String) (prefs : SharedPreferences) (apps : List TorifiedApp)
    (builder : Builder) (perAppEnabled : Bool) :
    allowApps ownPackage prefs apps builder perAppEnabled =
      ({ builder with
          allowed := builder.allowed ++
            (torifiedPackages ownPackage apps).filter (torSwitch prefs) },
        perAppEnabled || !(torifiedPackages ownPackage apps).isEmpty) := by
  unfold torifiedPackages
  induction apps generalizing builder perAppEnabled with
  | nil => simp [allowApps]
  | cons app rest ih =>
    rw [allowApps]
    by_cases htorified : (app.torified && app.packageName != ownPackage) = true
    · rw [if_pos htorified, ih, List.filter_cons, if_pos htorified, List.map_cons]
      by_cases hswitch : torSwitch prefs app.packageName = true
      · simp [hswitch, Builder.addAllowedApplication]
      · simp [hswitch]
    · rw [if_neg htorified, ih, List.filter_cons, if_neg htorified]

/-- The builder that a new one is configured to. -/
theorem doLollipopAppRouting_new {ownPackage : String} {foldCase : Char → Char}
    {pMgr : PackageManager} {prefs : SharedPreferences} {apps : List TorifiedApp}
    (h : getApps foldCase pMgr prefs = some apps) :
    doLollipopAppRouting ownPackage foldCase pMgr prefs Builder.new = some
      { allowed := (torifiedPackages ownPackage apps).filter (torSwitch prefs)
        disallowed := if torifiedPackages ownPackage apps = [] then [ownPackage] else [] } := by
  rw [doLollipopAppRouting, h, Option.bind_eq_bind, Option.bind_some, allowApps_eq]
  by_cases hnone : torifiedPackages ownPackage apps = []
  · simp [hnone, Builder.new, Builder.addDisallowedApplication]
  · simp [hnone, Builder.new]

/-! ## What the user chose -/

/-- A package other than Orbot of an installed app that is torified. -/
def Torified (ownPackage : String) (pMgr : PackageManager) (prefs : SharedPreferences)
    (packageName : String) : Prop :=
  packageName ≠ ownPackage ∧ ∃ aInfo ∈ pMgr.installedApplications,
    IsTorified pMgr prefs aInfo ∧ aInfo.packageName = packageName

/-- The switch of a torified app is on. -/
def SwitchedOn (ownPackage : String) (pMgr : PackageManager) (prefs : SharedPreferences)
    (packageName : String) : Prop :=
  Torified ownPackage pMgr prefs packageName ∧ torSwitch prefs packageName = true

/-- A package other than Orbot of a torified app that `getApps` lists, as it uses the internet. -/
def ListedTorified (ownPackage : String) (pMgr : PackageManager) (prefs : SharedPreferences)
    (packageName : String) : Prop :=
  packageName ≠ ownPackage ∧ ∃ aInfo ∈ pMgr.installedApplications,
    usesInternet pMgr aInfo = true ∧ IsTorified pMgr prefs aInfo ∧
      aInfo.packageName = packageName

/-- Orbot is not captured and, when an app is torified, only those installed apps are that are
torified and whose switch is on. -/
structure RoutesAsChosen (ownPackage : String) (pMgr : PackageManager)
    (prefs : SharedPreferences) (builder : Builder) : Prop where
  notItself : ¬ builder.Routes ownPackage
  chosen : (∃ packageName, Torified ownPackage pMgr prefs packageName) →
    ∀ aInfo ∈ pMgr.installedApplications, builder.Routes aInfo.packageName →
      SwitchedOn ownPackage pMgr prefs aInfo.packageName

/-- If an app is torified, then one that uses the internet has its switch on, or none of the
torified apps uses the internet and every installed app is torified with its switch on. -/
def SwitchesSuffice (ownPackage : String) (pMgr : PackageManager) (prefs : SharedPreferences) :
    Prop :=
  (∃ packageName, Torified ownPackage pMgr prefs packageName) →
    (∃ packageName, ListedTorified ownPackage pMgr prefs packageName ∧
      torSwitch prefs packageName = true) ∨
    (¬ ∃ packageName, ListedTorified ownPackage pMgr prefs packageName) ∧
      ∀ aInfo ∈ pMgr.installedApplications, aInfo.packageName ≠ ownPackage →
        SwitchedOn ownPackage pMgr prefs aInfo.packageName

theorem ListedTorified.torified {ownPackage : String} {pMgr : PackageManager}
    {prefs : SharedPreferences} {packageName : String}
    (h : ListedTorified ownPackage pMgr prefs packageName) :
    Torified ownPackage pMgr prefs packageName := by
  obtain ⟨hother, aInfo, hinstalled, -, htorified, hname⟩ := h
  exact ⟨hother, aInfo, hinstalled, htorified, hname⟩

theorem mem_torifiedPackages {ownPackage : String} {foldCase : Char → Char}
    {pMgr : PackageManager} {prefs : SharedPreferences} {apps : List TorifiedApp}
    (h : getApps foldCase pMgr prefs = some apps) {packageName : String} :
    packageName ∈ torifiedPackages ownPackage apps ↔
      ListedTorified ownPackage pMgr prefs packageName := by
  simp only [torifiedPackages, List.mem_map, List.mem_filter, mem_getApps h, ListedTorified]
  constructor
  · rintro ⟨app, ⟨⟨aInfo, hinstalled, hinternet, rfl⟩, htorified⟩, rfl⟩
    simp only [torifiedApp, Bool.and_eq_true, decide_eq_true_eq, bne_iff_ne] at htorified
    exact ⟨htorified.2, aInfo, hinstalled, hinternet, htorified.1, rfl⟩
  · rintro ⟨hother, aInfo, hinstalled, hinternet, htorified, rfl⟩
    refine ⟨_, ⟨⟨aInfo, hinstalled, hinternet, rfl⟩, ?_⟩, rfl⟩
    simp [torifiedApp, htorified, hother]

section Routing

variable {ownPackage : String} {pMgr : PackageManager} {prefs : SharedPreferences}

/-- Without a torified app in the list all but Orbot is captured. -/
theorem routesAsChosen_disallowed_iff
    (hnone : ∀ packageName, ¬ ListedTorified ownPackage pMgr prefs packageName) :
    RoutesAsChosen ownPackage pMgr prefs ⟨[], [ownPackage]⟩ ↔
      SwitchesSuffice ownPackage pMgr prefs := by
  have hroutes (packageName : String) :
      Builder.Routes ⟨[], [ownPackage]⟩ packageName ↔ packageName ≠ ownPackage := by
    simp [Builder.Routes]
  constructor
  · intro h hsome
    refine .inr ⟨fun ⟨packageName, hlisted⟩ ↦ hnone packageName hlisted, ?_⟩
    intro aInfo hinstalled hother
    exact h.chosen hsome aInfo hinstalled ((hroutes _).mpr hother)
  · intro h
    refine ⟨fun hself ↦ (hroutes _).mp hself rfl, fun hsome aInfo hinstalled hrouted ↦ ?_⟩
    rcases h hsome with ⟨packageName, hlisted, -⟩ | ⟨-, hall⟩
    · exact absurd hlisted (hnone packageName)
    · exact hall aInfo hinstalled ((hroutes _).mp hrouted)

/-- With torified apps in the list those are captured whose switch is on, or everything. -/
theorem routesAsChosen_allowed_iff {torified : List String} (hne : torified ≠ [])
    (hmem : ∀ packageName, packageName ∈ torified ↔
      ListedTorified ownPackage pMgr prefs packageName) :
    RoutesAsChosen ownPackage pMgr prefs ⟨torified.filter (torSwitch prefs), []⟩ ↔
      SwitchesSuffice ownPackage pMgr prefs := by
  obtain ⟨someTorified, hsome⟩ := List.exists_mem_of_ne_nil torified hne
  have hlisted := (hmem someTorified).mp hsome
  by_cases hoff : torified.filter (torSwitch prefs) = []
  · -- all are switched off: everything is captured, also Orbot
    refine iff_of_false (fun hroutes ↦ hroutes.notItself ?_) fun hon ↦ ?_
    · simp [Builder.Routes, hoff]
    · rcases hon ⟨someTorified, hlisted.torified⟩ with
        ⟨packageName, htorified, hswitch⟩ | ⟨hnone, -⟩
      · exact List.filter_eq_nil_iff.mp hoff packageName ((hmem _).mpr htorified) hswitch
      · exact hnone ⟨someTorified, hlisted⟩
  · have hroutes (packageName : String) :
        Builder.Routes ⟨torified.filter (torSwitch prefs), []⟩ packageName ↔
          ListedTorified ownPackage pMgr prefs packageName ∧
            torSwitch prefs packageName = true := by
      rw [Builder.Routes, if_neg hoff, List.mem_filter, hmem]
    obtain ⟨chosen, hchosen⟩ := List.exists_mem_of_ne_nil _ hoff
    have hon : torSwitch prefs chosen = true := (List.mem_filter.mp hchosen).2
    refine iff_of_true ⟨fun hself ↦ ?_, fun _ aInfo _ hrouted ↦ ?_⟩ fun _ ↦
      .inl ⟨chosen, (hmem chosen).mp (List.mem_filter.mp hchosen).1, hon⟩
    · exact ((hroutes ownPackage).mp hself).1.1 rfl
    · exact ((hroutes _).mp hrouted).imp_left ListedTorified.torified

end Routing

/-- The VPN captures what the user chose just if the switches of the torified apps suffice. -/
theorem routesAsChosen_iff (ownPackage : String) (foldCase : Char → Char)
    (pMgr : PackageManager) (prefs : SharedPreferences) (builder : Builder)
    (h : doLollipopAppRouting ownPackage foldCase pMgr prefs Builder.new = some builder) :
    RoutesAsChosen ownPackage pMgr prefs builder ↔ SwitchesSuffice ownPackage pMgr prefs := by
  cases happs : getApps foldCase pMgr prefs with
  | none => simp [doLollipopAppRouting, happs] at h
  | some apps =>
    rw [doLollipopAppRouting_new happs] at h
    obtain rfl := Option.some_inj.mp h
    have hmem (packageName : String) : packageName ∈ torifiedPackages ownPackage apps ↔
        ListedTorified ownPackage pMgr prefs packageName := mem_torifiedPackages happs
    by_cases hnone : torifiedPackages ownPackage apps = []
    · rw [hnone] at hmem ⊢
      exact routesAsChosen_disallowed_iff fun packageName hlisted ↦
        List.not_mem_nil ((hmem packageName).mpr hlisted)
    · rw [if_neg hnone]
      exact routesAsChosen_allowed_iff hnone hmem

/-! ## Two apps on one phone -/

def orbotPackage : String := "org.torproject.android"

def browserPackage : String := "org.example.browser"

/-- Orbot and a browser, both with the internet permission and with their packages' user names. -/
def twoApps : PackageManager where
  installedApplications :=
    [⟨orbotPackage, orbotPackage, 10001, true, 0⟩, ⟨browserPackage, browserPackage, 10002, true, 0⟩]
  requestedPermissions _ := some [permissionInternet]
  nameForUid uid := some (if uid = 10001 then orbotPackage else browserPackage)
  applicationLabel _ := none

/-- The browser is torified, and its switch is on or off. -/
def browserTorified (switch : Bool) : SharedPreferences where
  strings _ := some (browserPackage ++ "|")
  booleans _ := some switch

theorem routesAsChosen_iff_browser :
    RoutesAsChosen orbotPackage twoApps (browserTorified true) ⟨[browserPackage], []⟩ ↔
      SwitchesSuffice orbotPackage twoApps (browserTorified true) :=
  routesAsChosen_iff orbotPackage id twoApps (browserTorified true) ⟨[browserPackage], []⟩
    (by decide +kernel)

/-- With the switch of the only torified app off, Orbot is captured. -/
theorem routing_captures_orbot :
    ¬ ∀ (ownPackage : String) (foldCase : Char → Char) (pMgr : PackageManager)
      (prefs : SharedPreferences) (builder : Builder),
      doLollipopAppRouting ownPackage foldCase pMgr prefs Builder.new = some builder →
        RoutesAsChosen ownPackage pMgr prefs builder := by
  intro h
  have hroutes := h orbotPackage id twoApps (browserTorified false) Builder.new
    (by decide +kernel)
  exact hroutes.notItself (by decide)

end Orbot.Vpn
