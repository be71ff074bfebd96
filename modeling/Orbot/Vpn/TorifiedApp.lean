import Mathlib.Data.String.Basic
import Orbot.Foundation.JavaString
import Orbot.Foundation.SortedSearch

/-!
# The apps that can be sent through Tor

`TorifiedApp.getApps` lists the installed apps that use the internet and marks those whose user
name is in the stored list of torified apps. What the package manager answers and what the
preferences hold are parameters.
-/

namespace Orbot.Vpn

open Orbot.Foundation

/-- The stored preferences. -/
structure SharedPreferences where
  strings : String → Option String
  booleans : String → Option Bool

def SharedPreferences.getString (prefs : SharedPreferences) (key default : String) : String :=
  (prefs.strings key).getD default

def SharedPreferences.getBoolean (prefs : SharedPreferences) (key : String) (default : Bool) :
    Bool :=
  (prefs.booleans key).getD default

def PREFS_KEY_TORIFIED : String := "PrefTord"

structure ApplicationInfo where
  packageName : String
  processName : String
  uid : Int32
  enabled : Bool
  flags : Int32
  deriving DecidableEq

/-- What the package manager answers; `none` is `null` or an exception that the caller catches. -/
structure PackageManager where
  installedApplications : List ApplicationInfo
  requestedPermissions : String → Option (List String)
  nameForUid : Int32 → Option String
  applicationLabel : ApplicationInfo → Option String

structure TorifiedApp where
  enabled : Bool
  uid : Int32
  username : Option String
  procname : String
  name : String
  packageName : String
  torified : Bool
  usesInternet : Bool
  deriving DecidableEq

def FLAG_SYSTEM : Int32 := 1

def permissionInternet : String := "android.permission.INTERNET"

/-- An app that asks for the internet permission, or a system app. -/
def usesInternet (pMgr : PackageManager) (aInfo : ApplicationInfo) : Bool :=
  ((pMgr.requestedPermissions aInfo.packageName).getD []).contains permissionInternet ||
    aInfo.flags &&& FLAG_SYSTEM == 1

/-- Whether the search finds a user name; comparing with `null` throws, unless there is nothing
to compare with. -/
def isTordApp (tordApps : List String) (username : Option String) : Option Bool :=
  match username with
  | some username => some (decide (0 ≤ binarySearch tordApps username))
  | none => if tordApps = [] then some false else none

/-- The entry for an installed app that uses the internet. -/
def torifiedApp (pMgr : PackageManager) (aInfo : ApplicationInfo) (torified : Bool) :
    TorifiedApp where
  enabled := aInfo.enabled
  uid := aInfo.uid
  username := pMgr.nameForUid aInfo.uid
  procname := aInfo.processName
  name := (pMgr.applicationLabel aInfo).getD aInfo.packageName
  packageName := aInfo.packageName
  torified := torified
  usesInternet := true

/-- The loop over the installed apps; `none` when an exception leaves it. -/
def loadApps (pMgr : PackageManager) (tordApps : List String) :
    List ApplicationInfo → Option (List TorifiedApp)
  | [] => some []
  | aInfo :: rest =>
      if usesInternet pMgr aInfo then do
        let torified ← isTordApp tordApps (pMgr.nameForUid aInfo.uid)
        let apps ← loadApps pMgr tordApps rest
        return torifiedApp pMgr aInfo torified :: apps
      else loadApps pMgr tordApps rest

/-- The order of the app names without regard to case; `foldCase` is `Character.toLowerCase` of
`Character.toUpperCase`. -/
def nameNotAfter (foldCase : Char → Char) (app another : TorifiedApp) : Prop :=
  app.name.toList.map foldCase ≤ another.name.toList.map foldCase

instance (foldCase : Char → Char) (app another : TorifiedApp) :
    Decidable (nameNotAfter foldCase app another) :=
  inferInstanceAs (Decidable (_ ≤ _))

/-- The tokens of the stored list. -/
def storedTordApps (prefs : SharedPreferences) : List String :=
  tokens '|' (prefs.getString PREFS_KEY_TORIFIED "")

/-- `TorifiedApp.getApps`. The tokens are sorted for the search, in any one linear order, and the
apps for the display. -/
def getApps (foldCase : Char → Char) (pMgr : PackageManager) (prefs : SharedPreferences) :
    Option (List TorifiedApp) :=
  (loadApps pMgr ((storedTordApps prefs).insertionSort (· ≤ ·))
    pMgr.installedApplications).map fun apps ↦ apps.insertionSort (nameNotAfter foldCase)

/-! ## What the list holds -/

/-- The user name of an installed app is in the stored list. -/
def IsTorified (pMgr : PackageManager) (prefs : SharedPreferences) (aInfo : ApplicationInfo) :
    Prop :=
  ∃ username ∈ pMgr.nameForUid aInfo.uid, username ∈ storedTordApps prefs

instance (pMgr : PackageManager) (prefs : SharedPreferences) (aInfo : ApplicationInfo) :
    Decidable (IsTorified pMgr prefs aInfo) :=
  inferInstanceAs (Decidable (∃ username ∈ pMgr.nameForUid aInfo.uid, _))

theorem isTordApp_eq_some {pMgr : PackageManager} {prefs : SharedPreferences}
    {aInfo : ApplicationInfo} {torified : Bool}
    (h : isTordApp ((storedTordApps prefs).insertionSort (· ≤ ·)) (pMgr.nameForUid aInfo.uid) =
      some torified) : torified = decide (IsTorified pMgr prefs aInfo) := by
  unfold IsTorified
  unfold isTordApp at h
  split at h
  · next username hname =>
    rw [← Option.some_inj.mp h]
    simp [binarySearch_insertionSort_nonneg_iff, hname]
  · next hname =>
    split at h
    · rw [← Option.some_inj.mp h]
      simp [hname]
    · simp at h

/-- The loop of a loader with any filter; the loaders differ in the apps that they list. -/
def loadListed (lists : ApplicationInfo → Bool) (pMgr : PackageManager) (tordApps : List String) :
    List ApplicationInfo → Option (List TorifiedApp)
  | [] => some []
  | aInfo :: rest =>
      if lists aInfo then do
        let torified ← isTordApp tordApps (pMgr.nameForUid aInfo.uid)
        let apps ← loadListed lists pMgr tordApps rest
        return torifiedApp pMgr aInfo torified :: apps
      else loadListed lists pMgr tordApps rest

theorem loadApps_eq_loadListed (pMgr : PackageManager) (tordApps : List String)
    (installed : List ApplicationInfo) :
    loadApps pMgr tordApps installed = loadListed (usesInternet pMgr) pMgr tordApps installed := by
  induction installed with
  | nil => rfl
  | cons aInfo rest ih => rw [loadApps, loadListed, ih]

/-- The loop keeps the apps that it lists, in their order. -/
theorem loadListed_eq_some {lists : ApplicationInfo → Bool} {pMgr : PackageManager}
    {prefs : SharedPreferences} (installed : List ApplicationInfo) {apps : List TorifiedApp}
    (h : loadListed lists pMgr ((storedTordApps prefs).insertionSort (· ≤ ·)) installed =
      some apps) :
    apps = (installed.filter lists).map fun aInfo ↦
      torifiedApp pMgr aInfo (decide (IsTorified pMgr prefs aInfo)) := by
  induction installed generalizing apps with
  | nil => simpa [loadListed, eq_comm] using h
  | cons aInfo rest ih =>
    rw [loadListed] at h
    split at h
    · next hlisted =>
      simp only [Option.bind_eq_bind, Option.bind_eq_some_iff, Option.pure_def,
        Option.some_inj] at h
      obtain ⟨torified, htorified, others, hothers, rfl⟩ := h
      rw [List.filter_cons_of_pos hlisted, List.map_cons, ih hothers,
        isTordApp_eq_some htorified]
    · next hlisted =>
      rw [List.filter_cons_of_neg hlisted]
      exact ih h

/-- With a user name for each app no exception leaves the loop. -/
theorem isSome_loadListed {lists : ApplicationInfo → Bool} {pMgr : PackageManager}
    (tordApps : List String) {installed : List ApplicationInfo}
    (hnames : ∀ aInfo ∈ installed, (pMgr.nameForUid aInfo.uid).isSome) :
    (loadListed lists pMgr tordApps installed).isSome := by
  induction installed with
  | nil => rfl
  | cons aInfo rest ih =>
    have hrest := ih fun other hother ↦ hnames other (List.mem_cons_of_mem _ hother)
    rw [loadListed]
    split
    · obtain ⟨username, husername⟩ := Option.isSome_iff_exists.mp
        (hnames aInfo List.mem_cons_self)
      obtain ⟨apps, happs⟩ := Option.isSome_iff_exists.mp hrest
      simp [isTordApp, husername, happs]
    · exact hrest

/-- The loop keeps the apps that use the internet, in their order. -/
theorem loadApps_eq_some {pMgr : PackageManager} {prefs : SharedPreferences}
    (installed : List ApplicationInfo) {apps : List TorifiedApp}
    (h : loadApps pMgr ((storedTordApps prefs).insertionSort (· ≤ ·)) installed = some apps) :
    apps = (installed.filter (usesInternet pMgr)).map fun aInfo ↦
      torifiedApp pMgr aInfo (decide (IsTorified pMgr prefs aInfo)) :=
  loadListed_eq_some installed ((loadApps_eq_loadListed _ _ _).symm.trans h)

/-- The entries of `getApps` are those of the apps that use the internet. -/
theorem mem_getApps {foldCase : Char → Char} {pMgr : PackageManager} {prefs : SharedPreferences}
    {apps : List TorifiedApp} (h : getApps foldCase pMgr prefs = some apps) {app : TorifiedApp} :
    app ∈ apps ↔ ∃ aInfo ∈ pMgr.installedApplications, usesInternet pMgr aInfo = true ∧
      torifiedApp pMgr aInfo (decide (IsTorified pMgr prefs aInfo)) = app := by
  obtain ⟨loaded, hloaded, rfl⟩ := Option.map_eq_some_iff.mp h
  rw [List.mem_insertionSort, loadApps_eq_some _ hloaded]
  simp [and_assoc]

end Orbot.Vpn
