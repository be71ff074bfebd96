import Orbot.Foundation.TextParts
import Orbot.Vpn.AppRouting

/-!
# Selecting the apps that go through Tor

`AppManagerActivity` writes the user names of the selected apps into one text, each with a bar after
it. The loader of the VPN and the loader of the activity cut that text into names again. They list
different apps, and agree about every app that both list.
-/

namespace Orbot.Vpn

open Orbot.Foundation

def SharedPreferences.putString (key value : String) (prefs : SharedPreferences) :
    SharedPreferences :=
  { prefs with strings := fun other ↦ if other = key then some value else prefs.strings other }

/-- The preferences with the user names of the selected apps, and the extras of the result; a
missing name is written as `null`. -/
def saveAppSettings (mApps : List TorifiedApp) (prefs : SharedPreferences) :
    SharedPreferences × List (Option String) :=
  let selected := mApps.filter fun app ↦ app.torified
  let tordApps := String.join (selected.map fun app ↦ app.username.getD "null" ++ "|")
  (prefs.putString PREFS_KEY_TORIFIED tordApps, selected.map fun app ↦ app.username)

/-- An app that asks for the internet permission. -/
def asksForInternet (pMgr : PackageManager) (aInfo : ApplicationInfo) : Bool :=
  ((pMgr.requestedPermissions aInfo.packageName).getD []).contains permissionInternet

namespace AppManagerActivity

/-- An app that is enabled and is not Orbot. -/
def includeAppInUi (APPLICATION_ID : String) (aInfo : ApplicationInfo) : Bool :=
  if aInfo.enabled then !(APPLICATION_ID == aInfo.packageName) else false

/-- The apps that the activity lists have names and ask for the internet. -/
def listsApp (APPLICATION_ID : String) (pMgr : PackageManager) (aInfo : ApplicationInfo) : Bool :=
  includeAppInUi APPLICATION_ID aInfo && (pMgr.applicationLabel aInfo).isSome &&
    asksForInternet pMgr aInfo

/-- `AppManagerActivity.getApps`, with the filters of its loop in front. -/
def getApps (foldCase : Char → Char) (APPLICATION_ID : String) (pMgr : PackageManager)
    (prefs : SharedPreferences) : Option (List TorifiedApp) :=
  (loadListed (listsApp APPLICATION_ID pMgr) pMgr
    ((storedTordApps prefs).insertionSort (· ≤ ·)) pMgr.installedApplications).map
      fun apps ↦ apps.insertionSort (nameNotAfter foldCase)

end AppManagerActivity

/-! ## Names -/

/-- A user name that can be stored in the list. -/
def IsPlainUsername (username : Option String) : Prop :=
  ∃ name ∈ username, name ≠ "" ∧ '|' ∉ name.toList

/-- All installed apps have such names. -/
def HasPlainUsernames (pMgr : PackageManager) : Prop :=
  ∀ aInfo ∈ pMgr.installedApplications, IsPlainUsername (pMgr.nameForUid aInfo.uid)

/-- The user name is that of a selected app. -/
def IsSelected (mApps : List TorifiedApp) (username : Option String) : Prop :=
  ∃ app ∈ mApps, app.torified = true ∧ app.username = username

theorem storedTordApps_putString (value : String) (prefs : SharedPreferences) :
    storedTordApps (prefs.putString PREFS_KEY_TORIFIED value) = tokens '|' value := by
  simp [storedTordApps, SharedPreferences.getString, SharedPreferences.putString]

/-- The stored list consists of the names of the selected apps. -/
theorem storedTordApps_saveAppSettings {mApps : List TorifiedApp}
    (hnames : ∀ app ∈ mApps, IsPlainUsername app.username) (prefs : SharedPreferences) :
    storedTordApps (saveAppSettings mApps prefs).1 =
      (mApps.filter fun app ↦ app.torified).map fun app ↦ app.username.getD "null" := by
  have hplain : ∀ name ∈ (mApps.filter fun app ↦ app.torified).map
      fun app ↦ app.username.getD "null", name ≠ "" ∧ '|' ∉ name.toList := by
    intro name hname
    obtain ⟨app, happ, rfl⟩ := List.mem_map.mp hname
    obtain ⟨username, husername, hvalid⟩ := hnames app (List.mem_filter.mp happ).1
    rw [Option.mem_def.mp husername]
    exact hvalid
  have hjoined := tokens_join hplain
  rw [List.map_map] at hjoined
  rw [saveAppSettings, storedTordApps_putString]
  exact hjoined

/-- After the selection is saved, an installed app counts as torified if its name is selected. -/
theorem isTorified_saveAppSettings {pMgr : PackageManager} {mApps : List TorifiedApp}
    (hnames : ∀ app ∈ mApps, IsPlainUsername app.username) (prefs : SharedPreferences)
    {aInfo : ApplicationInfo} (hname : IsPlainUsername (pMgr.nameForUid aInfo.uid)) :
    IsTorified pMgr (saveAppSettings mApps prefs).1 aInfo ↔
      IsSelected mApps (pMgr.nameForUid aInfo.uid) := by
  obtain ⟨username, husername, -⟩ := hname
  rw [IsTorified, storedTordApps_saveAppSettings hnames, Option.mem_def.mp husername]
  constructor
  · rintro ⟨found, hfound, hstored⟩
    obtain ⟨app, happ, hsame⟩ := List.mem_map.mp hstored
    obtain ⟨hmem, htorified⟩ := List.mem_filter.mp happ
    obtain ⟨appName, happName, -⟩ := hnames app hmem
    refine ⟨app, hmem, htorified, ?_⟩
    rw [Option.mem_def.mp happName] at hsame ⊢
    exact (congrArg some hsame).trans (Option.mem_def.mp hfound).symm
  · rintro ⟨app, hmem, htorified, hsame⟩
    refine ⟨username, rfl, List.mem_map.mpr ⟨app, List.mem_filter.mpr ⟨hmem, htorified⟩, ?_⟩⟩
    rw [hsame]
    rfl

/-! ## Loading the apps -/

section Loading

variable {pMgr : PackageManager} {mApps : List TorifiedApp}

/-- The packages of the installed apps that a loader lists. -/
def listedPackages (lists : ApplicationInfo → Bool) (pMgr : PackageManager) : List String :=
  (pMgr.installedApplications.filter lists).map ApplicationInfo.packageName

/-- Every loader marks the apps that it lists by the selection. -/
theorem torified_of_loadListed (lists : ApplicationInfo → Bool)
    (hplain : HasPlainUsernames pMgr) (hnames : ∀ app ∈ mApps, IsPlainUsername app.username)
    (prefs : SharedPreferences) :
    ∃ apps, loadListed lists pMgr
        ((storedTordApps (saveAppSettings mApps prefs).1).insertionSort (· ≤ ·))
        pMgr.installedApplications = some apps ∧
      apps.map TorifiedApp.packageName = listedPackages lists pMgr ∧
      ∀ app ∈ apps, app.username = pMgr.nameForUid app.uid ∧
        (app.torified = true ↔ IsSelected mApps app.username) := by
  have hsome : ∀ aInfo ∈ pMgr.installedApplications, (pMgr.nameForUid aInfo.uid).isSome := by
    intro aInfo haInfo
    obtain ⟨name, hname, -⟩ := hplain aInfo haInfo
    exact Option.isSome_of_mem hname
  have hlisted : (loadListed lists pMgr
      ((storedTordApps (saveAppSettings mApps prefs).1).insertionSort (· ≤ ·))
      pMgr.installedApplications).isSome := isSome_loadListed _ hsome
  obtain ⟨apps, happs⟩ := Option.isSome_iff_exists.mp hlisted
  have hlist := loadListed_eq_some _ happs
  refine ⟨apps, happs, ?_, fun app happ ↦ ?_⟩
  · rw [hlist, List.map_map]
    rfl
  rw [hlist] at happ
  obtain ⟨aInfo, haInfo, rfl⟩ := List.mem_map.mp happ
  have hinstalled := (List.mem_filter.mp haInfo).1
  refine ⟨rfl, ?_⟩
  simp only [torifiedApp, decide_eq_true_eq]
  exact isTorified_saveAppSettings hnames prefs (hplain aInfo hinstalled)

end Loading

/-- The entries of the activity are those of installed apps. -/
def AreInstalled (pMgr : PackageManager) (mApps : List TorifiedApp) : Prop :=
  ∀ app ∈ mApps, ∃ aInfo ∈ pMgr.installedApplications, app.username = pMgr.nameForUid aInfo.uid

/-- Orbot and a browser, with labels. -/
def labelledApps : PackageManager :=
  { twoApps with applicationLabel := fun aInfo ↦ some aInfo.packageName }

/-- The browser is selected in the activity, Orbot is not. -/
def browserSelected : List TorifiedApp :=
  [torifiedApp labelledApps ⟨orbotPackage, orbotPackage, 10001, true, 0⟩ false,
    torifiedApp labelledApps ⟨browserPackage, browserPackage, 10002, true, 0⟩ true]

end Orbot.Vpn
