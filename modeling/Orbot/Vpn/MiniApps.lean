import Mathlib.Order.SymmDiff
import Mathlib.Data.Finset.SymmDiff
import Orbot.Foundation.System
import Orbot.Vpn.AppManager

/-!
# Adding and removing apps on small screens

On the phone-size and the television app `AppManagerActivity` adds an app by a click, and
`AppConfigActivity.removeApp` removes one. The first rewrites the stored list from `mApps`, which is
loaded once in a process; the second cuts the name out of the stored list and leaves `mApps` as it
is. So the stored list holds the chosen apps in the runs in which every click finds an `mApps` that
marks just the stored apps.

A removal cuts a name out wherever it ends a stored name, so it keeps the other names only if it
ends none of them.
-/

namespace Orbot.Vpn

open Orbot.Foundation

namespace MiniApps

/-- The apps that the activity lists: enabled, with a name, and asking for the internet. -/
def listsApp (pMgr : PackageManager) (aInfo : ApplicationInfo) : Bool :=
  aInfo.enabled && (pMgr.applicationLabel aInfo).isSome && asksForInternet pMgr aInfo

/-- `getApps` of the activity, with the filters of its loop in front. -/
def getApps (foldCase : Char → Char) (pMgr : PackageManager) (prefs : SharedPreferences) :
    Option (List TorifiedApp) :=
  (loadListed (listsApp pMgr) pMgr ((storedTordApps prefs).insertionSort (· ≤ ·))
    pMgr.installedApplications).map fun apps ↦ apps.insertionSort (nameNotAfter foldCase)

/-- A click changes the mark of the app that is clicked. -/
def toggle (packageName : String) (app : TorifiedApp) : TorifiedApp :=
  if app.packageName = packageName then { app with torified := !app.torified } else app

/-- `AppConfigActivity.removeApp`. -/
def removeApp (packageName : String) (prefs : SharedPreferences) : SharedPreferences :=
  prefs.putString PREFS_KEY_TORIFIED
    (removeAll (packageName ++ "|") (prefs.getString PREFS_KEY_TORIFIED ""))

/-- The preferences and the static list of one process, with the apps that were chosen. -/
structure MiniState where
  prefs : SharedPreferences
  mApps : Option (List TorifiedApp)
  /-- The apps whose most recent operation added them. -/
  chosen : Finset String

inductive MiniAction where
  /-- The activity is shown and loads its list, if there is none. -/
  | onResume
  /-- The list is dropped and loaded again. -/
  | refreshApps
  | onClick (packageName : String)
  | removeApp (packageName : String)
  deriving DecidableEq

/-- What the screens offer: a click on a listed app, and the removal of an installed one. -/
def Enabled (pMgr : PackageManager) (s : MiniState) : MiniAction → Prop
  | .onResume | .refreshApps => True
  | .onClick packageName => ∃ apps ∈ s.mApps, ∃ app ∈ apps, app.packageName = packageName
  | .removeApp packageName => ∃ aInfo ∈ pMgr.installedApplications,
      asksForInternet pMgr aInfo = true ∧ aInfo.packageName = packageName

instance decidableEnabled (pMgr : PackageManager) (s : MiniState) :
    ∀ action, Decidable (Enabled pMgr s action)
  | .onResume | .refreshApps => inferInstanceAs (Decidable True)
  | .onClick _ => inferInstanceAs (Decidable (∃ apps ∈ s.mApps, _))
  | .removeApp _ => inferInstanceAs (Decidable (∃ aInfo ∈ pMgr.installedApplications, _))

/-- The activities of one process. A click chooses an app or drops it, whichever it was. -/
def system (foldCase : Char → Char) (pMgr : PackageManager) (prefs : SharedPreferences) :
    System MiniState MiniAction where
  init := ⟨prefs, none, (storedTordApps prefs).toFinset⟩
  enabled := Enabled pMgr
  next s
    | .onResume => { s with mApps := s.mApps.or (getApps foldCase pMgr s.prefs) }
    | .refreshApps => { s with mApps := getApps foldCase pMgr s.prefs }
    | .onClick packageName =>
        let apps := (s.mApps.getD []).map (toggle packageName)
        { prefs := (saveAppSettings apps s.prefs).1
          mApps := some apps
          chosen := symmDiff s.chosen {packageName} }
    | .removeApp packageName =>
        { s with
          prefs := removeApp packageName s.prefs
          chosen := s.chosen.erase packageName }

instance decidableSystemEnabled (foldCase : Char → Char) (pMgr : PackageManager)
    (prefs : SharedPreferences) (s : MiniState) (action : MiniAction) :
    Decidable ((system foldCase pMgr prefs).enabled s action) :=
  inferInstanceAs (Decidable (Enabled pMgr s action))

/-- The stored list holds the chosen apps. -/
def Denotes (s : MiniState) : Prop := (storedTordApps s.prefs).toFinset = s.chosen

instance decidableDenotes (s : MiniState) : Decidable (Denotes s) :=
  inferInstanceAs (Decidable (_ = _))

/-- The apps that a list marks. -/
def marked (apps : List TorifiedApp) : Finset String :=
  ((apps.filter fun app ↦ app.torified).map fun app ↦ app.packageName).toFinset

/-- A click finds a list that marks just the stored apps. -/
def ClicksFreshList (s : MiniState) : MiniAction → Prop
  | .onClick _ => ∀ apps ∈ s.mApps, marked apps = (storedTordApps s.prefs).toFinset
  | _ => True

instance decidableClicksFreshList (s : MiniState) : ∀ action, Decidable (ClicksFreshList s action)
  | .onClick _ => inferInstanceAs (Decidable (∀ apps ∈ s.mApps, _))
  | .onResume | .refreshApps | .removeApp _ => inferInstanceAs (Decidable True)

/-! ## Installed apps -/

/-- A package name consists of letters, digits, underscores and dots. -/
def IsPackageName (name : String) : Prop :=
  name ≠ "" ∧ ∀ c ∈ name.toList, c.isAlphanum ∨ c = '_' ∨ c = '.'

instance IsPackageName.decidable (name : String) : Decidable (IsPackageName name) :=
  haveI : Decidable (∀ c ∈ name.toList, c.isAlphanum ∨ c = '_' ∨ c = '.') :=
    List.decidableBAll _ _
  instDecidableAnd

/-- The apps that ask for the internet have their package names as user names, and none of these
names ends with another. -/
structure AppSet (pMgr : PackageManager) : Prop where
  username : ∀ aInfo ∈ pMgr.installedApplications, asksForInternet pMgr aInfo = true →
    pMgr.nameForUid aInfo.uid = some aInfo.packageName
  packageName : ∀ aInfo ∈ pMgr.installedApplications, asksForInternet pMgr aInfo = true →
    IsPackageName aInfo.packageName
  suffix : ∀ aInfo ∈ pMgr.installedApplications, asksForInternet pMgr aInfo = true →
    ∀ other ∈ pMgr.installedApplications, asksForInternet pMgr other = true →
      aInfo.packageName.toList <:+ other.packageName.toList →
        aInfo.packageName = other.packageName

/-- The name of an app that the activity lists. -/
def IsListed (pMgr : PackageManager) (name : String) : Prop :=
  ∃ aInfo ∈ pMgr.installedApplications, listsApp pMgr aInfo = true ∧ aInfo.packageName = name

/-- The stored text holds names of listed apps, each with a bar after it. -/
def StoresApps (pMgr : PackageManager) (prefs : SharedPreferences) : Prop :=
  ∃ names : List String, prefs.getString PREFS_KEY_TORIFIED "" =
    String.join (names.map (· ++ String.singleton '|')) ∧ ∀ name ∈ names, IsListed pMgr name

/-- What holds of the stored text and of the list, whether or not they agree. -/
structure Consistent (pMgr : PackageManager) (s : MiniState) : Prop where
  stored : StoresApps pMgr s.prefs
  loaded : ∀ apps ∈ s.mApps, ∃ marks : String → Bool, ∀ app ∈ apps,
    app.torified = marks app.packageName ∧ app.username = some app.packageName ∧
      IsListed pMgr app.packageName

section Steps

variable {foldCase : Char → Char} {pMgr : PackageManager} {prefs : SharedPreferences}
  {s : MiniState}

theorem IsListed.asksForInternet {name : String} (h : IsListed pMgr name) :
    ∃ aInfo ∈ pMgr.installedApplications, asksForInternet pMgr aInfo = true ∧
      aInfo.packageName = name := by
  obtain ⟨aInfo, hinstalled, hlisted, hname⟩ := h
  rw [listsApp, Bool.and_eq_true] at hlisted
  exact ⟨aInfo, hinstalled, hlisted.2, hname⟩

/-- A name that can be stored. -/
theorem AppSet.storable (hset : AppSet pMgr) {name : String} (h : IsListed pMgr name) :
    name ≠ "" ∧ '|' ∉ name.toList := by
  obtain ⟨aInfo, hinstalled, hasks, rfl⟩ := h.asksForInternet
  obtain ⟨hne, hchars⟩ := hset.packageName aInfo hinstalled hasks
  exact ⟨hne, fun hbar ↦ absurd (hchars _ hbar) (by decide)⟩

theorem getString_putString (value : String) :
    (prefs.putString PREFS_KEY_TORIFIED value).getString PREFS_KEY_TORIFIED "" = value := by
  simp [SharedPreferences.getString, SharedPreferences.putString]

/-- The stored text holds the names it was put together from. -/
theorem storedTordApps_of_join (hset : AppSet pMgr) {names : List String}
    (htext : prefs.getString PREFS_KEY_TORIFIED "" =
      String.join (names.map (· ++ String.singleton '|')))
    (hnames : ∀ name ∈ names, IsListed pMgr name) : storedTordApps prefs = names := by
  rw [storedTordApps, htext]
  exact tokens_join fun name hname ↦ hset.storable (hnames name hname)

/-- Removing an app keeps the other names. -/
theorem removeApp_spec (hset : AppSet pMgr) (hstored : StoresApps pMgr prefs)
    {packageName : String} (hasks : ∃ aInfo ∈ pMgr.installedApplications,
      asksForInternet pMgr aInfo = true ∧ aInfo.packageName = packageName) :
    StoresApps pMgr (removeApp packageName prefs) ∧
      storedTordApps (removeApp packageName prefs) =
        (storedTordApps prefs).filter (· ≠ packageName) := by
  obtain ⟨names, htext, hnames⟩ := hstored
  obtain ⟨aInfo, hinstalled, hinternet, rfl⟩ := hasks
  have hbar : '|' ∉ aInfo.packageName.toList := fun h ↦
    absurd ((hset.packageName aInfo hinstalled hinternet).2 _ h) (by decide)
  have hremoved : (removeApp aInfo.packageName prefs).getString PREFS_KEY_TORIFIED "" =
      String.join ((names.filter (· ≠ aInfo.packageName)).map (· ++ String.singleton '|')) := by
    rw [removeApp, getString_putString, htext]
    refine removeAll_join hbar fun name hname ↦ ⟨(hset.storable (hnames name hname)).2, ?_⟩
    obtain ⟨other, hother, hasks, rfl⟩ := (hnames name hname).asksForInternet
    exact hset.suffix aInfo hinstalled hinternet other hother hasks
  have hkept : ∀ name ∈ names.filter (· ≠ aInfo.packageName), IsListed pMgr name :=
    fun name hname ↦ hnames name (List.mem_filter.mp hname).1
  refine ⟨⟨_, hremoved, hkept⟩, ?_⟩
  rw [storedTordApps_of_join hset hremoved hkept, storedTordApps_of_join hset htext hnames]

theorem mem_marked {apps : List TorifiedApp} {name : String} :
    name ∈ marked apps ↔ ∃ app ∈ apps, app.torified = true ∧ app.packageName = name := by
  simp [marked, and_assoc]

/-- The names that a list marks, when the marks depend on the names. -/
theorem mem_marked_of_marks {apps : List TorifiedApp} {marks : String → Bool}
    (hmarks : ∀ app ∈ apps, app.torified = marks app.packageName) {name : String} :
    name ∈ marked apps ↔ (∃ app ∈ apps, app.packageName = name) ∧ marks name = true := by
  rw [mem_marked]
  constructor
  · rintro ⟨app, happ, htorified, rfl⟩
    exact ⟨⟨app, happ, rfl⟩, (hmarks app happ).symm.trans htorified⟩
  · rintro ⟨⟨app, happ, rfl⟩, hmarked⟩
    exact ⟨app, happ, (hmarks app happ).trans hmarked, rfl⟩

@[simp]
theorem packageName_toggle (packageName : String) (app : TorifiedApp) :
    (toggle packageName app).packageName = app.packageName := by
  unfold toggle
  split
  · rfl
  · rfl

@[simp]
theorem username_toggle (packageName : String) (app : TorifiedApp) :
    (toggle packageName app).username = app.username := by
  unfold toggle
  split
  · rfl
  · rfl

/-- The marks after a click. -/
def toggleMark (packageName : String) (marks : String → Bool) (name : String) : Bool :=
  if name = packageName then !marks name else marks name

theorem torified_toggle {packageName : String} {app : TorifiedApp} {marks : String → Bool}
    (hmark : app.torified = marks app.packageName) :
    (toggle packageName app).torified = toggleMark packageName marks app.packageName := by
  unfold toggle toggleMark
  split
  · rw [hmark]
  · exact hmark

/-- A click adds or drops the app in what a list marks. -/
theorem marked_toggle {apps : List TorifiedApp} {marks : String → Bool}
    (hmarks : ∀ app ∈ apps, app.torified = marks app.packageName) {packageName : String}
    (hmem : ∃ app ∈ apps, app.packageName = packageName) :
    marked (apps.map (toggle packageName)) = symmDiff (marked apps) {packageName} := by
  have hflipped : ∀ app ∈ apps.map (toggle packageName),
      app.torified = toggleMark packageName marks app.packageName := by
    intro clicked hclicked
    obtain ⟨app, happ, rfl⟩ := List.mem_map.mp hclicked
    rw [packageName_toggle]
    exact torified_toggle (hmarks app happ)
  ext name
  have hnames : (∃ app ∈ apps.map (toggle packageName), app.packageName = name) ↔
      ∃ app ∈ apps, app.packageName = name := by simp
  rw [Finset.mem_symmDiff, Finset.mem_singleton, mem_marked_of_marks hflipped,
    mem_marked_of_marks hmarks, hnames, toggleMark]
  by_cases hname : name = packageName
  · subst hname
    cases marks name <;> simp [hmem]
  · simp [hname]

/-- What the loader makes of the stored list. -/
theorem getApps_spec (hset : AppSet pMgr) {apps : List TorifiedApp}
    (h : getApps foldCase pMgr prefs = some apps) : ∀ app ∈ apps,
      app.torified = decide (app.packageName ∈ storedTordApps prefs) ∧
        app.username = some app.packageName ∧ IsListed pMgr app.packageName := by
  obtain ⟨loaded, hloaded, rfl⟩ := Option.map_eq_some_iff.mp h
  intro app happ
  rw [List.mem_insertionSort, loadListed_eq_some _ hloaded] at happ
  obtain ⟨aInfo, haInfo, rfl⟩ := List.mem_map.mp happ
  obtain ⟨hinstalled, hlisted⟩ := List.mem_filter.mp haInfo
  have hasks : asksForInternet pMgr aInfo = true := by
    rw [listsApp, Bool.and_eq_true] at hlisted
    exact hlisted.2
  have hname := hset.username aInfo hinstalled hasks
  refine ⟨?_, hname, aInfo, hinstalled, hlisted, rfl⟩
  simp [torifiedApp, IsTorified, hname]

theorem Consistent.load (h : Consistent pMgr s) (hset : AppSet pMgr) :
    Consistent pMgr { s with mApps := getApps foldCase pMgr s.prefs } where
  stored := h.stored
  loaded := fun _ happs ↦ ⟨fun name ↦ decide (name ∈ storedTordApps s.prefs),
    getApps_spec hset happs⟩

/-- What a click stores are the names that the list marks then. -/
theorem saveAppSettings_spec (hset : AppSet pMgr) {apps : List TorifiedApp}
    (happs : ∀ app ∈ apps, app.username = some app.packageName ∧
      IsListed pMgr app.packageName) (prefs : SharedPreferences) :
    StoresApps pMgr (saveAppSettings apps prefs).1 ∧
      (storedTordApps (saveAppSettings apps prefs).1).toFinset = marked apps := by
  have hnames : (apps.filter fun app ↦ app.torified).map (fun app ↦ app.username.getD "null") =
      (apps.filter fun app ↦ app.torified).map fun app ↦ app.packageName := by
    refine List.map_congr_left fun app happ ↦ ?_
    rw [(happs app (List.mem_filter.mp happ).1).1, Option.getD_some]
  have hplain : ∀ app ∈ apps, IsPlainUsername app.username := fun app happ ↦
    ⟨app.packageName, (happs app happ).1, hset.storable (happs app happ).2⟩
  have hstored : storedTordApps (saveAppSettings apps prefs).1 =
      (apps.filter fun app ↦ app.torified).map fun app ↦ app.packageName :=
    (storedTordApps_saveAppSettings hplain prefs).trans hnames
  refine ⟨⟨(apps.filter fun app ↦ app.torified).map fun app ↦ app.packageName, ?_, ?_⟩, ?_⟩
  · rw [saveAppSettings, getString_putString, ← hnames, List.map_map]
    rfl
  · intro name hname
    obtain ⟨app, happ, rfl⟩ := List.mem_map.mp hname
    exact (happs app (List.mem_filter.mp happ).1).2
  · rw [hstored]
    rfl

/-- The names and the marks that a click leaves. -/
theorem Consistent.click (h : Consistent pMgr s) {apps : List TorifiedApp}
    (happs : s.mApps = some apps) (packageName : String) :
    ∃ marks : String → Bool, ∀ app ∈ apps.map (toggle packageName),
      app.torified = marks app.packageName ∧ app.username = some app.packageName ∧
        IsListed pMgr app.packageName := by
  obtain ⟨marks, hmarks⟩ := h.loaded apps happs
  refine ⟨toggleMark packageName marks, fun clicked hclicked ↦ ?_⟩
  obtain ⟨app, happ, rfl⟩ := List.mem_map.mp hclicked
  obtain ⟨hmark, husername, hlisted⟩ := hmarks app happ
  rw [packageName_toggle, username_toggle]
  exact ⟨torified_toggle hmark, husername, hlisted⟩

theorem next_onClick {apps : List TorifiedApp} (happs : s.mApps = some apps)
    (packageName : String) :
    (system foldCase pMgr prefs).next s (.onClick packageName) =
      ⟨(saveAppSettings (apps.map (toggle packageName)) s.prefs).1,
        some (apps.map (toggle packageName)), symmDiff s.chosen {packageName}⟩ := by
  simp only [system, happs, Option.getD_some]

theorem Consistent.next (h : Consistent pMgr s) (hset : AppSet pMgr) {action : MiniAction}
    (henabled : (system foldCase pMgr prefs).enabled s action) :
    Consistent pMgr ((system foldCase pMgr prefs).next s action) := by
  cases action with
  | onResume =>
    change Consistent pMgr { s with mApps := s.mApps.or (getApps foldCase pMgr s.prefs) }
    cases happs : s.mApps with
    | none => exact h.load hset
    | some apps => exact ⟨h.stored, fun other hother ↦ h.loaded other (happs.trans hother)⟩
  | refreshApps => exact h.load hset
  | onClick packageName =>
    obtain ⟨apps, happs, -⟩ := henabled
    obtain ⟨marks, hmarks⟩ := h.click happs packageName
    have hsaved := saveAppSettings_spec hset (fun app happ ↦ (hmarks app happ).2) s.prefs
    rw [next_onClick happs]
    exact ⟨hsaved.1, fun later hlater ↦ ⟨marks, Option.some_inj.mp hlater ▸ hmarks⟩⟩
  | removeApp packageName => exact ⟨(removeApp_spec hset h.stored henabled).1, h.loaded⟩

/-- A step keeps the stored list to the chosen apps just when a click finds a list that marks the
stored apps. -/
theorem denotes_next_iff (h : Consistent pMgr s) (hset : AppSet pMgr) (hdenotes : Denotes s)
    {action : MiniAction} (henabled : (system foldCase pMgr prefs).enabled s action) :
    Denotes ((system foldCase pMgr prefs).next s action) ↔ ClicksFreshList s action := by
  cases action with
  | onResume => exact iff_of_true hdenotes trivial
  | refreshApps => exact iff_of_true hdenotes trivial
  | onClick packageName =>
    obtain ⟨apps, happs, hmem⟩ := henabled
    obtain ⟨marks, hmarks⟩ := h.loaded apps happs
    obtain ⟨_, hclicked⟩ := h.click happs packageName
    have hsaved := saveAppSettings_spec hset (fun app happ ↦ (hclicked app happ).2) s.prefs
    have hstored : (storedTordApps
        ((system foldCase pMgr prefs).next s (.onClick packageName)).prefs).toFinset =
          symmDiff (marked apps) {packageName} := by
      rw [next_onClick happs, ← marked_toggle (fun app happ ↦ (hmarks app happ).1) hmem]
      exact hsaved.2
    have hfresh : ClicksFreshList s (.onClick packageName) ↔
        marked apps = (storedTordApps s.prefs).toFinset := by
      simp [ClicksFreshList, Option.mem_def.mp happs]
    rw [Denotes, hstored, hfresh, hdenotes]
    exact symmDiff_left_inj
  | removeApp packageName =>
    refine iff_of_true ?_ trivial
    have hremoved := (removeApp_spec hset h.stored henabled).2
    change (storedTordApps (removeApp packageName s.prefs)).toFinset =
      s.chosen.erase packageName
    rw [hremoved, ← hdenotes]
    ext name
    simp [and_comm]

/-- A removal makes a fresh list stale just when the list marks the app that is removed. -/
theorem marked_removeApp_iff (h : Consistent pMgr s) (hset : AppSet pMgr)
    {apps : List TorifiedApp} (hfresh : marked apps = (storedTordApps s.prefs).toFinset)
    {packageName : String}
    (henabled : (system foldCase pMgr prefs).enabled s (.removeApp packageName)) :
    marked apps = (storedTordApps (removeApp packageName s.prefs)).toFinset ↔
      packageName ∉ marked apps := by
  have hremoved : (storedTordApps (removeApp packageName s.prefs)).toFinset =
      (marked apps).erase packageName := by
    rw [(removeApp_spec hset h.stored henabled).2, hfresh]
    ext name
    simp [and_comm]
  rw [hremoved, eq_comm, Finset.erase_eq_self]

end Steps

/-- The stored list holds the chosen apps in every state of a run, if and only if every click of the
run finds a list that marks just the stored apps. -/
theorem denotes_run_iff (foldCase : Char → Char) (pMgr : PackageManager)
    (prefs : SharedPreferences) (actions : List MiniAction) (hset : AppSet pMgr)
    (hstored : StoresApps pMgr prefs)
    (hrun : (system foldCase pMgr prefs).Admissible (fun _ _ ↦ True)
      (system foldCase pMgr prefs).init actions) :
    (∀ n, Denotes ((system foldCase pMgr prefs).run (system foldCase pMgr prefs).init
        (actions.take n))) ↔
      (system foldCase pMgr prefs).Admissible ClicksFreshList
        (system foldCase pMgr prefs).init actions := by
  let M := system foldCase pMgr prefs
  have hinit : Consistent pMgr M.init := ⟨hstored, by simp [M, system]⟩
  have hstep (s : MiniState) (action : MiniAction) (hs : Consistent pMgr s ∧ Denotes s)
      (henabled : M.enabled s action) :
      (Consistent pMgr (M.next s action) ∧ Denotes (M.next s action)) ↔
        ClicksFreshList s action := by
    rw [and_iff_right (hs.1.next hset henabled)]
    exact denotes_next_iff hs.1 hset hs.2 henabled
  have hall := M.admissible_iff_along (fun s ↦ Consistent pMgr s ∧ Denotes s) hstep
    ⟨hinit, rfl⟩ hrun
  rw [hall]
  refine ⟨fun hdenotes n ↦ ⟨?_, hdenotes n⟩, fun h n ↦ (h n).2⟩
  exact M.invariant_run (Consistent pMgr) (fun s action hs henabled _ ↦ hs.next hset henabled)
    hinit (M.admissible_append.mp ((List.take_append_drop n actions).symm ▸ hrun)).1

/-! ## Two apps on one screen -/

theorem appSet_labelledApps : AppSet labelledApps := by
  have hinstalled : ∀ aInfo ∈ labelledApps.installedApplications,
      aInfo = ⟨orbotPackage, orbotPackage, 10001, true, 0⟩ ∨
        aInfo = ⟨browserPackage, browserPackage, 10002, true, 0⟩ := by
    intro aInfo haInfo
    simpa [labelledApps, twoApps] using haInfo
  constructor
  · intro aInfo haInfo _
    rcases hinstalled aInfo haInfo with rfl | rfl
    · rfl
    · rfl
  · intro aInfo haInfo _
    rcases hinstalled aInfo haInfo with rfl | rfl
    · exact (by decide : IsPackageName orbotPackage)
    · exact (by decide : IsPackageName browserPackage)
  · intro aInfo haInfo _ other hother _ hsuffix
    rcases hinstalled aInfo haInfo with rfl | rfl <;> rcases hinstalled other hother with rfl | rfl
    · rfl
    · have ht : 't' ∈ browserPackage.toList := hsuffix.subset (a := 't') (by decide)
      exact absurd ht (by decide)
    · have hx : 'x' ∈ orbotPackage.toList := hsuffix.subset (a := 'x') (by decide)
      exact absurd hx (by decide)
    · rfl

/-- No app is stored. -/
def noneStored : SharedPreferences := ⟨fun _ ↦ none, fun _ ↦ none⟩

/-- An app is chosen, removed and chosen again after the list was loaded again. -/
def refreshedClicks : List MiniAction :=
  [.onResume, .onClick browserPackage, .removeApp browserPackage, .refreshApps,
    .onClick browserPackage]

theorem denotes_run_refreshed :
    (system id labelledApps noneStored).Admissible ClicksFreshList
        (system id labelledApps noneStored).init refreshedClicks ∧
      ∀ n, Denotes ((system id labelledApps noneStored).run
        (system id labelledApps noneStored).init (refreshedClicks.take n)) := by
  have hfresh : (system id labelledApps noneStored).Admissible ClicksFreshList
      (system id labelledApps noneStored).init refreshedClicks := by
    decide
  exact ⟨hfresh, (denotes_run_iff id labelledApps noneStored refreshedClicks appSet_labelledApps
    ⟨[], rfl, by simp⟩ (by decide)).mpr hfresh⟩

/-- A removal between two clicks on one list. -/
def staleClick : List MiniAction :=
  [.onResume, .onClick browserPackage, .removeApp browserPackage, .onClick orbotPackage]

/-- A removed app is stored again when another app is chosen. -/
theorem removedApp_storedAgain :
    (system id labelledApps noneStored).Admissible (fun _ _ ↦ True)
        (system id labelledApps noneStored).init staleClick ∧
      ((system id labelledApps noneStored).run (system id labelledApps noneStored).init
        staleClick).chosen = {orbotPackage} ∧
      storedTordApps ((system id labelledApps noneStored).run
        (system id labelledApps noneStored).init staleClick).prefs =
          [browserPackage, orbotPackage] ∧
      ¬ Denotes ((system id labelledApps noneStored).run
        (system id labelledApps noneStored).init staleClick) := by
  decide

/-! ## Names that end alike -/

/-- Removing an app leaves the other names exactly when its name ends none of them. -/
theorem storedTordApps_removeApp_iff {names : List String} {packageName : String}
    {prefs : SharedPreferences} (hnames : ∀ name ∈ names, name ≠ "" ∧ '|' ∉ name.toList)
    (hne : packageName ≠ "") (hbar : '|' ∉ packageName.toList)
    (hstored : prefs.getString PREFS_KEY_TORIFIED "" =
      String.join (names.map (· ++ String.singleton '|'))) :
    storedTordApps (removeApp packageName prefs) = names.filter (· ≠ packageName) ↔
      ∀ name ∈ names, packageName.toList <:+ name.toList → packageName = name := by
  rw [storedTordApps, removeApp, getString_putString, hstored]
  exact tokens_removeAll_iff hne hbar hnames

/-- Three apps of which one has a name that begins another. -/
def plainNames : List String := ["org.example", "com.mail", "org.example.chat"]

def storing (names : List String) : SharedPreferences :=
  noneStored.putString PREFS_KEY_TORIFIED (String.join (names.map (· ++ String.singleton '|')))

theorem storedTordApps_removeApp_plain :
    storedTordApps (removeApp "org.example" (storing plainNames)) =
      ["com.mail", "org.example.chat"] := by
  have hnames : ∀ name ∈ plainNames, name ≠ "" ∧ '|' ∉ name.toList := by decide
  exact (storedTordApps_removeApp_iff hnames (by decide) (by decide) rfl).mpr (by decide)

/-- An app whose name ends the name of another app. -/
def endingNames : List String := ["org.example.chat", "example.chat", "com.mail"]

/-- The beginning of the longer name is left, and joined to the name that follows. -/
theorem removeApp_ending :
    endingNames.Nodup ∧
      storedTordApps (storing endingNames) = endingNames ∧
      storedTordApps (removeApp "example.chat" (storing endingNames)) = ["org.com.mail"] ∧
      endingNames.filter (· ≠ "example.chat") = ["org.example.chat", "com.mail"] := by
  decide

end MiniApps

end Orbot.Vpn
