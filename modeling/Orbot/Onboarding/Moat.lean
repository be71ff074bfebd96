import Orbot.Foundation.System
import Orbot.Service.OrbotService
import Orbot.Service.Settings

/-!
# Asking for bridges

`MoatActivity` switches to the bridge `meek` while it asks for bridges, and writes the original
settings back when it is destroyed without success. A rotation replaces the instance: the new one
gets the original settings from the old one, but not its success, and the answers to requests of the
old one are still handled there. So the bridges of an answer stay unless a later instance, which
does not know of the answer, was live when it came.
-/

namespace Orbot.Onboarding

open Orbot.Foundation Orbot.Service

/-! ## An instance -/

/-- The fields of an instance. -/
structure MoatActivity where
  mChallenge : Option String
  mCaptcha : Option String
  mOriginalBridges : String
  mOriginalBridgeStatus : Bool
  mSuccess : Bool
  /-- `finish` has been called, after which the instance is destroyed and not replaced. -/
  finishing : Bool
  deriving DecidableEq

/-- The bundle of `onSaveInstanceState`. -/
structure SavedInstanceState where
  originalBridges : String
  originalBridgeStatus : Bool
  challenge : Option String
  captcha : Option String
  deriving DecidableEq

namespace MoatActivity

def onCreate (farsi : Bool) (prefs : Preferences) : Option SavedInstanceState → MoatActivity
  | some savedInstanceState =>
      { mChallenge := savedInstanceState.challenge
        mCaptcha := savedInstanceState.captcha
        mOriginalBridges := savedInstanceState.originalBridges
        mOriginalBridgeStatus := savedInstanceState.originalBridgeStatus
        mSuccess := false
        finishing := false }
  | none =>
      { mChallenge := none
        mCaptcha := none
        mOriginalBridges := Prefs.getBridgesList farsi prefs
        mOriginalBridgeStatus := Prefs.bridgesEnabled farsi prefs
        mSuccess := false
        finishing := false }

def onSaveInstanceState (a : MoatActivity) : SavedInstanceState :=
  ⟨a.mOriginalBridges, a.mOriginalBridgeStatus, a.mChallenge, a.mCaptcha⟩

end MoatActivity

/-- `Prefs.setBridgesList` and `Prefs.putBridgesEnabled`. -/
def putBridges (bridges : String) (enabled : Bool) (prefs : Preferences) : Preferences :=
  { prefs with bridgesList := some bridges, bridgesEnabled := some enabled }

def MoatActivity.onDestroy (a : MoatActivity) (prefs : Preferences) : Preferences :=
  if a.mSuccess then prefs else putBridges a.mOriginalBridges a.mOriginalBridgeStatus prefs

/-! ## The instances of a session -/

/-- A request for bridges, with the solution of a captcha. -/
structure CheckRequest where
  sender : ℕ
  challenge : Option String
  solution : String
  deriving DecidableEq

/-- A successful answer. -/
structure BridgeAnswer where
  /-- The list that is stored. -/
  bridges : String
  /-- When it came, another instance than the sender was live and had not succeeded. -/
  overtaken : Bool
  deriving DecidableEq

/-- A session begins with one instance; the later ones are numbered in the order of creation. -/
structure MoatSession where
  prefs : Preferences
  activities : ℕ → MoatActivity
  created : ℕ
  /-- The instance that is not destroyed. -/
  live : Option ℕ
  /-- The senders of the requests for a captcha that are not answered. -/
  fetches : List ℕ
  checks : List CheckRequest
  lastAnswer : Option BridgeAnswer

namespace MoatSession

variable (s : MoatSession)

/-- Change the fields of one instance. -/
def change (number : ℕ) (update : MoatActivity → MoatActivity) : MoatSession :=
  { s with activities := Function.update s.activities number (update (s.activities number)) }

/-- `fetchCaptcha`, which an instance may call after it is destroyed. -/
def fetchCaptcha (sender : ℕ) : MoatSession :=
  { s.change sender fun a ↦ { a with mChallenge := none, mCaptcha := none } with
    fetches := s.fetches ++ [sender] }

/-- `setUp`, for the status of Tor. -/
def setUp (number : ℕ) (status : Status) : MoatSession :=
  if (s.activities number).mSuccess then s
  else
    match status with
    | .off => { s with prefs := putBridges "meek" true s.prefs }
    | .on =>
        let s := { s with prefs := putBridges "meek" true s.prefs }
        if (s.activities number).mCaptcha = none then s.fetchCaptcha number else s
    | .starting | .stopping => s

/-- `requestBridges`; `buildRequest` gives `null` for a solution that breaks the JSON text. -/
def requestBridges (number : ℕ) (solution : String) (builds : Bool) : MoatSession :=
  if builds then
    { s with checks := s.checks ++ [⟨number, (s.activities number).mChallenge, solution⟩] }
  else s

/-- The listener of `fetchCaptcha`; what is missing in the answer or cannot be decoded is none. -/
def onCaptcha (sender : ℕ) (challenge image : Option String) : MoatSession :=
  { s.change sender fun a ↦
      { a with
        mChallenge := challenge.or a.mChallenge
        mCaptcha := if challenge.isSome then image.or a.mCaptcha else a.mCaptcha } with
    fetches := s.fetches.erase sender }

/-- An instance other than the sender is live and has not succeeded. -/
def overtakes (sender : ℕ) : Bool :=
  s.live.any fun number ↦ number != sender && !(s.activities number).mSuccess

/-- The listener of `requestBridges`; none for an error and for an answer without bridges. -/
def onBridges (request : CheckRequest) (bridges : Option (List String)) : MoatSession :=
  let s := { s with checks := s.checks.erase request }
  match bridges with
  | none => s
  | some lines =>
      let text := String.join (lines.map (· ++ "\n"))
      { s.change request.sender fun a ↦ { a with mSuccess := true, finishing := true } with
        prefs := putBridges text true s.prefs
        lastAnswer := some ⟨text, s.overtakes request.sender⟩ }

/-- The live instance is saved and destroyed, and a new one is created from what was saved. -/
def rotate (farsi : Bool) : MoatSession :=
  match s.live with
  | none => s
  | some number =>
      let a := s.activities number
      let prefs := a.onDestroy s.prefs
      let next := MoatActivity.onCreate farsi prefs (some a.onSaveInstanceState)
      { s with
        prefs := prefs
        activities := Function.update s.activities s.created next
        created := s.created + 1
        live := some s.created }

def destroy : MoatSession :=
  match s.live with
  | none => s
  | some number => { s with prefs := (s.activities number).onDestroy s.prefs, live := none }

end MoatSession

/-! ## Sessions as runs -/

inductive MoatAction where
  | rotate
  | destroy
  /-- The user leaves the activity. -/
  | finish
  /-- A broadcast about the status of Tor, which may lack the status. -/
  | onReceive (status : Option Status)
  | fetchCaptcha (sender : ℕ)
  | requestBridges (solution : String) (builds : Bool)
  | captchaAnswer (sender : ℕ) (challenge image : Option String)
  | bridgeAnswer (request : CheckRequest) (bridges : Option (List String))
  deriving DecidableEq

namespace MoatSession

/-- Do something with the live instance. -/
def withLive (s : MoatSession) (f : ℕ → MoatSession) : MoatSession := s.live.elim s f

def next (farsi : Bool) (s : MoatSession) : MoatAction → MoatSession
  | .rotate => s.rotate farsi
  | .destroy => s.destroy
  | .finish => s.withLive fun number ↦ s.change number fun a ↦ { a with finishing := true }
  | .onReceive status => s.withLive fun number ↦ s.setUp number (status.getD .off)
  | .fetchCaptcha sender => s.fetchCaptcha sender
  | .requestBridges solution builds =>
      s.withLive fun number ↦ s.requestBridges number solution builds
  | .captchaAnswer sender challenge image => s.onCaptcha sender challenge image
  | .bridgeAnswer request bridges => s.onBridges request bridges

def Enabled (s : MoatSession) : MoatAction → Prop
  | .rotate => ∃ number ∈ s.live, (s.activities number).finishing = false
  | .destroy | .finish | .onReceive _ | .requestBridges _ _ => s.live.isSome
  | .fetchCaptcha sender => sender < s.created
  | .captchaAnswer sender _ _ => sender ∈ s.fetches
  | .bridgeAnswer request _ => request ∈ s.checks

/-- The first instance is created. -/
def opened (farsi : Bool) (prefs : Preferences) : MoatSession where
  prefs := prefs
  activities := fun _ ↦ .onCreate farsi prefs none
  created := 1
  live := some 0
  fetches := []
  checks := []
  lastAnswer := none

end MoatSession

def moatSystem (farsi : Bool) (prefs : Preferences) : System MoatSession MoatAction where
  init := .opened farsi prefs
  enabled := MoatSession.Enabled
  next := MoatSession.next farsi

/-- The bridge list and the switch, as they are read. -/
def bridgesRead (farsi : Bool) (prefs : Preferences) : String × Bool :=
  (Prefs.getBridgesList farsi prefs, Prefs.bridgesEnabled farsi prefs)

@[simp]
theorem bridgesRead_putBridges (farsi : Bool) (bridges : String) (enabled : Bool)
    (prefs : Preferences) : bridgesRead farsi (putBridges bridges enabled prefs) =
      (bridges, enabled) := rfl

/-- The settings are those of the last successful answer, or the original ones without an
answer. -/
def BridgesConsistent (farsi : Bool) (original : Preferences) (s : MoatSession) : Prop :=
  bridgesRead farsi s.prefs =
    match s.lastAnswer with
    | some answer => (answer.bridges, true)
    | none => bridgesRead farsi original

/-- The last successful answer came to the live instance, to one that had succeeded or after the
last instance, or it brought the original settings. -/
def AnswerStays (farsi : Bool) (original : Preferences) (s : MoatSession) : Prop :=
  ∀ answer ∈ s.lastAnswer, answer.overtaken = true →
    (answer.bridges, true) = bridgesRead farsi original

/-! ## What a session keeps -/

/-- The live instance knows the original settings. Either the last successful answer is stored and
the live instance knows of it, or the live instance will write the original settings back. -/
structure SessionInvariant (farsi : Bool) (original : Preferences) (s : MoatSession) : Prop where
  originals : ∀ number ∈ s.live, ((s.activities number).mOriginalBridges,
    (s.activities number).mOriginalBridgeStatus) = bridgesRead farsi original
  finishing : ∀ number ∈ s.live, (s.activities number).mSuccess = true →
    (s.activities number).finishing = true
  kept : ∀ answer ∈ s.lastAnswer, answer.overtaken = false →
    (∀ number ∈ s.live, (s.activities number).mSuccess = true) ∧
      bridgesRead farsi s.prefs = (answer.bridges, true)
  lost : (∀ answer ∈ s.lastAnswer, answer.overtaken = true) →
    (∀ number ∈ s.live, (s.activities number).mSuccess = false) ∧
      (s.live = none → bridgesRead farsi s.prefs = bridgesRead farsi original)

/-- Two instances agree on what is written back. -/
structure SameOriginals (a a' : MoatActivity) : Prop where
  bridges : a'.mOriginalBridges = a.mOriginalBridges
  status : a'.mOriginalBridgeStatus = a.mOriginalBridgeStatus
  success : a'.mSuccess = a.mSuccess
  finishing : a.finishing = true → a'.finishing = true

theorem SameOriginals.refl (a : MoatActivity) : SameOriginals a a := ⟨rfl, rfl, rfl, id⟩

/-- A change of one instance that keeps what is written back. -/
theorem sameOriginals_update {activities : ℕ → MoatActivity} {changed : ℕ} {a' : MoatActivity}
    (h : SameOriginals (activities changed) a') (number : ℕ) :
    SameOriginals (activities number) (Function.update activities changed a' number) := by
  by_cases hnumber : number = changed
  · subst hnumber
    rwa [Function.update_self]
  · rw [Function.update_of_ne hnumber]
    exact .refl _

section Steps

variable {farsi : Bool} {original : Preferences} {s s' : MoatSession}

/-- A step that stores no settings and keeps what is written back. -/
theorem SessionInvariant.of_sameOriginals (h : SessionInvariant farsi original s)
    (hprefs : s'.prefs = s.prefs) (hlive : s'.live = s.live)
    (hanswer : s'.lastAnswer = s.lastAnswer)
    (hsame : ∀ number, SameOriginals (s.activities number) (s'.activities number)) :
    SessionInvariant farsi original s' where
  originals number hnumber := by
    rw [(hsame number).bridges, (hsame number).status]
    exact h.originals number (hlive ▸ hnumber)
  finishing number hnumber hsuccess := by
    rw [(hsame number).success] at hsuccess
    exact (hsame number).finishing (h.finishing number (hlive ▸ hnumber) hsuccess)
  kept answer hlast hstays := by
    obtain ⟨hsuccess, hread⟩ := h.kept answer (hanswer ▸ hlast) hstays
    refine ⟨fun number hnumber ↦ ?_, hprefs ▸ hread⟩
    exact (hsame number).success.trans (hsuccess number (hlive ▸ hnumber))
  lost hovertaken := by
    obtain ⟨hsuccess, hread⟩ := h.lost (hanswer ▸ hovertaken)
    refine ⟨fun number hnumber ↦ ?_, hlive ▸ hprefs ▸ hread⟩
    exact (hsame number).success.trans (hsuccess number (hlive ▸ hnumber))

theorem sessionInvariant_fetchCaptcha (h : SessionInvariant farsi original s) (sender : ℕ) :
    SessionInvariant farsi original (s.fetchCaptcha sender) :=
  h.of_sameOriginals rfl rfl rfl (sameOriginals_update ⟨rfl, rfl, rfl, id⟩)

/-- The settings for the time of the request are stored by a live instance without success. -/
theorem sessionInvariant_meek (h : SessionInvariant farsi original s) {number : ℕ}
    (hlive : s.live = some number) (hsuccess : (s.activities number).mSuccess = false) :
    SessionInvariant farsi original { s with prefs := putBridges "meek" true s.prefs } where
  originals := h.originals
  finishing := h.finishing
  kept answer hlast hstays := by
    have hknown := (h.kept answer hlast hstays).1 number hlive
    exact absurd (hknown.symm.trans hsuccess) (by decide)
  lost hovertaken := ⟨(h.lost hovertaken).1, fun hnone ↦ by simp [hlive] at hnone⟩

theorem sessionInvariant_setUp (h : SessionInvariant farsi original s) {number : ℕ}
    (hlive : s.live = some number) (status : Status) :
    SessionInvariant farsi original (s.setUp number status) := by
  unfold MoatSession.setUp
  split
  · exact h
  · next hsuccess =>
    have hmeek := sessionInvariant_meek h hlive (by simpa using hsuccess)
    cases status with
    | off => exact hmeek
    | on =>
      dsimp only
      split
      · exact sessionInvariant_fetchCaptcha hmeek number
      · exact hmeek
    | starting | stopping => exact h

theorem overtakes_eq_true {sender : ℕ} :
    s.overtakes sender = true ↔ ∃ number ∈ s.live, number ≠ sender ∧
      (s.activities number).mSuccess = false := by
  unfold MoatSession.overtakes
  cases s.live with
  | none => simp
  | some number => simp

theorem activities_onBridges (request : CheckRequest) (lines : List String) (number : ℕ) :
    (s.onBridges request (some lines)).activities number =
      if number = request.sender then
        { s.activities number with mSuccess := true, finishing := true }
      else s.activities number := by
  by_cases hsender : number = request.sender
  · rw [if_pos hsender, hsender]
    exact Function.update_self ..
  · rw [if_neg hsender]
    exact Function.update_of_ne hsender ..

theorem mSuccess_onBridges (request : CheckRequest) (lines : List String) (number : ℕ) :
    ((s.onBridges request (some lines)).activities number).mSuccess = true ↔
      number = request.sender ∨ (s.activities number).mSuccess = true := by
  rw [activities_onBridges]
  by_cases hsender : number = request.sender
  · simp [hsender]
  · simp [hsender]

/-- A successful answer is known to the live instance unless that one has overtaken the sender. -/
theorem sessionInvariant_answered (h : SessionInvariant farsi original s)
    (request : CheckRequest) (lines : List String) :
    SessionInvariant farsi original (s.onBridges request (some lines)) where
  originals number hnumber := by
    rw [activities_onBridges]
    split
    · exact h.originals number hnumber
    · exact h.originals number hnumber
  finishing number hnumber hsuccess := by
    rw [activities_onBridges]
    split
    · rfl
    · next hother =>
      have hknown := (mSuccess_onBridges request lines number).mp hsuccess
      exact h.finishing number hnumber (hknown.resolve_left hother)
  kept answer hlast hstays := by
    obtain rfl : _ = answer := Option.some_inj.mp hlast
    refine ⟨fun number hnumber ↦ ?_, rfl⟩
    by_contra hunaware
    rw [mSuccess_onBridges, not_or, Bool.not_eq_true] at hunaware
    have hovertaken : s.overtakes request.sender = true :=
      overtakes_eq_true.mpr ⟨number, hnumber, hunaware⟩
    exact absurd (hovertaken.symm.trans hstays) (by decide)
  lost hovertaken := by
    obtain ⟨number, hnumber, hunaware⟩ := overtakes_eq_true.mp (hovertaken _ rfl)
    constructor
    · intro other hlive
      obtain rfl : number = other := Option.some_inj.mp (hnumber.symm.trans hlive)
      rwa [← Bool.not_eq_true, mSuccess_onBridges, not_or, Bool.not_eq_true]
    · intro hnone
      exact absurd (hnumber.symm.trans hnone) (by simp)

theorem sessionInvariant_onBridges (h : SessionInvariant farsi original s)
    (request : CheckRequest) (bridges : Option (List String)) :
    SessionInvariant farsi original (s.onBridges request bridges) := by
  cases bridges with
  | none => exact h.of_sameOriginals rfl rfl rfl fun number ↦ .refl _
  | some lines => exact sessionInvariant_answered h request lines

/-- A live instance with success is finishing, so an instance that is replaced had none. -/
theorem sessionInvariant_rotate (h : SessionInvariant farsi original s)
    (henabled : s.Enabled .rotate) : SessionInvariant farsi original (s.rotate farsi) := by
  obtain ⟨number, hlive, hfinishing⟩ := henabled
  have hsuccess : (s.activities number).mSuccess = false := by
    by_contra htrue
    have hfinished := h.finishing number hlive (by simpa using htrue)
    exact absurd (hfinished.symm.trans hfinishing) (by decide)
  have hrotate : s.rotate farsi =
      { s with
        prefs := (s.activities number).onDestroy s.prefs
        activities := Function.update s.activities s.created
          (.onCreate farsi ((s.activities number).onDestroy s.prefs)
            (some (s.activities number).onSaveInstanceState))
        created := s.created + 1
        live := some s.created } := by
    rw [MoatSession.rotate, Option.mem_def.mp hlive]
  have hcreated (other : ℕ) (hother : other ∈ (s.rotate farsi).live) :
      (s.rotate farsi).activities other =
        .onCreate farsi ((s.activities number).onDestroy s.prefs)
          (some (s.activities number).onSaveInstanceState) := by
    rw [hrotate] at hother ⊢
    obtain rfl := Option.some_inj.mp hother
    exact Function.update_self ..
  have hanswer : (s.rotate farsi).lastAnswer = s.lastAnswer := by rw [hrotate]
  constructor
  · intro other hother
    rw [hcreated other hother]
    exact h.originals number hlive
  · intro other hother htrue
    rw [hcreated other hother] at htrue
    exact absurd htrue (by simp [MoatActivity.onCreate])
  · intro answer hlast hstays
    have hknown := (h.kept answer (hanswer ▸ hlast) hstays).1 number hlive
    exact absurd (hknown.symm.trans hsuccess) (by decide)
  · intro hovertaken
    constructor
    · intro other hother
      rw [hcreated other hother]
      rfl
    · rw [hrotate]
      simp

theorem sessionInvariant_destroy (h : SessionInvariant farsi original s) :
    SessionInvariant farsi original s.destroy := by
  cases hlive : s.live with
  | none =>
    have hsame : s.destroy = s := by rw [MoatSession.destroy, hlive]
    rwa [hsame]
  | some number =>
    have hdestroy : s.destroy =
        { s with prefs := (s.activities number).onDestroy s.prefs, live := none } := by
      rw [MoatSession.destroy, hlive]
    rw [hdestroy]
    constructor
    · simp
    · simp
    · intro answer hlast hstays
      obtain ⟨hsuccess, hread⟩ := h.kept answer hlast hstays
      refine ⟨by simp, ?_⟩
      rwa [MoatActivity.onDestroy, if_pos (hsuccess number hlive)]
    · intro hovertaken
      have hsuccess := (h.lost hovertaken).1 number hlive
      refine ⟨by simp, fun _ ↦ ?_⟩
      rw [MoatActivity.onDestroy, if_neg (by simp [hsuccess]), bridgesRead_putBridges]
      exact h.originals number hlive

theorem sessionInvariant_next (h : SessionInvariant farsi original s) {action : MoatAction}
    (henabled : s.Enabled action) : SessionInvariant farsi original (s.next farsi action) := by
  have hlive (f : ℕ → MoatSession)
      (hf : ∀ number, s.live = some number → SessionInvariant farsi original (f number)) :
      SessionInvariant farsi original (s.withLive f) := by
    unfold MoatSession.withLive
    cases hcase : s.live with
    | none => exact h
    | some number => exact hf number hcase
  cases action with
  | rotate => exact sessionInvariant_rotate h henabled
  | destroy => exact sessionInvariant_destroy h
  | finish =>
    exact hlive _ fun number _ ↦ h.of_sameOriginals rfl rfl rfl
      (sameOriginals_update ⟨rfl, rfl, rfl, fun _ ↦ rfl⟩)
  | onReceive status =>
    exact hlive _ fun number hnumber ↦ sessionInvariant_setUp h hnumber (status.getD .off)
  | fetchCaptcha sender => exact sessionInvariant_fetchCaptcha h sender
  | requestBridges solution builds =>
    refine hlive _ fun number _ ↦ ?_
    unfold MoatSession.requestBridges
    split
    · exact h.of_sameOriginals rfl rfl rfl fun number ↦ .refl _
    · exact h
  | captchaAnswer sender challenge image =>
    exact h.of_sameOriginals rfl rfl rfl (sameOriginals_update ⟨rfl, rfl, rfl, id⟩)
  | bridgeAnswer request bridges => exact sessionInvariant_onBridges h request bridges

end Steps

theorem sessionInvariant_opened (farsi : Bool) (prefs : Preferences) :
    SessionInvariant farsi prefs (.opened farsi prefs) where
  originals _ _ := rfl
  finishing _ _ hsuccess := hsuccess
  kept _ hlast := by simp [MoatSession.opened] at hlast
  lost _ := ⟨fun _ _ ↦ rfl, fun hnone ↦ by simp [MoatSession.opened] at hnone⟩

/-- Once the last instance of a session is destroyed, the settings are those of the last successful
answer or the original ones, if and only if that answer was not overtaken or brought the original
ones. -/
theorem bridgesConsistent_iff (farsi : Bool) (prefs : Preferences) (s : MoatSession)
    (hreach : (moatSystem farsi prefs).Reachable s) (hend : s.live = none) :
    BridgesConsistent farsi prefs s ↔ AnswerStays farsi prefs s := by
  have h : SessionInvariant farsi prefs s :=
    (moatSystem farsi prefs).invariant_of_reachableBy (SessionInvariant farsi prefs)
      (sessionInvariant_opened farsi prefs)
      (fun _ _ hs henabled _ ↦ sessionInvariant_next hs henabled) hreach
  unfold BridgesConsistent AnswerStays
  cases hlast : s.lastAnswer with
  | none =>
    have hlost := (h.lost (by simp [hlast])).2 hend
    simpa using hlost
  | some answer =>
    cases hovertaken : answer.overtaken with
    | false =>
      have hkept := (h.kept answer hlast hovertaken).2
      simpa [hovertaken] using hkept
    | true =>
      have hlost := (h.lost (by simp [hlast, hovertaken])).2 hend
      simp only [hlost, Option.mem_some_iff, forall_eq', hovertaken, forall_const]
      exact eq_comm

/-! ## Two sessions -/

instance MoatSession.decidableEnabled (s : MoatSession) :
    ∀ action, Decidable (s.Enabled action)
  | .rotate =>
      decidable_of_iff (s.live.any fun number ↦ !(s.activities number).finishing)
        (by simp [MoatSession.Enabled, Option.any_eq_true])
  | .destroy | .finish | .onReceive _ | .requestBridges _ _ =>
      inferInstanceAs (Decidable (_ = true))
  | .fetchCaptcha _ => inferInstanceAs (Decidable (_ < _))
  | .captchaAnswer _ _ _ | .bridgeAnswer _ _ => inferInstanceAs (Decidable (_ ∈ _))

instance moatSystem.decidableEnabled (farsi : Bool) (prefs : Preferences) (s : MoatSession)
    (action : MoatAction) : Decidable ((moatSystem farsi prefs).enabled s action) :=
  inferInstanceAs (Decidable (s.Enabled action))

instance BridgesConsistent.decidable (farsi : Bool) (original : Preferences) (s : MoatSession) :
    Decidable (BridgesConsistent farsi original s) := inferInstanceAs (Decidable (_ = _))

instance AnswerStays.decidable (farsi : Bool) (original : Preferences) (s : MoatSession) :
    Decidable (AnswerStays farsi original s) :=
  inferInstanceAs (Decidable (∀ answer ∈ s.lastAnswer, _ → _))

/-- The request for bridges that the first instance sends after a captcha. -/
def firstCheck : CheckRequest := ⟨0, some "challenge", "solution"⟩

/-- Tor is off, a captcha is fetched and solved. -/
def solvedCaptcha : List MoatAction :=
  [.onReceive (some .off), .fetchCaptcha 0, .captchaAnswer 0 (some "challenge") (some "image"),
    .requestBridges "solution" true]

def answeredLive : List MoatAction :=
  solvedCaptcha ++ [.bridgeAnswer firstCheck (some ["obfs4 192.0.2.1:443"]), .destroy]

theorem bridgesConsistent_answeredLive :
    BridgesConsistent false {} ((moatSystem false {}).run (moatSystem false {}).init
      answeredLive) :=
  (bridgesConsistent_iff false {} _ ⟨answeredLive, by decide, rfl⟩ (by decide)).mpr (by decide)

/-- The device is rotated before the answer comes. -/
def answeredLate : List MoatAction :=
  solvedCaptcha ++
    [.rotate, .bridgeAnswer firstCheck (some ["obfs4 192.0.2.1:443"]), .destroy]

/-- The bridges of an answer are lost when the instance that took the sender's place is left. -/
theorem answeredLate_lost :
    (moatSystem false {}).Admissible (fun _ _ ↦ True) (moatSystem false {}).init answeredLate ∧
      ((moatSystem false {}).run (moatSystem false {}).init answeredLate).live = none ∧
      ((moatSystem false {}).run (moatSystem false {}).init answeredLate).fetches = [] ∧
      ((moatSystem false {}).run (moatSystem false {}).init answeredLate).checks = [] ∧
      ((moatSystem false {}).run (moatSystem false {}).init answeredLate).lastAnswer =
        some ⟨"obfs4 192.0.2.1:443\n", true⟩ ∧
      bridgesRead false ((moatSystem false {}).run (moatSystem false {}).init
        answeredLate).prefs = ("obfs4", false) ∧
      ¬ BridgesConsistent false {} ((moatSystem false {}).run (moatSystem false {}).init
        answeredLate) := by
  decide

end Orbot.Onboarding
