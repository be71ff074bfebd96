import Orbot.Service.OrbotService

/-!
# The status `ON` and the control connection

The callbacks of the binding clear the control connection, and the event handler turns the status
on, without a look at each other. The status `ON` implies a connection along the runs in which
these steps do not meet, and each of them breaks it otherwise.
-/

namespace Orbot.Service

open Orbot.Foundation

/-- With the status `ON` there is a control connection. -/
def OnIsConnected (s : OrbotService) : Prop := s.mCurrentStatus = .on → s.conn.isSome

instance (s : OrbotService) : Decidable (OnIsConnected s) := inferInstanceAs (Decidable (_ → _))

/-- The message about a start request for a service that is on. -/
def alreadyStarted : String := "Ignoring start request, already started."

/-- With the status `ON` no callback clears the connection, and without a connection no circuit
turns the status on. -/
def KeepsConnection (s : OrbotService) : Event → Prop
  | .onServiceDisconnected _ | .onServiceConnected _ .null | .pollConnection _ .null =>
      s.mCurrentStatus ≠ .on
  | .circuitStatus _ status =>
      s.mCurrentStatus = .starting ∧ status = "BUILT" → s.conn.isSome
  | _ => True

instance (s : OrbotService) : ∀ event, Decidable (KeepsConnection s event)
  | .onServiceDisconnected _ | .onServiceConnected _ .null | .pollConnection _ .null =>
      inferInstanceAs (Decidable (_ ≠ _))
  | .circuitStatus _ _ => inferInstanceAs (Decidable (_ → _))
  | .startTor _ _ | .stopTorAsync | .onServiceConnected _ (.accepts _)
  | .onServiceConnected _ (.refuses _) | .pollConnection _ (.accepts _)
  | .pollConnection _ (.refuses _) | .onNullBinding _ | .onBindingDied _
  | .initControlConnection _ => inferInstanceAs (Decidable True)

/-! ## Steps -/

theorem OnIsConnected.of_notOn {s : OrbotService} (h : s.mCurrentStatus ≠ .on) :
    OnIsConnected s :=
  fun hon ↦ absurd hon h

/-- A state without a connection must not have the status `ON`. -/
theorem onIsConnected_iff_of_disconnected {s : OrbotService} (h : s.conn = none) :
    OnIsConnected s ↔ s.mCurrentStatus ≠ .on := by
  simp [OnIsConnected, h]

/-- A start request that is not ignored ends in `STARTING` or `OFF`. -/
theorem onIsConnected_startTor {s : OrbotService} (h : OnIsConnected s) (start : ServiceStart)
    (namesThrow : Bool) : OnIsConnected (startTor start namesThrow s) := by
  unfold startTor
  split
  · exact h
  · have hstatus := startDaemon_mCurrentStatus start namesThrow
      { s with mCurrentStatus := .starting }
    split
    · next started hdaemon =>
      rw [hdaemon] at hstatus
      have hstarting : started.mCurrentStatus = .starting := hstatus
      apply OnIsConnected.of_notOn
      simp [hstarting]
    · exact .of_notOn (by simp [stopTorOnError])

theorem onIsConnected_awaitConnection_iff {s : OrbotService} (callback : ℕ)
    (answer : ControlConnection) :
    OnIsConnected (awaitConnection callback answer s) ↔
      (answer = .null → s.mCurrentStatus ≠ .on) := by
  cases answer with
  | null =>
    rw [forall_prop_of_true rfl]
    exact onIsConnected_iff_of_disconnected rfl
  | accepts connection => simp [awaitConnection, OnIsConnected]
  | refuses connection => simp [awaitConnection, stopTorOnError, OnIsConnected]

/-- A step keeps the implication if and only if it meets the condition. -/
theorem onIsConnected_next_iff {s : OrbotService} (h : OnIsConnected s) (event : Event) :
    OnIsConnected (s.next event) ↔ KeepsConnection s event := by
  cases event with
  | startTor start namesThrow =>
    exact iff_of_true (onIsConnected_startTor h start namesThrow) trivial
  | stopTorAsync => exact iff_of_true (.of_notOn (by simp [OrbotService.next])) trivial
  | onServiceConnected connection answer =>
    refine (onIsConnected_awaitConnection_iff connection answer).trans ?_
    cases answer <;> simp [KeepsConnection]
  | pollConnection connection answer =>
    refine (onIsConnected_awaitConnection_iff connection answer).trans ?_
    cases answer <;> simp [KeepsConnection]
  | onServiceDisconnected connection => exact onIsConnected_iff_of_disconnected rfl
  | onNullBinding connection =>
    exact iff_of_true (.of_notOn (by simp [OrbotService.next, onNullBinding, onBindingFailed,
      stopTorOnError])) trivial
  | onBindingDied connection =>
    exact iff_of_true (.of_notOn (by simp [OrbotService.next, onBindingDied, onBindingFailed,
      stopTorOnError])) trivial
  | initControlConnection fails =>
    refine iff_of_true ?_ trivial
    change OnIsConnected (initControlConnection fails s)
    unfold initControlConnection
    split
    · exact h
    · split
      · exact .of_notOn (by simp [stopTorOnError])
      · exact h
  | circuitStatus connection status =>
    change OnIsConnected (circuitStatus status s) ↔ _
    unfold circuitStatus
    by_cases hbuilt : s.mCurrentStatus = .starting ∧ status = "BUILT"
    · rw [if_pos hbuilt]
      simp [OnIsConnected, KeepsConnection, hbuilt]
    · rw [if_neg hbuilt]
      exact iff_of_true h fun hboth ↦ absurd hboth hbuilt

/-! ## Runs -/

theorem ignoredStart_eq_alreadyStarted {s : OrbotService}
    (h : ignoredStart s = some alreadyStarted) : s.mCurrentStatus = .on := by
  unfold ignoredStart at h
  split at h
  · next hstopping =>
    rw [hstopping] at h
    exact absurd h (by decide)
  · split at h
    · next hon => exact hon
    · simp at h

/-- In every run that keeps the condition the status `ON` implies a control connection, so that a
start request is told that Tor has already started only while there is one. -/
theorem on_implies_connected (s : OrbotService)
    (h : serviceSystem.ReachableBy KeepsConnection s) :
    (s.mCurrentStatus = .on → s.conn ≠ none) ∧
      (ignoredStart s = some alreadyStarted → s.conn ≠ none) := by
  have hinv : OnIsConnected s := serviceSystem.invariant_of_reachableBy OnIsConnected
    (fun hon ↦ absurd hon (by decide))
    (fun _ event hstate _ hok ↦ (onIsConnected_next_iff hstate event).mpr hok) h
  have hon (hstatus : s.mCurrentStatus = .on) : s.conn ≠ none :=
    Option.isSome_iff_ne_none.mp (hinv hstatus)
  exact ⟨hon, fun hmessage ↦ hon (ignoredStart_eq_alreadyStarted hmessage)⟩

/-- Tor is started, connected and has built a circuit. -/
def startedOnce : List Event :=
  [.startTor .bound false, .onServiceConnected 0 .null, .pollConnection 0 (.accepts 0),
    .circuitStatus 0 "BUILT"]

theorem on_implies_connected_startedOnce :
    ((serviceSystem.run OrbotService.new startedOnce).mCurrentStatus = .on →
        (serviceSystem.run OrbotService.new startedOnce).conn ≠ none) ∧
      (ignoredStart (serviceSystem.run OrbotService.new startedOnce) = some alreadyStarted →
        (serviceSystem.run OrbotService.new startedOnce).conn ≠ none) :=
  on_implies_connected _ ⟨startedOnce, by decide, rfl⟩

/-- The service that runs Tor goes away, and the status stays `ON`. -/
theorem on_after_disconnect :
    ¬ ∀ s : OrbotService, serviceSystem.Reachable s →
      (s.mCurrentStatus = .on → s.conn ≠ none) ∧
        (ignoredStart s = some alreadyStarted → s.conn ≠ none) := by
  intro h
  have hconnected := h _ ⟨startedOnce ++ [.onServiceDisconnected 0], by decide, rfl⟩
  exact hconnected.1 (by decide) (by decide)

end Orbot.Service
