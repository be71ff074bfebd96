import Orbot.Service.OrbotService

/-!
# Releasing the binding to Tor

`stopTor` releases the binding only while there is a control connection, and the field for the
binding is overwritten by the next start. So at most one binding is live, and none when the status
is `OFF`, in the runs where Tor is not stopped between binding and connecting.
-/

namespace Orbot.Service

open Orbot.Foundation

/-- At most one binding is live; with the status `OFF` none is, and there is no connection. -/
def BindingReleased (s : OrbotService) : Prop :=
  s.bindings.length ≤ 1 ∧ (s.mCurrentStatus = .off → s.bindings = [] ∧ s.conn = none)

instance (s : OrbotService) : Decidable (BindingReleased s) :=
  inferInstanceAs (Decidable (_ ∧ (_ → _)))

/-- `stopTor` leaves no binding behind: it has a connection, or there is no binding. -/
def CanRelease (s : OrbotService) : Prop := s.conn.isSome ∨ s.bindings = []

instance (s : OrbotService) : Decidable (CanRelease s) := inferInstanceAs (Decidable (_ ∨ _))

/-- Tor is stopped, also before a start, only when the binding can be released; nothing fails after
`bindService`; and with the status `OFF` no connection arrives. -/
def StopsConnected (s : OrbotService) : Event → Prop
  | .startTor start namesThrow => ignoredStart s = none →
      (CanRelease s ∨ start = .noTorrc ∧ namesThrow = false) ∧
        ¬ (start = .bound ∧ namesThrow = true)
  | .stopTorAsync | .onNullBinding _ | .onBindingDied _ => CanRelease s
  | .pollConnection _ (.accepts _) => s.mCurrentStatus ≠ .off
  | _ => True

instance (s : OrbotService) : ∀ event, Decidable (StopsConnected s event)
  | .startTor _ _ => inferInstanceAs (Decidable (_ → _))
  | .stopTorAsync | .onNullBinding _ | .onBindingDied _ =>
      inferInstanceAs (Decidable (CanRelease s))
  | .pollConnection _ (.accepts _) => inferInstanceAs (Decidable (_ ≠ _))
  | .pollConnection _ .null | .pollConnection _ (.refuses _) | .onServiceConnected _ _
  | .onServiceDisconnected _ | .initControlConnection _ | .circuitStatus _ _ =>
      inferInstanceAs (Decidable True)

/-! ## The invariant -/

/-- Nothing is bound and nothing to release, or one binding is live, which is the saved one. -/
def Balanced (s : OrbotService) : Prop :=
  (s.bindings = [] ∧ s.shouldUnbindTorService = false) ∨
    ∃ connection, s.bindings = [connection] ∧ s.torServiceConnection = some connection ∧
      s.shouldUnbindTorService = true

/-- The bindings are balanced, and with the status `OFF` nothing is bound or connected. -/
structure Disciplined (s : OrbotService) : Prop where
  balanced : Balanced s
  off : s.mCurrentStatus = .off → s.bindings = [] ∧ s.conn = none

theorem Disciplined.bindingReleased {s : OrbotService} (h : Disciplined s) :
    BindingReleased s := by
  refine ⟨?_, h.off⟩
  rcases h.balanced with ⟨hnone, -⟩ | ⟨connection, hone, -⟩
  · simp [hnone]
  · simp [hone]

/-- Nothing is bound and nothing connected. -/
structure Released (s : OrbotService) : Prop where
  bindings : s.bindings = []
  shouldUnbind : s.shouldUnbindTorService = false
  conn : s.conn = none

theorem Released.disciplined {s : OrbotService} (h : Released s) : Disciplined s :=
  ⟨.inl ⟨h.bindings, h.shouldUnbind⟩, fun _ ↦ ⟨h.bindings, h.conn⟩⟩

/-! ## Stopping -/

/-- When the binding can be released, `stopTor` returns with nothing bound. -/
theorem stopTor_released {s : OrbotService} (h : Balanced s) (hready : CanRelease s) :
    ∃ s', stopTor s = some s' ∧ Released s' := by
  rcases h with ⟨hnone, hshould⟩ | ⟨connection, hone, hsaved, hshould⟩
  · cases hconn : s.conn with
    | none => exact ⟨s, by simp [stopTor, hconn], hnone, hshould, hconn⟩
    | some control =>
      refine ⟨{ s with conn := none }, ?_, hnone, hshould, rfl⟩
      simp [stopTor, hconn, hshould]
  · have hsome : s.conn.isSome := hready.resolve_right (by simp [hone])
    obtain ⟨control, hconn⟩ := Option.isSome_iff_exists.mp hsome
    refine ⟨{ s with bindings := [], shouldUnbindTorService := false, conn := none }, ?_,
      rfl, rfl, rfl⟩
    simp [stopTor, unbindTorService, hconn, hshould, hsaved, hone]

theorem stopTorAsync_released {s : OrbotService} (h : Balanced s) (hready : CanRelease s) :
    Released (Service.stopTorAsync s) := by
  have hstopping : Balanced { s with mCurrentStatus := .stopping } := h
  obtain ⟨s', hstop, hreleased⟩ := stopTor_released hstopping hready
  have heq : Service.stopTorAsync s = { s' with mCurrentStatus := .off } := by
    simp only [Service.stopTorAsync, hstop, Option.getD_some]
  rw [heq]
  exact ⟨hreleased.bindings, hreleased.shouldUnbind, hreleased.conn⟩

/-! ## Starting -/

/-- `startTorService` without a binding before: what it binds it saves, and unless it has bound
there is nothing to release. -/
theorem startTorService_balanced {s : OrbotService} (h : Released s) (start : ServiceStart) :
    Balanced (startTorService start s).1 ∧
      ((startTorService start s).2 = false ∨ start ≠ .bound →
        CanRelease (startTorService start s).1) ∧
      (startTorService start s).1.mCurrentStatus = s.mCurrentStatus := by
  cases start with
  | throws => exact ⟨h.disciplined.balanced, fun _ ↦ .inr h.bindings, rfl⟩
  | noTorrc => exact ⟨h.disciplined.balanced, fun _ ↦ .inr h.bindings, rfl⟩
  | bindThrows => exact ⟨.inl ⟨h.bindings, h.shouldUnbind⟩, fun _ ↦ .inr h.bindings, rfl⟩
  | notBound => exact ⟨.inl ⟨h.bindings, rfl⟩, fun _ ↦ .inr h.bindings, rfl⟩
  | bound =>
    have hbindings : s.bindings ++ [s.connections] = [s.connections] := by simp [h.bindings]
    refine ⟨.inr ⟨s.connections, hbindings, rfl, rfl⟩, fun hfails ↦ ?_, rfl⟩
    rcases hfails with hthrows | hne
    · simp [startTorService] at hthrows
    · simp at hne

/-- A start that can release the old binding, and does not fail after making a new one. -/
theorem disciplined_startTor_of_canRelease {s : OrbotService} (h : Disciplined s)
    (hready : CanRelease s) {start : ServiceStart} {namesThrow : Bool}
    (hbound : ¬ (start = .bound ∧ namesThrow = true)) :
    Disciplined (Service.startTor start namesThrow s) := by
  unfold Service.startTor
  split
  · exact h
  · have hstarting : Balanced { s with mCurrentStatus := .starting } := h.balanced
    obtain ⟨s', hstop, hreleased⟩ := stopTor_released hstarting hready
    obtain ⟨hbalanced, hcan, hstatus⟩ := startTorService_balanced hreleased start
    rw [(stopTor_eq_some hstop).1] at hstatus
    rw [startDaemon, hstop]
    dsimp only
    rcases hservice : startTorService start s' with ⟨after, _ | _⟩
    · rw [hservice] at hbalanced hcan
      exact (stopTorAsync_released hbalanced (hcan (.inl rfl))).disciplined
    · rw [hservice] at hbalanced hcan hstatus
      cases namesThrow with
      | false =>
        refine ⟨hbalanced, fun hoff ↦ ?_⟩
        exact absurd (hstatus.symm.trans hoff) (by simp)
      | true =>
        have hnot : start ≠ .bound := fun heq ↦ hbound ⟨heq, rfl⟩
        exact (stopTorAsync_released hbalanced (hcan (.inr hnot))).disciplined

/-- Without a torrc nothing is bound, so a live binding without a connection stays. -/
theorem disciplined_startTor_noTorrc {s : OrbotService} (h : Disciplined s)
    (hready : ¬ CanRelease s) : Disciplined (Service.startTor .noTorrc false s) := by
  have hconn : s.conn = none := by
    rw [← Option.not_isSome_iff_eq_none]
    exact fun hsome ↦ hready (.inl hsome)
  unfold Service.startTor
  split
  · exact h
  · simp only [startDaemon, stopTor, hconn, startTorService, Bool.not_false]
    exact ⟨h.balanced, fun hoff ↦ by simp at hoff⟩

/-! ## Callbacks -/

/-- A callback is answered: with the status `OFF` it must not get a connection. -/
theorem disciplined_awaitConnection {s : OrbotService} (h : Disciplined s) {callback : ℕ}
    {answer : ControlConnection}
    (hanswer : ∀ connection, answer = .accepts connection → s.mCurrentStatus ≠ .off) :
    Disciplined (awaitConnection callback answer s) := by
  cases answer with
  | null => exact ⟨h.balanced, fun hoff ↦ ⟨(h.off hoff).1, rfl⟩⟩
  | accepts connection =>
    exact ⟨h.balanced, fun hoff ↦ absurd hoff (hanswer connection rfl)⟩
  | refuses connection =>
    have hconnected : Balanced { s with conn := some connection } := h.balanced
    have hreleased := stopTorAsync_released hconnected (.inl rfl)
    exact Released.disciplined ⟨hreleased.bindings, hreleased.shouldUnbind, rfl⟩

theorem disciplined_onBindingFailed {s : OrbotService} (h : Disciplined s)
    (hready : CanRelease s) : Disciplined (onBindingFailed s) := by
  have hreleased := stopTorAsync_released h.balanced hready
  exact Released.disciplined ⟨hreleased.bindings, hreleased.shouldUnbind, rfl⟩

/-! ## Runs -/

/-- One step keeps the discipline. -/
theorem disciplined_next {s : OrbotService} {event : Event} (h : Disciplined s)
    (henabled : s.Enabled event) (hok : StopsConnected s event) : Disciplined (s.next event) := by
  cases event with
  | startTor start namesThrow =>
    change Disciplined (Service.startTor start namesThrow s)
    by_cases haccepted : ignoredStart s = none
    · obtain ⟨hready, hbound⟩ := hok haccepted
      by_cases hcan : CanRelease s
      · exact disciplined_startTor_of_canRelease h hcan hbound
      · obtain ⟨rfl, rfl⟩ := hready.resolve_left hcan
        exact disciplined_startTor_noTorrc h hcan
    · obtain ⟨message, hmessage⟩ := Option.ne_none_iff_exists'.mp haccepted
      simpa only [Service.startTor, hmessage] using h
  | stopTorAsync => exact (stopTorAsync_released h.balanced hok).disciplined
  | onServiceConnected connection answer =>
    have hasked : Disciplined { s with torService := true } := ⟨h.balanced, h.off⟩
    refine disciplined_awaitConnection hasked fun _ _ hoff ↦ ?_
    have hbound : connection ∈ s.bindings := henabled
    rw [(h.off hoff).1] at hbound
    exact absurd hbound List.not_mem_nil
  | pollConnection connection answer =>
    have hasked : Disciplined { s with waiting := s.waiting.erase connection } :=
      ⟨h.balanced, h.off⟩
    refine disciplined_awaitConnection hasked fun control hanswer ↦ ?_
    rw [hanswer] at hok
    exact hok
  | onServiceDisconnected connection =>
    exact ⟨h.balanced, fun hoff ↦ ⟨(h.off hoff).1, rfl⟩⟩
  | onNullBinding connection => exact disciplined_onBindingFailed h hok
  | onBindingDied connection => exact disciplined_onBindingFailed h hok
  | initControlConnection fails =>
    change Disciplined (Service.initControlConnection fails s)
    unfold Service.initControlConnection
    split
    · exact h
    · next control hconn =>
      split
      · have hreleased := stopTorAsync_released h.balanced (.inl (by simp [hconn]))
        exact Released.disciplined ⟨hreleased.bindings, hreleased.shouldUnbind, rfl⟩
      · exact h
  | circuitStatus connection status =>
    change Disciplined (Service.circuitStatus status s)
    unfold Service.circuitStatus
    split
    · exact ⟨h.balanced, fun hoff ↦ by simp at hoff⟩
    · exact h

/-- In every run that stops Tor only when its binding can be released, at most one binding is live,
and none, nor a connection, with the status `OFF`. -/
theorem binding_released (s : OrbotService) (h : serviceSystem.ReachableBy StopsConnected s) :
    BindingReleased s := by
  have hinit : Disciplined OrbotService.new := ⟨.inl ⟨rfl, rfl⟩, fun _ ↦ ⟨rfl, rfl⟩⟩
  have hinv : Disciplined s := serviceSystem.invariant_of_reachableBy Disciplined hinit
    (fun _ _ hstate henabled hok ↦ disciplined_next hstate henabled hok) h
  exact hinv.bindingReleased

/-- Tor is started, connected and stopped, and started again. -/
def startedTwice : List Event :=
  [.startTor .bound false, .onServiceConnected 0 .null, .pollConnection 0 (.accepts 0),
    .circuitStatus 0 "BUILT", .stopTorAsync, .startTor .bound false]

theorem binding_released_startedTwice :
    BindingReleased (serviceSystem.run OrbotService.new startedTwice) :=
  binding_released _ ⟨startedTwice, by decide, rfl⟩

/-- A stop before the control connection is there leaves the binding. -/
theorem binding_left_by_early_stop :
    ¬ ∀ s : OrbotService, serviceSystem.Reachable s → BindingReleased s := by
  intro h
  have hreleased := h _ ⟨[.startTor .bound false, .stopTorAsync], by decide, rfl⟩
  exact absurd hreleased (by decide)

end Orbot.Service
