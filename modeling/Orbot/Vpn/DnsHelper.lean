import Orbot.Vpn.VpnManager

/-!
# The daemons of the DNS helper

`stopDns` ends the daemon whose pid file `filePdnsPid` names, and no method assigns that field. So
no daemon is ever ended: there is at most one, and none after `stopVPN`, exactly in the runs that
start a daemon and call `stopVPN` only while no daemon is alive.
-/

namespace Orbot.Vpn

open Orbot.Foundation

/-- The event calls `stopVPN`. -/
def CallsStopVPN (m : VpnManager) : Event → Prop
  | .intent .start => threadIsAlive m = true
  | .intent .stop => True
  | .intent (.ports _ _) | .thread _ _ => False

instance (m : VpnManager) : ∀ event, Decidable (CallsStopVPN m event)
  | .intent .start => inferInstanceAs (Decidable (_ = true))
  | .intent .stop => inferInstanceAs (Decidable True)
  | .intent (.ports _ _) | .thread _ _ => inferInstanceAs (Decidable False)

/-- The next step of the thread starts the DNS helper and the tunnel. -/
def Stage.StartsTunnel : Stage → Prop
  | .startTunnel _ => True
  | _ => False

instance : DecidablePred Stage.StartsTunnel
  | .startTunnel _ => isTrue trivial
  | .begin | .wait | .configure | .establish _ | .install _ | .tunnel | .finished => isFalse id

/-- The event is a step of a thread in which `startDNS` starts a daemon. -/
def StartsDaemon (m : VpnManager) : Event → Prop
  | .intent _ => False
  | .thread thread startDns =>
      startDns = .starts ∧ m.filePdnsd = true ∧ ∃ stage ∈ m.threads[thread]?, stage.StartsTunnel

instance (m : VpnManager) : ∀ event, Decidable (StartsDaemon m event)
  | .intent _ => inferInstanceAs (Decidable False)
  | .thread thread _ =>
      inferInstanceAs (Decidable (_ ∧ _ ∧ ∃ stage ∈ m.threads[thread]?, stage.StartsTunnel))

/-- A daemon is started, and `stopVPN` called, only while no daemon is alive. -/
def NoDaemonBefore (m : VpnManager) (event : Event) : Prop :=
  StartsDaemon m event ∨ CallsStopVPN m event → m.daemons = []

instance (m : VpnManager) (event : Event) : Decidable (NoDaemonBefore m event) :=
  inferInstanceAs (Decidable (_ ∨ _ → _))

/-! ## The pid file is not known -/

/-- Without a pid file `stopDns` does nothing. -/
theorem stopDns_of_none {m : VpnManager} (h : m.filePdnsPid = none) : stopDns m = m := by
  rw [stopDns, h]

/-- The pid file and the daemons. -/
def dnsState (m : VpnManager) : Option Pdnsd × List Pdnsd := (m.filePdnsPid, m.daemons)

theorem dnsState_stopVPN {m : VpnManager} (h : m.filePdnsPid = none) :
    dnsState (stopVPN m) = dnsState m := by
  rw [stopVPN, stopDns_of_none (by exact h)]
  rfl

theorem dnsState_stopPrevious {m : VpnManager} (h : m.filePdnsPid = none) :
    dnsState (stopPrevious m) = dnsState m := by
  unfold stopPrevious
  split
  · exact dnsState_stopVPN h
  · rfl

theorem dnsState_setupTun2Socks {m : VpnManager} (h : m.filePdnsPid = none) :
    dnsState (setupTun2Socks m) = dnsState m := by
  unfold setupTun2Socks
  split
  · rw [stopDns_of_none (by exact h)]
    rfl
  · rfl

/-- An intent ends no daemon. -/
theorem dnsState_handleIntent {m : VpnManager} (h : m.filePdnsPid = none) (intent : Intent) :
    dnsState (handleIntent m intent) = dnsState m := by
  cases intent with
  | start =>
    have hprevious := dnsState_stopPrevious (m := { m with isStarted := true }) h
    rw [handleIntent]
    split
    · exact (dnsState_setupTun2Socks ((congrArg Prod.fst hprevious).trans h)).trans hprevious
    · exact hprevious
  | stop => exact dnsState_stopVPN (m := { m with isStarted := false }) h
  | ports torSocks torDns =>
    rw [handleIntent]
    split
    · exact dnsState_setupTun2Socks h
    · rfl

theorem filePdnsPid_startTunnel (m : VpnManager) (socksPort : Int32) (startDns : StartDns) :
    (startTunnel socksPort startDns m).filePdnsPid = m.filePdnsPid := by
  obtain ⟨_, _, _, hend⟩ := startTunnel_eq m socksPort startDns
  rw [hend]

@[simp]
theorem Tun2Socks.start_daemons (socksPort : Int32) (m : VpnManager) :
    (Tun2Socks.start socksPort m).daemons = m.daemons := by
  unfold Tun2Socks.start
  split <;> rfl

/-- The end of a set-up adds the daemon that `startDNS` starts. -/
theorem daemons_startTunnel (m : VpnManager) (socksPort : Int32) (startDns : StartDns) :
    (startTunnel socksPort startDns m).daemons =
      if startDns = .starts ∧ m.filePdnsd = true then
        m.daemons ++ [⟨m.pdnsdPort + 1, m.mTorDns⟩]
      else m.daemons := by
  unfold startTunnel
  cases hbinary : m.filePdnsd with
  | false => simp
  | true =>
    cases startDns with
    | throws => rfl
    | exits => exact Tun2Socks.start_daemons socksPort _
    | starts => exact Tun2Socks.start_daemons socksPort _

/-- A thread step keeps the pid file and starts at most one daemon. -/
theorem daemons_runThread (m : VpnManager) (thread : ℕ) (startDns : StartDns) :
    (runThread thread startDns m).filePdnsPid = m.filePdnsPid ∧
      (runThread thread startDns m).daemons =
        if StartsDaemon m (.thread thread startDns) then
          m.daemons ++ [⟨m.pdnsdPort + 1, m.mTorDns⟩]
        else m.daemons := by
  have hother {stage : Option Stage} (hstage : m.threads[thread]? = stage)
      (hnot : ∀ s ∈ stage, ¬ s.StartsTunnel) : ¬ StartsDaemon m (.thread thread startDns) := by
    rintro ⟨-, -, s, hs, hstarts⟩
    exact hnot s (hstage ▸ hs) hstarts
  unfold runThread
  dsimp only
  split
  case h_6 socksPort hstage =>
    refine ⟨filePdnsPid_startTunnel m socksPort startDns, ?_⟩
    have hstarts : StartsDaemon m (.thread thread startDns) ↔
        startDns = .starts ∧ m.filePdnsd = true := by
      simp [StartsDaemon, hstage, Stage.StartsTunnel]
    simp only [daemons_startTunnel, hstarts]
  all_goals
    next hstage => exact ⟨rfl, (if_neg (hother hstage (by simp [Stage.StartsTunnel]))).symm⟩

/-! ## Runs -/

/-- The invariant of the runs: no pid file, at most one daemon. -/
def OneDaemon (m : VpnManager) : Prop := m.filePdnsPid = none ∧ m.daemons.length ≤ 1

/-- After `stopVPN` no daemon is alive. -/
def NoDaemonAfterStop (m : VpnManager) (event : Event) : Prop :=
  CallsStopVPN m event → (m.next event).daemons = []

/-- A step keeps the bound and leaves no daemon after `stopVPN` if and only if it meets the
condition. -/
theorem oneDaemon_next_iff {m : VpnManager} (h : OneDaemon m) (event : Event) :
    OneDaemon (m.next event) ∧ NoDaemonAfterStop m event ↔ NoDaemonBefore m event := by
  cases event with
  | intent intent =>
    have hkeep : dnsState (m.next (.intent intent)) = dnsState m := dnsState_handleIntent h.1 intent
    have hpid : (m.next (.intent intent)).filePdnsPid = m.filePdnsPid := congrArg Prod.fst hkeep
    have hdaemons : (m.next (.intent intent)).daemons = m.daemons := congrArg Prod.snd hkeep
    have hone : OneDaemon (m.next (.intent intent)) := by
      rw [OneDaemon, hpid, hdaemons]
      exact h
    simp [NoDaemonAfterStop, NoDaemonBefore, StartsDaemon, hone, hdaemons]
  | thread thread startDns =>
    obtain ⟨hpid, hdaemons⟩ := daemons_runThread m thread startDns
    have hpid' : (m.next (.thread thread startDns)).filePdnsPid = none := hpid.trans h.1
    have hnoStop : NoDaemonAfterStop m (.thread thread startDns) := fun hcalls ↦ hcalls.elim
    rw [and_iff_left hnoStop, OneDaemon, and_iff_right hpid']
    change (runThread thread startDns m).daemons.length ≤ 1 ↔ _
    rw [hdaemons]
    by_cases hstarts : StartsDaemon m (.thread thread startDns)
    · simp [NoDaemonBefore, hstarts]
    · simp [NoDaemonBefore, hstarts, CallsStopVPN, h.2]

/-- In a run at most one daemon is alive in every state, and none after each `stopVPN`, if and only
if every daemon is started and every `stopVPN` called while no daemon is alive. -/
theorem one_daemon_iff (filePdnsd : Bool) (events : List Event)
    (hrun : (vpnSystem filePdnsd).Admissible (fun _ _ ↦ True) (VpnManager.new filePdnsd) events) :
    (vpnSystem filePdnsd).Admissible NoDaemonBefore (VpnManager.new filePdnsd) events ↔
      ∀ n, ((vpnSystem filePdnsd).run (VpnManager.new filePdnsd)
          (events.take n)).daemons.length ≤ 1 ∧
        ∀ event ∈ events[n]?, NoDaemonAfterStop
          ((vpnSystem filePdnsd).run (VpnManager.new filePdnsd) (events.take n)) event := by
  have hpid (actions : List Event) :
      ((vpnSystem filePdnsd).run (VpnManager.new filePdnsd) actions).filePdnsPid = none := by
    refine (vpnSystem filePdnsd).preserved_run (fun m ↦ m.filePdnsPid = none) ?_ rfl actions
    intro m event hm
    cases event with
    | intent intent => exact (congrArg Prod.fst (dnsState_handleIntent hm intent)).trans hm
    | thread thread startDns => exact (daemons_runThread m thread startDns).1.trans hm
  have hiff := (vpnSystem filePdnsd).admissible_iff_steps OneDaemon NoDaemonAfterStop
    (fun m event hm _ ↦ oneDaemon_next_iff hm event)
    (⟨rfl, Nat.zero_le 1⟩ : OneDaemon (VpnManager.new filePdnsd)) hrun
  rw [hiff]
  simp only [OneDaemon, hpid, true_and]

/-- The thread of the first set-up enters the tunnel. -/
def setUpOnce : List Event :=
  [.intent (.ports 9050 5400), .thread 0 .starts, .thread 0 .starts, .thread 0 .starts,
    .thread 0 .starts, .thread 0 .starts]

theorem one_daemon_iff_setUpOnce :
    (vpnSystem true).Admissible NoDaemonBefore (VpnManager.new true) setUpOnce ↔
      ∀ n, ((vpnSystem true).run (VpnManager.new true) (setUpOnce.take n)).daemons.length ≤ 1 ∧
        ∀ event ∈ setUpOnce[n]?, NoDaemonAfterStop
          ((vpnSystem true).run (VpnManager.new true) (setUpOnce.take n)) event :=
  one_daemon_iff true setUpOnce (by decide)

/-- Two set-ups, each with a stop after it that ends the tunnel and the thread. -/
def setUpTwice : List Event :=
  setUpOnce ++ [.intent .stop, .thread 0 .starts, .intent .start, .thread 1 .starts,
    .thread 1 .starts, .thread 1 .starts, .thread 1 .starts, .thread 1 .starts, .intent .stop,
    .thread 1 .starts]

/-- The daemon of the first set-up survives the stop, and the second set-up starts another one. -/
theorem two_daemons :
    ¬ ∀ (filePdnsd : Bool) (events : List Event),
      (vpnSystem filePdnsd).Admissible (fun _ _ ↦ True) (VpnManager.new filePdnsd) events →
      (∀ stage ∈ ((vpnSystem filePdnsd).run (VpnManager.new filePdnsd) events).threads,
        stage = .finished) →
      ((vpnSystem filePdnsd).run (VpnManager.new filePdnsd) events).daemons.length ≤ 1 := by
  intro h
  have hone := h true setUpTwice (by decide) (by decide)
  exact absurd hone (by decide)

end Orbot.Vpn
