import Orbot.Vpn.VpnManager

/-!
# When the tunnel is up

A set-up thread that has yet to install its interface is not stopped by a stop intent, and a ports
intent starts one whether or not the VPN was started. In the runs where every interface is
installed while the VPN is started and Tor's ports are known, an interface is installed exactly
then, once no set-up is pending.
-/

namespace Orbot.Vpn

open Orbot.Foundation

/-- The last start or stop intent was a start. -/
def askedFor (asked : Bool) : List Event → Bool
  | [] => asked
  | .intent .start :: rest => askedFor true rest
  | .intent .stop :: rest => askedFor false rest
  | .intent (.ports _ _) :: rest => askedFor asked rest
  | .thread _ _ :: rest => askedFor asked rest

/-- The VPN is wanted: it is started, and Tor's ports are known. -/
def VpnManager.IsWanted (m : VpnManager) : Prop := m.isStarted = true ∧ m.mTorSocks ≠ -1

instance (m : VpnManager) : Decidable m.IsWanted := inferInstanceAs (Decidable (_ ∧ _))

/-- A set-up thread has yet to install its interface. -/
def VpnManager.HasPending (m : VpnManager) : Prop := ∃ stage ∈ m.threads, stage.IsPending

instance (m : VpnManager) : Decidable m.HasPending :=
  inferInstanceAs (Decidable (∃ stage ∈ m.threads, _))

/-- The next step of the thread installs its interface. -/
def Stage.Installs : Stage → Prop
  | .install _ => True
  | _ => False

instance : DecidablePred Stage.Installs
  | .install _ => isTrue trivial
  | .begin | .wait | .configure | .establish _ | .startTunnel _ | .tunnel | .finished => isFalse id

/-- The event does not install an interface, or the VPN is wanted. -/
def InstallsWanted (m : VpnManager) : Event → Prop
  | .intent _ => True
  | .thread thread _ => ∀ stage ∈ m.threads[thread]?, stage.Installs → m.IsWanted

instance (m : VpnManager) : ∀ event, Decidable (InstallsWanted m event)
  | .intent _ => inferInstanceAs (Decidable True)
  | .thread thread _ =>
      inferInstanceAs (Decidable (∀ stage ∈ m.threads[thread]?, stage.Installs → _))

/-- A wanted tunnel is up or being set up; one that is up is wanted, or is being replaced because
Tor's ports are unknown again. -/
structure TunnelInvariant (m : VpnManager) : Prop where
  up : m.IsWanted → m.mInterface.isSome ∨ m.HasPending
  wanted : m.mInterface.isSome → m.isStarted = true ∧ (m.mTorSocks ≠ -1 ∨ m.HasPending)

/-! ## Intents -/

theorem hasPending_setup (m : VpnManager) : (setupTun2Socks m).HasPending :=
  ⟨.begin, begin_mem_setupTun2Socks m, trivial⟩

theorem TunnelInvariant.setup {m : VpnManager} (h : m.mInterface.isSome → m.isStarted = true) :
    TunnelInvariant (setupTun2Socks m) where
  up _ := .inr (hasPending_setup m)
  wanted hup := by
    rw [setupTun2Socks_mInterface] at hup
    rw [setupTun2Socks_isStarted]
    exact ⟨h hup, .inr (hasPending_setup m)⟩

theorem TunnelInvariant.intent {m : VpnManager} (h : TunnelInvariant m) (intent : Intent) :
    TunnelInvariant (handleIntent m intent) := by
  cases intent with
  | start =>
    rw [handleIntent]
    split
    · exact .setup fun _ ↦ by simp
    · next hunknown =>
      refine ⟨fun hwanted ↦ absurd hwanted.2 hunknown, fun hup ↦ ⟨by simp, ?_⟩⟩
      have hbefore := (h.wanted (isSome_of_stopPrevious { m with isStarted := true } hup)).2
      unfold VpnManager.HasPending
      rw [stopPrevious_mTorSocks, stopPrevious_threads]
      exact hbefore
  | stop =>
    constructor
    · intro hwanted
      simp [handleIntent, VpnManager.IsWanted] at hwanted
    · intro hup
      simp [handleIntent] at hup
  | ports torSocks torDns =>
    rw [handleIntent]
    split
    · exact .setup fun hup ↦ (h.wanted hup).1
    · exact h

/-! ## Set-up threads -/

/-- A thread step other than the installation keeps the manager's fields. -/
theorem TunnelInvariant.of_fields {m m' : VpnManager} (h : TunnelInvariant m)
    (hstarted : m'.isStarted = m.isStarted) (hsocks : m'.mTorSocks = m.mTorSocks)
    (hinterface : m'.mInterface = m.mInterface) (hpending : m.HasPending → m'.HasPending) :
    TunnelInvariant m' where
  up hwanted := by
    rw [VpnManager.IsWanted, hstarted, hsocks] at hwanted
    rw [hinterface]
    exact (h.up hwanted).imp_right hpending
  wanted hup := by
    rw [hinterface] at hup
    rw [hstarted, hsocks]
    exact (h.wanted hup).imp_right fun hknown ↦ hknown.imp_right hpending

theorem TunnelInvariant.thread {m : VpnManager} (h : TunnelInvariant m) {thread : ℕ}
    {startDns : StartDns} (hok : InstallsWanted m (.thread thread startDns)) :
    TunnelInvariant (runThread thread startDns m) := by
  have hset {stage : Stage} {m' : VpnManager} (hthreads : m'.threads = m.threads.set thread stage)
      {old : Stage} (hold : m.threads[thread]? = some old)
      (hkeep : old.IsPending → stage.IsPending) (hpending : m.HasPending) : m'.HasPending := by
    rw [VpnManager.HasPending, hthreads]
    refine exists_mem_set (fun other hother ↦ ?_) hpending
    obtain rfl := Option.some_inj.mp (hold.symm.trans hother)
    exact hkeep
  unfold runThread
  dsimp only
  split
  · next hstage =>
    refine h.of_fields rfl rfl rfl (hset rfl hstage fun _ ↦ ?_)
    split <;> trivial
  · next hstage => exact h.of_fields rfl rfl rfl (hset rfl hstage id)
  · next hstage => exact h.of_fields rfl rfl rfl (hset rfl hstage id)
  · next hstage => exact h.of_fields rfl rfl rfl (hset rfl hstage id)
  · next newInterface hstage =>
    have hwanted : m.IsWanted := hok _ hstage trivial
    exact ⟨fun _ ↦ .inl rfl, fun _ ↦ ⟨hwanted.1, .inl hwanted.2⟩⟩
  · next socksPort hstage =>
    obtain ⟨pdnsdPort, daemons, tun2Socks, hend⟩ := startTunnel_eq m socksPort startDns
    rw [hend]
    exact h.of_fields rfl rfl rfl (hset rfl hstage fun hpending ↦ hpending.elim)
  · next hstage => exact h.of_fields rfl rfl rfl (hset rfl hstage id)
  · exact h
  · exact h

/-! ## Runs -/

theorem isStarted_handleIntent (m : VpnManager) (intent : Intent) :
    (handleIntent m intent).isStarted = askedFor m.isStarted [.intent intent] := by
  cases intent with
  | start =>
    unfold handleIntent
    dsimp only
    split <;> simp [askedFor]
  | stop => simp [handleIntent, askedFor]
  | ports torSocks torDns =>
    rw [handleIntent]
    split <;> simp [askedFor]

theorem isStarted_runThread (m : VpnManager) (thread : ℕ) (startDns : StartDns) :
    (runThread thread startDns m).isStarted = m.isStarted := by
  unfold runThread
  dsimp only
  split
  case h_6 socksPort _ =>
    obtain ⟨_, _, _, hend⟩ := startTunnel_eq m socksPort startDns
    rw [hend]
  all_goals rfl

/-- `isStarted` is what the last start or stop intent asked for. -/
theorem isStarted_run (filePdnsd : Bool) (m : VpnManager) (events : List Event) :
    ((vpnSystem filePdnsd).run m events).isStarted = askedFor m.isStarted events := by
  induction events generalizing m with
  | nil => rfl
  | cons event rest ih =>
    rw [System.run_cons, ih]
    cases event with
    | intent intent =>
      have hnext := isStarted_handleIntent m intent
      change askedFor (handleIntent m intent).isStarted rest = _
      rw [hnext]
      cases intent <;> rfl
    | thread thread startDns =>
      change askedFor (runThread thread startDns m).isStarted rest = _
      rw [isStarted_runThread]
      rfl

/-- In every run that installs interfaces only while the VPN is wanted, once no set-up is pending an
interface is installed if and only if the last start or stop intent was a start and Tor's ports are
known. -/
theorem tunnel_up_iff_wanted (filePdnsd : Bool) (events : List Event) (m : VpnManager)
    (hrun : (vpnSystem filePdnsd).Admissible InstallsWanted (VpnManager.new filePdnsd) events)
    (hm : (vpnSystem filePdnsd).run (VpnManager.new filePdnsd) events = m)
    (hpending : ¬ m.HasPending) :
    m.mInterface.isSome ↔ askedFor false events = true ∧ m.mTorSocks ≠ -1 := by
  have hinit : TunnelInvariant (VpnManager.new filePdnsd) :=
    ⟨fun hwanted ↦ absurd hwanted.2 (by simp [VpnManager.new]), fun hup ↦ by
      simp [VpnManager.new] at hup⟩
  have hinv : TunnelInvariant m := by
    rw [← hm]
    refine (vpnSystem filePdnsd).invariant_run TunnelInvariant ?_ hinit hrun
    intro state event hstate _ hok
    cases event with
    | intent intent => exact hstate.intent intent
    | thread thread startDns => exact hstate.thread hok
  have hstarted : m.isStarted = askedFor false events := by
    rw [← hm]
    exact isStarted_run filePdnsd (VpnManager.new filePdnsd) events
  rw [← hstarted]
  constructor
  · intro hup
    exact (hinv.wanted hup).imp_right fun hknown ↦ hknown.resolve_right hpending
  · intro hwanted
    exact (hinv.up hwanted).resolve_right hpending

/-- The VPN is started, Tor's ports arrive, and the set-up thread runs to its end. -/
def startAndSetUp : List Event :=
  [.intent .start, .intent (.ports 9050 5400), .thread 0 .starts, .thread 0 .starts,
    .thread 0 .starts, .thread 0 .starts, .thread 0 .starts]

theorem tunnel_up_iff_wanted_startAndSetUp :
    ((vpnSystem true).run (VpnManager.new true) startAndSetUp).mInterface.isSome ↔
      askedFor false startAndSetUp = true ∧
        ((vpnSystem true).run (VpnManager.new true) startAndSetUp).mTorSocks ≠ -1 :=
  tunnel_up_iff_wanted true startAndSetUp _ (by decide) rfl (by decide)

/-- The VPN is stopped while the set-up thread has yet to establish its interface. -/
def stopDuringSetUp : List Event :=
  [.intent .start, .intent (.ports 9050 5400), .intent .stop, .thread 0 .starts, .thread 0 .starts,
    .thread 0 .starts, .thread 0 .starts, .thread 0 .starts]

/-- The set-up thread brings the tunnel up after the stop. -/
theorem tunnel_up_after_stop :
    ¬ ∀ (filePdnsd : Bool) (events : List Event) (m : VpnManager),
      (vpnSystem filePdnsd).Admissible (fun _ _ ↦ True) (VpnManager.new filePdnsd) events →
      (vpnSystem filePdnsd).run (VpnManager.new filePdnsd) events = m → ¬ m.HasPending →
        (m.mInterface.isSome ↔ askedFor false events = true ∧ m.mTorSocks ≠ -1) := by
  intro h
  have hiff := h true stopDuringSetUp _ (by decide) rfl (by decide)
  exact absurd hiff (by decide)

end Orbot.Vpn
