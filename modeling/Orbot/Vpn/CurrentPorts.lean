import Orbot.Vpn.VpnManager

/-!
# The ports of the tunnel

A set-up thread reads Tor's SOCKS port before it establishes its interface and uses it until its
end, while a ports intent that finds no interface lets the older threads go on. The installed
interface and its tunnel have the ports of the last ports intent in the runs where no thread
installs or starts with a port that is out of date, unless another thread has yet to install.
-/

namespace Orbot.Vpn

open Orbot.Foundation

/-- The SOCKS and DNS ports of the last ports intent. -/
def lastPorts (ports : Int32 × Int32) : List Event → Int32 × Int32
  | [] => ports
  | .intent (.ports torSocks torDns) :: rest => lastPorts (torSocks, torDns) rest
  | .intent .start :: rest | .intent .stop :: rest => lastPorts ports rest
  | .thread _ _ :: rest => lastPorts ports rest

/-- The installed interface and the tunnel are configured with the two ports. -/
def VpnManager.ConfiguredWith (m : VpnManager) (ports : Int32 × Int32) : Prop :=
  (∀ interface ∈ m.mInterface, interface.socksPort = ports.1) ∧
    ∀ tunnel ∈ m.tun2Socks, tunnel.socksPort = ports.1 ∧ tunnel.torDnsPort = ports.2

instance (m : VpnManager) (ports : Int32 × Int32) : Decidable (m.ConfiguredWith ports) :=
  inferInstanceAs (Decidable ((∀ interface ∈ m.mInterface, _) ∧ ∀ tunnel ∈ m.tun2Socks, _))

/-- A thread that has yet to install an interface, for the given SOCKS port. -/
def Stage.InstallsWith (torSocks : Int32) : Stage → Prop
  | .begin | .wait | .configure => True
  | .establish socksPort => socksPort = torSocks
  | .install newInterface => newInterface.socksPort = torSocks
  | .startTunnel _ | .tunnel | .finished => False

instance (torSocks : Int32) : DecidablePred (Stage.InstallsWith torSocks)
  | .begin | .wait | .configure => isTrue trivial
  | .establish _ | .install _ => inferInstanceAs (Decidable (_ = _))
  | .startTunnel _ | .tunnel | .finished => isFalse id

/-- Some thread has yet to install an interface with the current SOCKS port. -/
def VpnManager.HasCurrent (m : VpnManager) : Prop :=
  ∃ stage ∈ m.threads, stage.InstallsWith m.mTorSocks

instance (m : VpnManager) : Decidable m.HasCurrent :=
  inferInstanceAs (Decidable (∃ stage ∈ m.threads, _))

/-- The thread about to take its step may take it: an interface is installed with the current port
or replaced later, and a tunnel is started with the current port. -/
def Stage.UsesCurrentPort (m : VpnManager) (startDns : StartDns) : Stage → Prop
  | .install _ => m.HasCurrent
  | .startTunnel socksPort => EntersTunnel m startDns → socksPort = m.mTorSocks
  | .begin | .wait | .configure | .establish _ | .tunnel | .finished => True

instance (m : VpnManager) (startDns : StartDns) : DecidablePred (Stage.UsesCurrentPort m startDns)
  | .install _ => inferInstanceAs (Decidable m.HasCurrent)
  | .startTunnel _ => inferInstanceAs (Decidable (_ → _))
  | .begin | .wait | .configure | .establish _ | .tunnel | .finished => isTrue trivial

/-- No thread installs an interface or starts a tunnel with a port that is out of date. -/
def UsesCurrentPorts (m : VpnManager) : Event → Prop
  | .intent _ => True
  | .thread thread startDns => ∀ stage ∈ m.threads[thread]?, stage.UsesCurrentPort m startDns

instance (m : VpnManager) : ∀ event, Decidable (UsesCurrentPorts m event)
  | .intent _ => inferInstanceAs (Decidable True)
  | .thread thread startDns =>
      inferInstanceAs (Decidable (∀ stage ∈ m.threads[thread]?, stage.UsesCurrentPort m startDns))

/-- An interface with another port is about to be replaced; a tunnel has the current ports and an
interface. -/
structure PortsInvariant (m : VpnManager) : Prop where
  interface : ∀ interface ∈ m.mInterface, interface.socksPort = m.mTorSocks ∨ m.HasCurrent
  tunnel : ∀ tunnel ∈ m.tun2Socks,
    m.mInterface.isSome ∧ tunnel.socksPort = m.mTorSocks ∧ tunnel.torDnsPort = m.mTorDns

/-! ## Intents -/

theorem hasCurrent_setup (m : VpnManager) : (setupTun2Socks m).HasCurrent :=
  ⟨.begin, begin_mem_setupTun2Socks m, trivial⟩

/-- A set-up stops the tunnel that it replaces. -/
theorem PortsInvariant.setup {m : VpnManager}
    (h : ∀ tunnel ∈ m.tun2Socks, m.mInterface.isSome) : PortsInvariant (setupTun2Socks m) where
  interface _ _ := .inr (hasCurrent_setup m)
  tunnel tunnel htunnel := by
    rw [setupTun2Socks_tun2Socks] at htunnel
    split at htunnel
    · simp at htunnel
    · next hnone => exact absurd (h tunnel htunnel) hnone

theorem PortsInvariant.stopVPN (m : VpnManager) : PortsInvariant (Vpn.stopVPN m) where
  interface := by simp
  tunnel := by simp

theorem PortsInvariant.stopPrevious {m : VpnManager} (h : PortsInvariant m) :
    PortsInvariant (Vpn.stopPrevious { m with isStarted := true }) := by
  unfold Vpn.stopPrevious
  split
  · exact .stopVPN _
  · exact ⟨h.interface, h.tunnel⟩

theorem PortsInvariant.intent {m : VpnManager} (h : PortsInvariant m) (intent : Intent) :
    PortsInvariant (handleIntent m intent) := by
  cases intent with
  | start =>
    rw [handleIntent]
    split
    · exact .setup fun tunnel htunnel ↦ (h.stopPrevious.tunnel tunnel htunnel).1
    · exact h.stopPrevious
  | stop => exact .stopVPN _
  | ports torSocks torDns =>
    rw [handleIntent]
    split
    · exact .setup fun tunnel htunnel ↦ (h.tunnel tunnel htunnel).1
    · exact h

/-! ## Set-up threads -/

/-- A thread step that keeps the manager's fields keeps the invariant. -/
theorem PortsInvariant.goOn {m : VpnManager} (h : PortsInvariant m) {thread : ℕ}
    {old stage : Stage} (hold : m.threads[thread]? = some old)
    (hkeep : old.InstallsWith m.mTorSocks → stage.InstallsWith m.mTorSocks) :
    PortsInvariant { m with threads := m.threads.set thread stage } where
  interface newInterface hnew := by
    refine (h.interface newInterface hnew).imp_right (exists_mem_set fun other hother ↦ ?_)
    obtain rfl := Option.some_inj.mp (hold.symm.trans hother)
    exact hkeep
  tunnel := h.tunnel

/-- The interface that is installed has the current port, or one that has is yet to come. -/
theorem PortsInvariant.install {m : VpnManager} (h : PortsInvariant m) {thread : ℕ}
    {newInterface : Interface} (hold : m.threads[thread]? = some (.install newInterface))
    (hcurrent : m.HasCurrent) :
    PortsInvariant
      { m with
        mInterface := some newInterface
        isRestart := false
        threads := m.threads.set thread (.startTunnel newInterface.socksPort) } where
  interface interface hinterface := by
    obtain rfl := Option.some_inj.mp hinterface
    by_cases hport : newInterface.socksPort = m.mTorSocks
    · exact .inl hport
    · refine .inr (exists_mem_set (fun other hother hwith ↦ ?_) hcurrent)
      obtain rfl := Option.some_inj.mp (hold.symm.trans hother)
      exact absurd hwith hport
  tunnel tunnel htunnel := ⟨rfl, (h.tunnel tunnel htunnel).2⟩

theorem startTunnel_tun2Socks (m : VpnManager) (socksPort : Int32) (startDns : StartDns) :
    (startTunnel socksPort startDns m).tun2Socks =
      if EntersTunnel m startDns then
        some ⟨socksPort, m.pdnsdPort + 1, m.mTorDns⟩
      else m.tun2Socks := by
  by_cases hbinary : m.filePdnsd = true
  · rw [startTunnel, if_pos hbinary]
    cases startDns with
    | throws => simp [EntersTunnel, startDNS]
    | exits | starts =>
      cases hinterface : m.mInterface <;>
        simp [EntersTunnel, startDNS, Tun2Socks.start, hbinary, hinterface]
  · simp [startTunnel, EntersTunnel, hbinary]

/-- The tunnel that is started has the current ports. -/
theorem PortsInvariant.startTunnel {m : VpnManager} (h : PortsInvariant m) {socksPort : Int32}
    {startDns : StartDns} (hok : (Stage.startTunnel socksPort).UsesCurrentPort m startDns) :
    PortsInvariant (startTunnel socksPort startDns m) := by
  have hstarted := startTunnel_tun2Socks m socksPort startDns
  obtain ⟨pdnsdPort, daemons, tun2Socks, hend⟩ := startTunnel_eq m socksPort startDns
  rw [hend] at hstarted ⊢
  refine ⟨h.interface, fun tunnel htunnel ↦ ?_⟩
  have hnew : tun2Socks = some tunnel := htunnel
  rw [hnew] at hstarted
  split at hstarted
  · next hstarts =>
    obtain rfl := Option.some_inj.mp hstarted
    exact ⟨hstarts.2.2, hok hstarts, rfl⟩
  · exact h.tunnel tunnel hstarted.symm

theorem PortsInvariant.thread {m : VpnManager} (h : PortsInvariant m) {thread : ℕ}
    {startDns : StartDns} (hok : UsesCurrentPorts m (.thread thread startDns)) :
    PortsInvariant (runThread thread startDns m) := by
  unfold runThread
  dsimp only
  split
  · next hstage =>
    refine h.goOn hstage fun _ ↦ ?_
    split <;> trivial
  · next hstage => exact h.goOn hstage id
  · next hstage => exact h.goOn hstage fun _ ↦ rfl
  · next hstage => exact h.goOn hstage id
  · next hstage => exact h.install hstage (hok _ hstage)
  · next socksPort hstage =>
    have hend := h.startTunnel (hok _ hstage)
    have hold : (Vpn.startTunnel socksPort startDns m).threads[thread]? =
        some (Stage.startTunnel socksPort) := by
      obtain ⟨_, _, _, heq⟩ := startTunnel_eq m socksPort startDns
      rw [heq]
      exact hstage
    exact hend.goOn hold fun hinstalls ↦ hinstalls.elim
  · next hstage => exact h.goOn hstage id
  · exact h
  · exact h

/-! ## Runs -/

theorem ports_handleIntent (m : VpnManager) (intent : Intent) :
    ((handleIntent m intent).mTorSocks, (handleIntent m intent).mTorDns) =
      lastPorts (m.mTorSocks, m.mTorDns) [.intent intent] := by
  cases intent with
  | start =>
    unfold handleIntent
    dsimp only
    split <;> simp [lastPorts]
  | stop => simp [handleIntent, lastPorts]
  | ports torSocks torDns =>
    rw [handleIntent]
    split
    · simp [lastPorts]
    · next hsame =>
      simp only [ne_eq, not_or, not_not] at hsame
      simp [lastPorts, hsame]

theorem ports_runThread (m : VpnManager) (thread : ℕ) (startDns : StartDns) :
    (runThread thread startDns m).mTorSocks = m.mTorSocks ∧
      (runThread thread startDns m).mTorDns = m.mTorDns := by
  unfold runThread
  dsimp only
  split
  case h_6 socksPort _ =>
    obtain ⟨_, _, _, hend⟩ := startTunnel_eq m socksPort startDns
    rw [hend]
    exact ⟨rfl, rfl⟩
  all_goals exact ⟨rfl, rfl⟩

/-- The manager's ports are those of the last ports intent. -/
theorem ports_run (filePdnsd : Bool) (m : VpnManager) (events : List Event) :
    (((vpnSystem filePdnsd).run m events).mTorSocks,
      ((vpnSystem filePdnsd).run m events).mTorDns) =
        lastPorts (m.mTorSocks, m.mTorDns) events := by
  induction events generalizing m with
  | nil => rfl
  | cons event rest ih =>
    rw [System.run_cons, ih]
    cases event with
    | intent intent =>
      change lastPorts ((handleIntent m intent).mTorSocks, (handleIntent m intent).mTorDns) rest = _
      rw [ports_handleIntent]
      cases intent <;> rfl
    | thread thread startDns =>
      obtain ⟨hsocks, hdns⟩ := ports_runThread m thread startDns
      change lastPorts ((runThread thread startDns m).mTorSocks,
        (runThread thread startDns m).mTorDns) rest = _
      rw [hsocks, hdns]
      rfl

/-- A set-up, and another one after Tor has changed its ports, which ends the first tunnel. -/
def setUpAgain : List Event :=
  [.intent (.ports 9050 5400), .thread 0 .starts, .thread 0 .starts, .thread 0 .starts,
    .thread 0 .starts, .thread 0 .starts, .intent (.ports 9060 5410), .thread 0 .starts,
    .thread 1 .starts, .thread 1 .starts, .thread 1 .starts, .thread 1 .starts, .thread 1 .starts,
    .thread 1 .starts]

/-- Tor changes its ports while the first set-up thread has read them and not yet established its
interface; the second thread is faster. At last both tunnels end. -/
def overtaken : List Event :=
  [.intent (.ports 9050 5400), .thread 0 .starts, .thread 0 .starts, .intent (.ports 9060 5410),
    .thread 1 .starts, .thread 1 .starts, .thread 1 .starts, .thread 1 .starts, .thread 1 .starts,
    .thread 0 .starts, .thread 0 .starts, .thread 0 .starts, .thread 1 .starts, .thread 0 .starts]

end Orbot.Vpn
