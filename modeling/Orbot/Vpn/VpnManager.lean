import Mathlib.Data.List.Basic
import Orbot.Foundation.System

/-!
# The VPN manager

`OrbotVpnManager` handles the start, stop and port intents and sets the tunnel up on a thread of
its own for each set-up. The state holds the fields of the manager and what its threads have left
to do; the threads take their steps in any order between the intents. A set-up thread waits when it
sees a restart, then reads Tor's SOCKS port, establishes an interface, installs it in place of the
old one and at last starts the DNS helper and the tunnel on it. The native tunnel returns when it
ends, so its thread can stay alive for any time after the set-up.
-/

namespace Orbot.Vpn

open Orbot.Foundation

/-- An established interface, with the SOCKS port that its thread had read before. -/
structure Interface where
  socksPort : Int32
  deriving DecidableEq

/-- The ports that the native tunnel was last started with, and the one of Tor's that the DNS helper
was configured with just before. -/
structure Tun2Socks where
  socksPort : Int32
  pdnsdPort : Int32
  torDnsPort : Int32
  deriving DecidableEq

/-- A daemon that `startDNS` has started: its own port and Tor's. -/
structure Pdnsd where
  pdnsdPort : Int32
  torDnsPort : Int32
  deriving DecidableEq

/-- What a set-up thread is about to do. -/
inductive Stage where
  /-- Look at `isRestart`. -/
  | begin
  /-- Wake up after the wait of a restart. -/
  | wait
  /-- Read Tor's SOCKS port and configure the builder. -/
  | configure
  /-- Establish the interface. -/
  | establish (socksPort : Int32)
  /-- Close the old interface and take the new one over. -/
  | install (interface : Interface)
  /-- Start the DNS helper and the tunnel. -/
  | startTunnel (socksPort : Int32)
  /-- Return from the native tunnel. -/
  | tunnel
  | finished
  deriving DecidableEq

/-- A set-up thread that has yet to install an interface. -/
def Stage.IsPending : Stage → Prop
  | .begin | .wait | .configure | .establish _ | .install _ => True
  | .startTunnel _ | .tunnel | .finished => False

instance : DecidablePred Stage.IsPending
  | .begin | .wait | .configure | .establish _ | .install _ => isTrue trivial
  | .startTunnel _ | .tunnel | .finished => isFalse id

/-- A thread whose set-up is over; it may still be in the native tunnel. -/
def Stage.IsSetUp : Stage → Prop
  | .tunnel | .finished => True
  | .begin | .wait | .configure | .establish _ | .install _ | .startTunnel _ => False

instance : DecidablePred Stage.IsSetUp
  | .tunnel | .finished => isTrue trivial
  | .begin | .wait | .configure | .establish _ | .install _ | .startTunnel _ => isFalse id

/-- The fields of `OrbotVpnManager`, its threads in the order of their creation, and the processes
that they have started. A thread is denoted by its position. -/
structure VpnManager where
  isStarted : Bool
  mTorSocks : Int32
  mTorDns : Int32
  mInterface : Option Interface
  isRestart : Bool
  mThreadVPN : Option ℕ
  pdnsdPort : Int32
  /-- The binary of the DNS helper was loaded. -/
  filePdnsd : Bool
  /-- The daemon that the pid file belongs to; no method sets it. -/
  filePdnsPid : Option Pdnsd
  threads : List Stage
  tun2Socks : Option Tun2Socks
  daemons : List Pdnsd
  deriving DecidableEq

/-- A new manager. -/
def VpnManager.new (filePdnsd : Bool) : VpnManager where
  isStarted := false
  mTorSocks := -1
  mTorDns := -1
  mInterface := none
  isRestart := false
  mThreadVPN := none
  pdnsdPort := 8091
  filePdnsd := filePdnsd
  filePdnsPid := none
  threads := []
  tun2Socks := none
  daemons := []

/-! ## Intents -/

/-- The intents that `handleIntent` looks at: `ACTION_START_VPN` or `ACTION_START`,
`ACTION_STOP_VPN`, and `LOCAL_ACTION_PORTS` with its extras, which default to -1. -/
inductive Intent where
  | start
  | stop
  | ports (torSocks torDns : Int32)
  deriving DecidableEq

def stopDns (m : VpnManager) : VpnManager :=
  match m.filePdnsPid with
  | some daemon => { m with daemons := m.daemons.erase daemon, filePdnsPid := none }
  | none => m

def stopVPN (m : VpnManager) : VpnManager :=
  { stopDns { m with tun2Socks := none, mInterface := none } with mThreadVPN := none }

def setupTun2Socks (m : VpnManager) : VpnManager :=
  let m :=
    if m.mInterface.isSome then stopDns { m with isRestart := true, tun2Socks := none } else m
  { m with mThreadVPN := some m.threads.length, threads := m.threads ++ [.begin] }

/-- `mThreadVPN != null && mThreadVPN.isAlive()`. -/
def threadIsAlive (m : VpnManager) : Bool :=
  m.mThreadVPN.any fun thread ↦ m.threads[thread]?.any fun stage ↦ stage ≠ .finished

/-- Stop the previous session if its thread still runs. -/
def stopPrevious (m : VpnManager) : VpnManager := if threadIsAlive m then stopVPN m else m

def handleIntent (m : VpnManager) : Intent → VpnManager
  | .start =>
      let m := stopPrevious { m with isStarted := true }
      if m.mTorSocks ≠ -1 then setupTun2Socks m else m
  | .stop => stopVPN { m with isStarted := false }
  | .ports torSocks torDns =>
      if torSocks ≠ m.mTorSocks ∨ torDns ≠ m.mTorDns then
        setupTun2Socks { m with mTorSocks := torSocks, mTorDns := torDns }
      else m

/-! ## Set-up threads -/

/-- What happens in `startDNS`: an `IOException`, an exit of the helper with an error, which is only
logged, or a new daemon. -/
inductive StartDns where
  | throws
  | exits
  | starts
  deriving DecidableEq

/-- `startDNS` with the ports of the manager; `none` when it throws. -/
def startDNS (startDns : StartDns) (m : VpnManager) : Option VpnManager :=
  match startDns with
  | .throws => none
  | .exits => some m
  | .starts => some { m with daemons := m.daemons ++ [⟨m.pdnsdPort, m.mTorDns⟩] }

/-- The call of `Tun2Socks.Start`, which does nothing without an interface. -/
def Tun2Socks.start (socksPort : Int32) (m : VpnManager) : VpnManager :=
  if m.mInterface.isSome then
    { m with tun2Socks := some ⟨socksPort, m.pdnsdPort, m.mTorDns⟩ }
  else m

/-- The end of a set-up: with the binary of the DNS helper, start the helper and the tunnel. -/
def startTunnel (socksPort : Int32) (startDns : StartDns) (m : VpnManager) : VpnManager :=
  if m.filePdnsd then
    let m := { m with pdnsdPort := m.pdnsdPort + 1 }
    match startDNS startDns m with
    | some m => Tun2Socks.start socksPort m
    | none => m
  else m

/-- The end of a set-up calls the native tunnel. -/
def EntersTunnel (m : VpnManager) (startDns : StartDns) : Prop :=
  m.filePdnsd = true ∧ startDns ≠ .throws ∧ m.mInterface.isSome

instance (m : VpnManager) (startDns : StartDns) : Decidable (EntersTunnel m startDns) :=
  inferInstanceAs (Decidable (_ ∧ _ ∧ _))

/-- The next step of a set-up thread. When the native tunnel returns is not determined. -/
def runThread (thread : ℕ) (startDns : StartDns) (m : VpnManager) : VpnManager :=
  let continueAt (stage : Stage) (m : VpnManager) : VpnManager :=
    { m with threads := m.threads.set thread stage }
  match m.threads[thread]? with
  | some .begin => continueAt (if m.isRestart then .wait else .configure) m
  | some .wait => continueAt .configure m
  | some .configure => continueAt (.establish m.mTorSocks) m
  | some (.establish socksPort) => continueAt (.install ⟨socksPort⟩) m
  | some (.install newInterface) =>
      continueAt (.startTunnel newInterface.socksPort)
        { m with mInterface := some newInterface, isRestart := false }
  | some (.startTunnel socksPort) =>
      continueAt (if EntersTunnel m startDns then .tunnel else .finished)
        (startTunnel socksPort startDns m)
  | some .tunnel => continueAt .finished m
  | some .finished | none => m

/-- An intent, or a step of a thread. -/
inductive Event where
  | intent (intent : Intent)
  | thread (thread : ℕ) (startDns : StartDns)
  deriving DecidableEq

def VpnManager.next (m : VpnManager) : Event → VpnManager
  | .intent intent => handleIntent m intent
  | .thread thread startDns => runThread thread startDns m

/-- Intents can come at any time; a thread runs until it has finished, the one in the native tunnel
whenever that returns. -/
def VpnManager.Enabled (m : VpnManager) : Event → Prop
  | .intent _ => True
  | .thread thread _ => ∃ stage ∈ m.threads[thread]?, stage ≠ .finished

instance (m : VpnManager) : ∀ event, Decidable (m.Enabled event)
  | .intent _ => inferInstanceAs (Decidable True)
  | .thread thread _ => inferInstanceAs (Decidable (∃ stage ∈ m.threads[thread]?, _))

/-- The manager with its threads, from its creation. -/
def vpnSystem (filePdnsd : Bool) : System VpnManager Event where
  init := VpnManager.new filePdnsd
  enabled := VpnManager.Enabled
  next := VpnManager.next

instance (filePdnsd : Bool) (m : VpnManager) (event : Event) :
    Decidable ((vpnSystem filePdnsd).enabled m event) :=
  inferInstanceAs (Decidable (m.Enabled event))

/-! ## What an intent or the end of a set-up changes -/

section Fields

variable (m : VpnManager)

@[simp]
theorem stopDns_isStarted : (stopDns m).isStarted = m.isStarted := by
  unfold stopDns
  split <;> rfl

@[simp]
theorem stopDns_mTorSocks : (stopDns m).mTorSocks = m.mTorSocks := by
  unfold stopDns
  split <;> rfl

@[simp]
theorem stopDns_mTorDns : (stopDns m).mTorDns = m.mTorDns := by
  unfold stopDns
  split <;> rfl

@[simp]
theorem stopDns_tun2Socks : (stopDns m).tun2Socks = m.tun2Socks := by
  unfold stopDns
  split <;> rfl

@[simp]
theorem stopDns_mInterface : (stopDns m).mInterface = m.mInterface := by
  unfold stopDns
  split <;> rfl

@[simp]
theorem stopDns_threads : (stopDns m).threads = m.threads := by
  unfold stopDns
  split <;> rfl

@[simp]
theorem stopVPN_isStarted : (stopVPN m).isStarted = m.isStarted := by simp [stopVPN]

@[simp]
theorem stopVPN_mTorSocks : (stopVPN m).mTorSocks = m.mTorSocks := by simp [stopVPN]

@[simp]
theorem stopVPN_mTorDns : (stopVPN m).mTorDns = m.mTorDns := by simp [stopVPN]

@[simp]
theorem stopVPN_tun2Socks : (stopVPN m).tun2Socks = none := by simp [stopVPN]

/-- `stopVPN` closes the interface. -/
@[simp]
theorem stopVPN_mInterface : (stopVPN m).mInterface = none := by simp [stopVPN]

/-- `stopVPN` does not stop a set-up thread. -/
@[simp]
theorem stopVPN_threads : (stopVPN m).threads = m.threads := by simp [stopVPN]

@[simp]
theorem stopPrevious_isStarted : (stopPrevious m).isStarted = m.isStarted := by
  unfold stopPrevious
  split <;> simp

@[simp]
theorem stopPrevious_mTorSocks : (stopPrevious m).mTorSocks = m.mTorSocks := by
  unfold stopPrevious
  split <;> simp

@[simp]
theorem stopPrevious_mTorDns : (stopPrevious m).mTorDns = m.mTorDns := by
  unfold stopPrevious
  split <;> simp

@[simp]
theorem stopPrevious_threads : (stopPrevious m).threads = m.threads := by
  unfold stopPrevious
  split <;> simp

/-- An interface that survives was there before. -/
theorem isSome_of_stopPrevious (h : (stopPrevious m).mInterface.isSome) :
    m.mInterface.isSome := by
  unfold stopPrevious at h
  split at h
  · simp at h
  · exact h

@[simp]
theorem setupTun2Socks_isStarted : (setupTun2Socks m).isStarted = m.isStarted := by
  unfold setupTun2Socks
  split <;> simp

@[simp]
theorem setupTun2Socks_mTorSocks : (setupTun2Socks m).mTorSocks = m.mTorSocks := by
  unfold setupTun2Socks
  split <;> simp

@[simp]
theorem setupTun2Socks_mTorDns : (setupTun2Socks m).mTorDns = m.mTorDns := by
  unfold setupTun2Socks
  split <;> simp

/-- A set-up that replaces an interface stops its tunnel. -/
@[simp]
theorem setupTun2Socks_tun2Socks :
    (setupTun2Socks m).tun2Socks = if m.mInterface.isSome then none else m.tun2Socks := by
  unfold setupTun2Socks
  split <;> simp

/-- A set-up leaves the old interface to its thread. -/
@[simp]
theorem setupTun2Socks_mInterface : (setupTun2Socks m).mInterface = m.mInterface := by
  unfold setupTun2Socks
  split <;> simp

@[simp]
theorem setupTun2Socks_threads : (setupTun2Socks m).threads = m.threads ++ [.begin] := by
  unfold setupTun2Socks
  split <;> simp

/-- A set-up starts a thread. -/
theorem begin_mem_setupTun2Socks : .begin ∈ (setupTun2Socks m).threads := by
  rw [setupTun2Socks_threads]
  apply List.mem_append_right
  exact List.mem_singleton_self _

/-- The end of a set-up changes the port of the DNS helper, the daemons and the tunnel. -/
theorem startTunnel_eq (socksPort : Int32) (startDns : StartDns) :
    ∃ pdnsdPort daemons tun2Socks, startTunnel socksPort startDns m =
      { m with pdnsdPort := pdnsdPort, daemons := daemons, tun2Socks := tun2Socks } := by
  unfold startTunnel
  split
  · cases startDns with
    | throws => exact ⟨m.pdnsdPort + 1, m.daemons, m.tun2Socks, rfl⟩
    | exits | starts =>
      simp only [startDNS, Tun2Socks.start]
      split <;> exact ⟨_, _, _, rfl⟩
  · exact ⟨m.pdnsdPort, m.daemons, m.tun2Socks, rfl⟩

/-- Some thread is at a stage with a property, still after a thread whose own next stage keeps it
has gone on. -/
theorem exists_mem_set {P : Stage → Prop} {threads : List Stage} {thread : ℕ} {stage : Stage}
    (hkeep : ∀ old ∈ threads[thread]?, P old → P stage) (h : ∃ other ∈ threads, P other) :
    ∃ other ∈ threads.set thread stage, P other := by
  obtain ⟨other, hmem, hother⟩ := h
  obtain ⟨position, hposition, rfl⟩ := List.mem_iff_getElem.mp hmem
  by_cases hself : thread = position
  · subst hself
    exact ⟨stage, List.mem_set hposition stage,
      hkeep _ (List.getElem?_eq_getElem hposition) hother⟩
  · refine ⟨threads[position], ?_, hother⟩
    rw [List.mem_iff_getElem]
    exact ⟨position, by simpa using hposition, List.getElem_set_ne hself _⟩

end Fields

end Orbot.Vpn
