import Mathlib.Data.List.Basic
import Orbot.Foundation.System

/-!
# Starting and stopping Tor

`OrbotService` binds to the service that runs Tor and talks to Tor over a control connection. The
state holds the fields that starting, stopping and the callbacks of the binding read and write,
with the bindings made and not yet released. An event is a whole call of one of these methods, with
its environment's answers; only the callback that waits for the control connection takes several
steps. The status `STOPPING` is left within the call that sets it.
-/

namespace Orbot.Service

open Orbot.Foundation

/-- The values of `mCurrentStatus`. -/
inductive Status where
  | off
  | on
  | starting
  | stopping
  deriving DecidableEq

/-- The texts `STATUS_OFF`, `STATUS_ON`, `STATUS_STARTING` and `STATUS_STOPPING`. -/
def Status.text : Status → String
  | .off => "OFF"
  | .on => "ON"
  | .starting => "STARTING"
  | .stopping => "STOPPING"

/-- The fields of `OrbotService`; connections are numbered in the order of their creation. -/
structure OrbotService where
  mCurrentStatus : Status
  /-- The control connection to Tor. -/
  conn : Option ℕ
  torServiceConnection : Option ℕ
  /-- `torService` is not `null`. -/
  torService : Bool
  shouldUnbindTorService : Bool
  /-- The service connections that `bindService` has bound and `unbindService` not released. -/
  bindings : List ℕ
  /-- The number of service connections created. -/
  connections : ℕ
  /-- The callbacks `onServiceConnected` that wait for the control connection. -/
  waiting : List ℕ
  /-- The control connections that report events to `TorEventHandler`. -/
  reporting : List ℕ
  deriving DecidableEq

def OrbotService.new : OrbotService where
  mCurrentStatus := .off
  conn := none
  torServiceConnection := none
  torService := false
  shouldUnbindTorService := false
  bindings := []
  connections := 0
  waiting := []
  reporting := []

/-! ## Stopping -/

/-- `unbindService` of the saved connection; `none` for the exception that a connection raises
which is not bound. -/
def unbindTorService (s : OrbotService) : Option OrbotService :=
  match s.torServiceConnection with
  | some connection =>
      if connection ∈ s.bindings then
        some { s with
          bindings := s.bindings.erase connection
          shouldUnbindTorService := false }
      else none
  | none => none

/-- `stopTor`; `none` when it throws, which leaves everything as it was. -/
def stopTor (s : OrbotService) : Option OrbotService :=
  match s.conn with
  | none => some s
  | some _ =>
      let unbound := if s.shouldUnbindTorService then unbindTorService s else some s
      unbound.map fun s ↦ { s with conn := none }

/-- `stopTorAsync`, which catches what `stopTor` throws. -/
def stopTorAsync (s : OrbotService) : OrbotService :=
  let s := { s with mCurrentStatus := .stopping }
  { (stopTor s).getD s with mCurrentStatus := .off }

/-- `stopTorOnError`, up to the notification. -/
def stopTorOnError (s : OrbotService) : OrbotService := stopTorAsync s

/-! ## Starting -/

/-- What happens in `startTorService`. -/
inductive ServiceStart where
  /-- An exception while the torrc is written. -/
  | throws
  /-- The torrc does not exist or cannot be read. -/
  | noTorrc
  /-- `bindService` throws, or returns whether it has bound. -/
  | bindThrows
  | notBound
  | bound
  deriving DecidableEq

/-- `startTorService`; the flag says whether it returns. -/
def startTorService (start : ServiceStart) (s : OrbotService) : OrbotService × Bool :=
  let created : OrbotService :=
    { s with torServiceConnection := some s.connections, connections := s.connections + 1 }
  match start with
  | .throws => (s, false)
  | .noTorrc => (s, true)
  | .bindThrows => (created, false)
  | .notBound => ({ created with shouldUnbindTorService := false }, true)
  | .bound =>
      ({ created with
          shouldUnbindTorService := true
          bindings := s.bindings ++ [s.connections] }, true)

/-- The body of `startTor` after the status is set to `STARTING`; `namesThrow` says whether an
exception leaves the refresh of the onion names. The flag says whether it returns. -/
def startDaemon (start : ServiceStart) (namesThrow : Bool) (s : OrbotService) :
    OrbotService × Bool :=
  match stopTor s with
  | none => (s, false)
  | some s =>
      match startTorService start s with
      | (s, true) => (s, !namesThrow)
      | (s, false) => (s, false)

/-- The status in which a start request is ignored, with the message about it. -/
def ignoredStart (s : OrbotService) : Option String :=
  if s.mCurrentStatus = .stopping then
    some ("Ignoring start request, currently " ++ s.mCurrentStatus.text)
  else if s.mCurrentStatus = .on then some "Ignoring start request, already started."
  else none

/-- `startTor`. -/
def startTor (start : ServiceStart) (namesThrow : Bool) (s : OrbotService) : OrbotService :=
  match ignoredStart s with
  | some _ => s
  | none =>
      match startDaemon start namesThrow { s with mCurrentStatus := .starting } with
      | (s, true) => s
      | (s, false) => stopTorOnError s

/-! ## Callbacks -/

/-- What `getTorControlConnection` returns, and whether Tor then accepts the events to report. -/
inductive ControlConnection where
  | null
  | accepts (connection : ℕ)
  | refuses (connection : ℕ)
  deriving DecidableEq

/-- A round of `onServiceConnected`: without a control connection it waits for another round, and
an `IOException` of the control connection stops Tor. -/
def awaitConnection (callback : ℕ) (answer : ControlConnection) (s : OrbotService) :
    OrbotService :=
  match answer with
  | .null => { s with conn := none, waiting := s.waiting ++ [callback] }
  | .accepts connection =>
      { s with conn := some connection, reporting := s.reporting ++ [connection] }
  | .refuses connection => { stopTorOnError { s with conn := some connection } with conn := none }

def onServiceConnected (callback : ℕ) (answer : ControlConnection) (s : OrbotService) :
    OrbotService :=
  awaitConnection callback answer { s with torService := true }

/-- The next round of a callback that waits. -/
def pollConnection (callback : ℕ) (answer : ControlConnection) (s : OrbotService) :
    OrbotService :=
  awaitConnection callback answer { s with waiting := s.waiting.erase callback }

def onServiceDisconnected (s : OrbotService) : OrbotService :=
  { s with conn := none, torService := false }

/-- `onNullBinding` and `onBindingDied`, which differ in the message. -/
def onBindingFailed (s : OrbotService) : OrbotService :=
  { stopTorOnError s with conn := none, torService := false }

def onNullBinding (s : OrbotService) : OrbotService := onBindingFailed s

def onBindingDied (s : OrbotService) : OrbotService := onBindingFailed s

/-- `initControlConnection`, when the control port answers and when it does not. -/
def initControlConnection (fails : Bool) (s : OrbotService) : OrbotService :=
  match s.conn with
  | none => s
  | some _ => if fails then { stopTorOnError s with conn := none } else s

/-- `TorEventHandler.circuitStatus`: the first circuit that is built turns the status on. -/
def circuitStatus (status : String) (s : OrbotService) : OrbotService :=
  if s.mCurrentStatus = .starting ∧ status = "BUILT" then { s with mCurrentStatus := .on } else s

/-! ## The transition system -/

inductive Event where
  | startTor (start : ServiceStart) (namesThrow : Bool)
  | stopTorAsync
  | onServiceConnected (connection : ℕ) (answer : ControlConnection)
  | pollConnection (connection : ℕ) (answer : ControlConnection)
  | onServiceDisconnected (connection : ℕ)
  | onNullBinding (connection : ℕ)
  | onBindingDied (connection : ℕ)
  | initControlConnection (fails : Bool)
  | circuitStatus (connection : ℕ) (status : String)
  deriving DecidableEq

def OrbotService.next (s : OrbotService) : Event → OrbotService
  | .startTor start namesThrow => Service.startTor start namesThrow s
  | .stopTorAsync => Service.stopTorAsync s
  | .onServiceConnected connection answer => Service.onServiceConnected connection answer s
  | .pollConnection connection answer => Service.pollConnection connection answer s
  | .onServiceDisconnected _ => Service.onServiceDisconnected s
  | .onNullBinding _ => Service.onNullBinding s
  | .onBindingDied _ => Service.onBindingDied s
  | .initControlConnection fails => Service.initControlConnection fails s
  | .circuitStatus _ status => Service.circuitStatus status s

/-- The event calls `stopTorAsync`, by itself or when it fails. -/
def callsStopTorAsync (s : OrbotService) : Event → Bool
  | .startTor start namesThrow =>
      (ignoredStart s).isNone &&
        !(startDaemon start namesThrow { s with mCurrentStatus := .starting }).2
  | .stopTorAsync | .onNullBinding _ | .onBindingDied _ => true
  | .onServiceConnected _ (.refuses _) | .pollConnection _ (.refuses _) => true
  | .initControlConnection fails => s.conn.isSome && fails
  | .onServiceConnected _ .null | .onServiceConnected _ (.accepts _) | .pollConnection _ .null
  | .pollConnection _ (.accepts _) | .onServiceDisconnected _ | .circuitStatus _ _ => false

/-- Callbacks are called for bound connections; a callback that waits goes on while there is a
service to ask; circuits are reported by control connections. -/
def OrbotService.Enabled (s : OrbotService) : Event → Prop
  | .startTor _ _ | .stopTorAsync | .initControlConnection _ => True
  | .onServiceConnected connection _ | .onServiceDisconnected connection
  | .onNullBinding connection | .onBindingDied connection => connection ∈ s.bindings
  | .pollConnection connection _ => connection ∈ s.waiting ∧ s.torService = true
  | .circuitStatus connection _ => connection ∈ s.reporting

instance (s : OrbotService) : ∀ event, Decidable (s.Enabled event)
  | .startTor _ _ | .stopTorAsync | .initControlConnection _ => inferInstanceAs (Decidable True)
  | .onServiceConnected _ _ | .onServiceDisconnected _ | .onNullBinding _ | .onBindingDied _
  | .circuitStatus _ _ => inferInstanceAs (Decidable (_ ∈ _))
  | .pollConnection _ _ => inferInstanceAs (Decidable (_ ∧ _))

def serviceSystem : System OrbotService Event where
  init := OrbotService.new
  enabled := OrbotService.Enabled
  next := OrbotService.next

instance (s : OrbotService) (event : Event) : Decidable (serviceSystem.enabled s event) :=
  inferInstanceAs (Decidable (s.Enabled event))

/-! ## What stopping and starting do to the status and the connection -/

@[simp]
theorem stopTorAsync_mCurrentStatus (s : OrbotService) :
    (Service.stopTorAsync s).mCurrentStatus = .off := rfl

theorem unbindTorService_mCurrentStatus {s s' : OrbotService} (h : unbindTorService s = some s') :
    s'.mCurrentStatus = s.mCurrentStatus := by
  unfold unbindTorService at h
  split at h
  · split at h
    · rw [← Option.some_inj.mp h]
    · simp at h
  · simp at h

/-- `stopTor` keeps the status, and the connection is gone when it returns. -/
theorem stopTor_eq_some {s s' : OrbotService} (h : stopTor s = some s') :
    s'.mCurrentStatus = s.mCurrentStatus ∧ s'.conn = none := by
  cases hconn : s.conn with
  | none =>
    simp only [stopTor, hconn, Option.some_inj] at h
    exact ⟨h ▸ rfl, h ▸ hconn⟩
  | some connection =>
    simp only [stopTor, hconn, Option.map_eq_some_iff] at h
    obtain ⟨unbound, hunbound, rfl⟩ := h
    refine ⟨?_, rfl⟩
    change unbound.mCurrentStatus = s.mCurrentStatus
    split at hunbound
    · exact unbindTorService_mCurrentStatus hunbound
    · rw [Option.some_inj.mp hunbound]

@[simp]
theorem startTorService_mCurrentStatus (start : ServiceStart) (s : OrbotService) :
    (startTorService start s).1.mCurrentStatus = s.mCurrentStatus := by
  cases start <;> rfl

theorem startDaemon_mCurrentStatus (start : ServiceStart) (namesThrow : Bool)
    (s : OrbotService) : (startDaemon start namesThrow s).1.mCurrentStatus = s.mCurrentStatus := by
  unfold startDaemon
  split
  · rfl
  · next s' hstop =>
    have hstatus := startTorService_mCurrentStatus start s'
    rw [(stopTor_eq_some hstop).1] at hstatus
    split
    · next hservice => simpa only [hservice] using hstatus
    · next hservice => simpa only [hservice] using hstatus

end Orbot.Service
