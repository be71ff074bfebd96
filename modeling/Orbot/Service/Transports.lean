import Orbot.Service.Bridges
import Orbot.Service.OrbotService

/-!
# Pluggable transports that run

A start request starts transports in `IPtProxy` by the preferences of its time, and `stopTorAsync`
stops those that the preferences of its own time ask for. The snowflake bridge proxy is started and
never stopped. So no transport is left running with the status `OFF` in the runs where the
preferences still ask for what runs when Tor is stopped.
-/

namespace Orbot.Service

open Orbot.Foundation

/-- The service with the two preferences about transports and the transports that run. -/
structure TransportService where
  service : OrbotService
  bridgesList : String
  beSnowflakeProxy : Bool
  /-- The proxy for obfs4 and meek. -/
  obfs4Proxy : Bool
  snowflakeClient : Bool
  /-- The proxy that makes the device a bridge for others. -/
  snowflakeProxy : Bool
  deriving DecidableEq

def TransportService.new (bridgesList : String) (beSnowflakeProxy : Bool) : TransportService where
  service := OrbotService.new
  bridgesList := bridgesList
  beSnowflakeProxy := beSnowflakeProxy
  obfs4Proxy := false
  snowflakeClient := false
  snowflakeProxy := false

/-- What `IncomingIntentRouter.run` starts before `startTor`. -/
def startTransports (s : TransportService) : TransportService :=
  { s with
    obfs4Proxy := s.obfs4Proxy || useIPtObfsMeekProxy s.bridgesList
    snowflakeClient := s.snowflakeClient || useIPtSnowflakeProxy s.bridgesList
    snowflakeProxy := s.snowflakeProxy || s.beSnowflakeProxy }

/-- What `stopTorAsync` stops. -/
def stopTransports (s : TransportService) : TransportService :=
  { s with
    obfs4Proxy := s.obfs4Proxy && !useIPtObfsMeekProxy s.bridgesList
    snowflakeClient := s.snowflakeClient && !useIPtSnowflakeProxy s.bridgesList }

/-- A start request, any other event of the service, or a change of a preference. -/
inductive TransportEvent where
  | actionStart (start : ServiceStart) (namesThrow : Bool)
  | service (event : Event)
  | setBridgesList (value : String)
  | setBeSnowflakeProxy (value : Bool)
  deriving DecidableEq

/-- An event of the service, with the transports that its stop stops. -/
def TransportService.handle (event : Event) (s : TransportService) : TransportService :=
  let stopped := if callsStopTorAsync s.service event then stopTransports s else s
  { stopped with service := s.service.next event }

def TransportService.next (s : TransportService) : TransportEvent → TransportService
  | .actionStart start namesThrow => (startTransports s).handle (.startTor start namesThrow)
  | .service event => s.handle event
  | .setBridgesList value => { s with bridgesList := value }
  | .setBeSnowflakeProxy value => { s with beSnowflakeProxy := value }

def Event.isStart : Event → Bool
  | .startTor _ _ => true
  | _ => false

/-- Tor is started by start requests only. -/
def TransportService.Enabled (s : TransportService) : TransportEvent → Prop
  | .service event => event.isStart = false ∧ s.service.Enabled event
  | .actionStart _ _ | .setBridgesList _ | .setBeSnowflakeProxy _ => True

instance (s : TransportService) : ∀ event, Decidable (s.Enabled event)
  | .service _ => inferInstanceAs (Decidable (_ ∧ _))
  | .actionStart _ _ | .setBridgesList _ | .setBeSnowflakeProxy _ =>
      inferInstanceAs (Decidable True)

/-- The service and its transports, from the preferences at its creation. -/
def transportSystem (bridgesList : String) (beSnowflakeProxy : Bool) :
    System TransportService TransportEvent where
  init := .new bridgesList beSnowflakeProxy
  enabled := TransportService.Enabled
  next := TransportService.next

instance (bridgesList : String) (beSnowflakeProxy : Bool) (s : TransportService)
    (event : TransportEvent) :
    Decidable ((transportSystem bridgesList beSnowflakeProxy).enabled s event) :=
  inferInstanceAs (Decidable (s.Enabled event))

/-! ## The property and its condition -/

/-- With the status `OFF` no transport runs. -/
def NoTransportWhenOff (s : TransportService) : Prop :=
  s.service.mCurrentStatus = .off →
    s.obfs4Proxy = false ∧ s.snowflakeClient = false ∧ s.snowflakeProxy = false

instance (s : TransportService) : Decidable (NoTransportWhenOff s) :=
  inferInstanceAs (Decidable (_ → _))

/-- The preferences still ask for the transports that run, and the bridge proxy does not run. -/
def StillWanted (s : TransportService) : Prop :=
  (s.obfs4Proxy = true → useIPtObfsMeekProxy s.bridgesList = true) ∧
    (s.snowflakeClient = true → useIPtSnowflakeProxy s.bridgesList = true) ∧
      s.snowflakeProxy = false

instance (s : TransportService) : Decidable (StillWanted s) :=
  inferInstanceAs (Decidable ((_ → _) ∧ (_ → _) ∧ _))

/-- Tor is stopped only while the preferences ask for what runs; a start request that ends in a
stop has not started the bridge proxy either. -/
def StopsWanted (s : TransportService) : TransportEvent → Prop
  | .actionStart start namesThrow =>
      callsStopTorAsync s.service (.startTor start namesThrow) = true →
        StillWanted s ∧ s.beSnowflakeProxy = false
  | .service event => callsStopTorAsync s.service event = true → StillWanted s
  | .setBridgesList _ | .setBeSnowflakeProxy _ => True

instance (s : TransportService) : ∀ event, Decidable (StopsWanted s event)
  | .actionStart _ _ | .service _ => inferInstanceAs (Decidable (_ → _))
  | .setBridgesList _ | .setBeSnowflakeProxy _ => inferInstanceAs (Decidable True)

/-! ## The status after an event -/

/-- `stopTorAsync` leaves the status `OFF`. -/
theorem status_of_callsStop {s : OrbotService} {event : Event}
    (h : callsStopTorAsync s event = true) : (s.next event).mCurrentStatus = .off := by
  cases event with
  | startTor start namesThrow =>
    rw [callsStopTorAsync, Bool.and_eq_true, Option.isNone_iff_eq_none] at h
    obtain ⟨hignored, hfails⟩ := h
    change (startTor start namesThrow s).mCurrentStatus = .off
    rw [startTor, hignored]
    cases hdaemon : startDaemon start namesThrow { s with mCurrentStatus := .starting } with
    | mk started returned =>
      cases returned with
      | true => simp [hdaemon] at hfails
      | false => rfl
  | stopTorAsync | onNullBinding connection | onBindingDied connection => rfl
  | onServiceConnected connection answer =>
    cases answer with
    | null | accepts connection' => simp [callsStopTorAsync] at h
    | refuses connection' => rfl
  | pollConnection connection answer =>
    cases answer with
    | null | accepts connection' => simp [callsStopTorAsync] at h
    | refuses connection' => rfl
  | initControlConnection fails =>
    rw [callsStopTorAsync, Bool.and_eq_true] at h
    obtain ⟨connection, hconn⟩ := Option.isSome_iff_exists.mp h.1
    change (initControlConnection fails s).mCurrentStatus = .off
    rw [initControlConnection, hconn]
    simp [h.2, stopTorOnError]
  | onServiceDisconnected connection | circuitStatus connection status =>
    simp [callsStopTorAsync] at h

/-- A start that does not end in a stop leaves another status. -/
theorem status_startTor_ne_off {s : OrbotService} {start : ServiceStart} {namesThrow : Bool}
    (h : ¬ callsStopTorAsync s (.startTor start namesThrow) = true) :
    (s.next (.startTor start namesThrow)).mCurrentStatus ≠ .off := by
  change (startTor start namesThrow s).mCurrentStatus ≠ .off
  unfold startTor
  cases hignored : ignoredStart s with
  | some message =>
    intro hoff
    have hoff : s.mCurrentStatus = .off := hoff
    simp [ignoredStart, hoff] at hignored
  | none =>
    have hstatus := startDaemon_mCurrentStatus start namesThrow
      { s with mCurrentStatus := .starting }
    cases hdaemon : startDaemon start namesThrow { s with mCurrentStatus := .starting } with
    | mk started returned =>
      cases returned with
      | true =>
        rw [hdaemon] at hstatus
        have hstarting : started.mCurrentStatus = .starting := hstatus
        simp [hstarting]
      | false => simp [callsStopTorAsync, hignored, hdaemon] at h

/-- Without a stop the other events do not turn the status off. -/
theorem off_before_of_not_callsStop {s : OrbotService} {event : Event}
    (hevent : event.isStart = false)
    (h : ¬ callsStopTorAsync s event = true) (hoff : (s.next event).mCurrentStatus = .off) :
    s.mCurrentStatus = .off := by
  cases event with
  | startTor start namesThrow => simp [Event.isStart] at hevent
  | stopTorAsync | onNullBinding connection | onBindingDied connection =>
    exact absurd rfl h
  | onServiceConnected connection answer =>
    cases answer with
    | null | accepts connection' => exact hoff
    | refuses connection' => exact absurd rfl h
  | pollConnection connection answer =>
    cases answer with
    | null | accepts connection' => exact hoff
    | refuses connection' => exact absurd rfl h
  | onServiceDisconnected connection => exact hoff
  | initControlConnection fails =>
    change (initControlConnection fails s).mCurrentStatus = .off at hoff
    unfold initControlConnection at hoff
    cases hconn : s.conn with
    | none => simpa [hconn] using hoff
    | some connection =>
      cases fails with
      | false => simpa [hconn] using hoff
      | true => simp [callsStopTorAsync, hconn] at h
  | circuitStatus connection status =>
    change (circuitStatus status s).mCurrentStatus = .off at hoff
    unfold circuitStatus at hoff
    split at hoff
    · simp at hoff
    · exact hoff

/-! ## Steps and runs -/

/-- A stop leaves no transport if and only if the preferences ask for those that run. -/
theorem noTransport_stop_iff {s : TransportService} {event : Event}
    (h : callsStopTorAsync s.service event = true) :
    NoTransportWhenOff (s.handle event) ↔ StillWanted s := by
  have hoff := status_of_callsStop h
  rw [TransportService.handle, if_pos h]
  simp only [NoTransportWhenOff, StillWanted, stopTransports, hoff, forall_const]
  cases s.obfs4Proxy <;> cases s.snowflakeClient <;> simp

theorem stillWanted_startTransports (s : TransportService) :
    StillWanted (startTransports s) ↔ StillWanted s ∧ s.beSnowflakeProxy = false := by
  simp only [StillWanted, startTransports]
  cases s.obfs4Proxy <;> cases s.snowflakeClient <;> cases s.snowflakeProxy <;>
    cases s.beSnowflakeProxy <;> simp

/-- A step keeps the property if and only if it meets the condition. -/
theorem noTransport_next_iff {s : TransportService} (h : NoTransportWhenOff s)
    {event : TransportEvent} (henabled : s.Enabled event) :
    NoTransportWhenOff (s.next event) ↔ StopsWanted s event := by
  cases event with
  | actionStart start namesThrow =>
    change NoTransportWhenOff ((startTransports s).handle (.startTor start namesThrow)) ↔
      (callsStopTorAsync s.service (.startTor start namesThrow) = true → _)
    by_cases hstop : callsStopTorAsync s.service (.startTor start namesThrow) = true
    · rw [noTransport_stop_iff (s := startTransports s) hstop, stillWanted_startTransports]
      exact ⟨fun hwanted _ ↦ hwanted, fun hwanted ↦ hwanted hstop⟩
    · refine iff_of_true (fun hoff ↦ ?_) fun hcalls ↦ absurd hcalls hstop
      exact absurd hoff (status_startTor_ne_off hstop)
  | service event =>
    change NoTransportWhenOff (s.handle event) ↔ (callsStopTorAsync s.service event = true → _)
    by_cases hstop : callsStopTorAsync s.service event = true
    · rw [noTransport_stop_iff hstop]
      exact ⟨fun hwanted _ ↦ hwanted, fun hwanted ↦ hwanted hstop⟩
    · refine iff_of_true ?_ fun hcalls ↦ absurd hcalls hstop
      rw [TransportService.handle, if_neg hstop]
      intro hoff
      exact h (off_before_of_not_callsStop henabled.1 hstop hoff)
  | setBridgesList value | setBeSnowflakeProxy value => exact iff_of_true h trivial

/-- In a run no transport is left running with the status `OFF`, in all of its states, if and only
if Tor is stopped only while the preferences ask for what runs. -/
theorem no_transport_when_off_iff (bridgesList : String) (beSnowflakeProxy : Bool)
    (events : List TransportEvent)
    (hrun : (transportSystem bridgesList beSnowflakeProxy).Admissible (fun _ _ ↦ True)
      (.new bridgesList beSnowflakeProxy) events) :
    (transportSystem bridgesList beSnowflakeProxy).Admissible StopsWanted
        (.new bridgesList beSnowflakeProxy) events ↔
      ∀ n, NoTransportWhenOff ((transportSystem bridgesList beSnowflakeProxy).run
        (.new bridgesList beSnowflakeProxy) (events.take n)) :=
  (transportSystem bridgesList beSnowflakeProxy).admissible_iff_along NoTransportWhenOff
    (fun _ _ hs henabled ↦ noTransport_next_iff hs henabled) (fun _ ↦ ⟨rfl, rfl, rfl⟩) hrun

/-- Tor is started with obfs4 bridges and stopped. -/
def startAndStop : List TransportEvent := [.actionStart .bound false, .service .stopTorAsync]

theorem no_transport_when_off_iff_startAndStop :
    (transportSystem "obfs4" false).Admissible StopsWanted (.new "obfs4" false) startAndStop ↔
      ∀ n, NoTransportWhenOff ((transportSystem "obfs4" false).run (.new "obfs4" false)
        (startAndStop.take n)) :=
  no_transport_when_off_iff "obfs4" false startAndStop (by decide)

/-- A device that is a snowflake bridge stays one after the stop. -/
theorem snowflakeProxy_after_stop :
    ¬ ∀ (bridgesList : String) (beSnowflakeProxy : Bool) (events : List TransportEvent),
      (transportSystem bridgesList beSnowflakeProxy).Admissible (fun _ _ ↦ True)
        (.new bridgesList beSnowflakeProxy) events →
      ∀ n, NoTransportWhenOff ((transportSystem bridgesList beSnowflakeProxy).run
        (.new bridgesList beSnowflakeProxy) (events.take n)) := by
  intro h
  have hoff := h "obfs4" true startAndStop (by decide) 2
  exact absurd hoff (by decide)

end Orbot.Service
