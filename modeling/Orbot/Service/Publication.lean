import Orbot.Foundation.JavaString
import Orbot.Service.OrbotService

/-!
# Publishing the ports of Tor

`startTorService` registers a receiver that reads Tor's listeners when Tor reports the status `ON`.
The receiver does so once, and unregisters itself also when there is no control connection to ask.
So the ports are published for a start in the runs where its receiver finds a control connection.
-/

namespace Orbot.Service

open Orbot.Foundation

/-! ## Reading the listeners -/

def torDnsPortDefault : Int32 := 5400

def torTransproxyPortDefault : Int32 := 9040

/-- The ports that `OrbotService` publishes. -/
structure Ports where
  mPortSOCKS : Int32 := -1
  mPortHTTP : Int32 := -1
  mPortDns : Int32 := torDnsPortDefault
  mPortTrans : Int32 := torTransproxyPortDefault
  deriving DecidableEq

/-- What `getInfo` answers about each kind of listeners, `none` for an `IOException`. -/
structure Answers where
  socks : Option String
  httptunnel : Option String
  dns : Option String
  trans : Option String
  deriving DecidableEq

/-- An `IOException`, or another exception, which nothing catches. -/
inductive ReadError where
  | ioException
  | uncaught
  deriving DecidableEq

/-- The port in a token, `none` where `split`, `substring` or `parseInt` throws. -/
def portOfToken (token : String) : Option Int32 :=
  match (split ':' token)[1]? with
  | some conf => if conf = "" then none else parseInt (String.ofList conf.toList.dropLast)
  | none => none

/-- The port after a query. Without a token the port stays, or `nextToken` throws. -/
def query (required : Bool) (answer : Option String) (port : Int32) : Except ReadError Int32 :=
  match answer with
  | none => .error .ioException
  | some text =>
      match tokens ' ' text with
      | [] => if required then .error .uncaught else .ok port
      | token :: _ => (portOfToken token).elim (.error .uncaught) .ok

/-- The queries of `initControlConnection`, each of which stores its port before the next one. -/
def readListeners (answers : Answers) (ports : Ports) : Ports × Option ReadError :=
  match query true answers.socks ports.mPortSOCKS with
  | .error error => (ports, some error)
  | .ok socksPort =>
      let ports := { ports with mPortSOCKS := socksPort }
      match query true answers.httptunnel ports.mPortHTTP with
      | .error error => (ports, some error)
      | .ok httpPort =>
          let ports := { ports with mPortHTTP := httpPort }
          match query false answers.dns ports.mPortDns with
          | .error error => (ports, some error)
          | .ok dnsPort =>
              let ports := { ports with mPortDns := dnsPort }
              match query false answers.trans ports.mPortTrans with
              | .error error => (ports, some error)
              | .ok transPort => ({ ports with mPortTrans := transPort }, none)

/-! ## What Tor reports -/

/-- A listener in an answer. -/
def listenerText (address : String) (port : Int32) : String :=
  "\"" ++ address ++ ":" ++ decimal port ++ "\""

/-- The first listener of an answer; a space comes before the next one. -/
def FirstListener (answer address : String) (port : Int32) : Prop :=
  ' ' ∉ address.toList ∧ (listenerText address port).toList <+: answer.toList ∧
    answer.toList[(listenerText address port).toList.length]? ∈ [none, some ' ']

instance (answer address : String) (port : Int32) : Decidable (FirstListener answer address port) :=
  inferInstanceAs (Decidable (_ ∧ _ ∧ _))

/-- The port is that of the first listener, if the answer has one. -/
def Reported (answer : Option String) (port : Int32) : Prop :=
  ∀ text ∈ answer, tokens ' ' text ≠ [] → ∃ address, FirstListener text address port

/-- The ports are those that Tor has reported. -/
structure Answers.ReportedAs (answers : Answers) (ports : Ports) : Prop where
  socks : Reported answers.socks ports.mPortSOCKS
  httptunnel : Reported answers.httptunnel ports.mPortHTTP
  dns : Reported answers.dns ports.mPortDns
  trans : Reported answers.trans ports.mPortTrans

/-- The first listener has an IPv4 address; there may be none unless it is required. -/
def Readable (required : Bool) (answer : Option String) : Prop :=
  ∀ text ∈ answer, (required = false ∧ tokens ' ' text = []) ∨
    ∃ address port, FirstListener text address port ∧ ':' ∉ address.toList

/-- A SOCKS and an HTTP listener are reported, and the first ones have IPv4 addresses. -/
structure Answers.Readable (answers : Answers) : Prop where
  socks : Service.Readable true answers.socks
  httptunnel : Service.Readable true answers.httptunnel
  dns : Service.Readable false answers.dns
  trans : Service.Readable false answers.trans

theorem portOfToken_listenerText {address : String} (haddress : ':' ∉ address.toList)
    (port : Int32) : portOfToken (listenerText address port) = some port := by
  have hdecimal : ':' ∉ (decimal port).toList := not_mem_decimal port (by decide)
  have htext : listenerText address port =
      String.ofList (('"' :: address.toList) ++ ':' :: ((decimal port).toList ++ ['"'])) := by
    simp [listenerText, ← String.toList_inj]
  have hsplit : split ':' (listenerText address port) =
      [String.ofList ('"' :: address.toList), String.ofList ((decimal port).toList ++ ['"'])] := by
    rw [htext]
    exact split_pair (by simpa using haddress) (by simpa using hdecimal) (by simp)
  have hne : String.ofList ((decimal port).toList ++ ['"']) ≠ "" := by
    intro hempty
    have hlist := congrArg String.toList hempty
    rw [String.toList_ofList] at hlist
    simp at hlist
  rw [portOfToken, hsplit]
  simp only [List.getElem?_cons_succ, List.getElem?_cons_zero]
  rw [if_neg hne, String.toList_ofList, List.dropLast_concat, String.ofList_toList]
  exact parseInt_decimal port

theorem tokens_of_firstListener {text address : String} {port : Int32}
    (h : FirstListener text address port) :
    ∃ more, tokens ' ' text = listenerText address port :: more := by
  obtain ⟨haddress, ⟨rest, hrest⟩, hnext⟩ := h
  have hdecimal : ' ' ∉ (decimal port).toList := not_mem_decimal port (by decide)
  have hspace : ' ' ∉ (listenerText address port).toList := by
    simp [listenerText, haddress, hdecimal]
  have hne : (listenerText address port).toList ≠ [] := by simp [listenerText]
  rw [← hrest, List.getElem?_append_right le_rfl, Nat.sub_self, ← List.head?_eq_getElem?] at hnext
  have hhead : ∀ c ∈ rest.head?, c = ' ' := by
    intro c hc
    simp only [Option.mem_def.mp hc, List.mem_cons, reduceCtorEq, List.not_mem_nil, or_false,
      false_or, Option.some_inj] at hnext
    exact hnext
  obtain ⟨more, hmore⟩ := tokens_of_first hne hspace hhead
  rw [hrest, String.ofList_toList, String.ofList_toList] at hmore
  exact ⟨more, hmore⟩

/-- A readable answer is an `IOException` or gives the port that it reports. -/
theorem query_of_readable {required : Bool} {answer : Option String}
    (h : Service.Readable required answer) (port : Int32) :
    query required answer port = .error .ioException ∨
      ∃ port', query required answer port = .ok port' ∧ Reported answer port' := by
  cases answer with
  | none => exact .inl rfl
  | some text =>
    right
    rcases h text rfl with ⟨hrequired, hnone⟩ | ⟨address, reported, hfirst, haddress⟩
    · refine ⟨port, by simp [query, hnone, hrequired], ?_⟩
      intro other hother hsome
      rw [← Option.some_inj.mp hother] at hsome
      exact absurd hnone hsome
    · obtain ⟨more, htokens⟩ := tokens_of_firstListener hfirst
      refine ⟨reported, by simp [query, htokens, portOfToken_listenerText haddress], ?_⟩
      intro other hother _
      rw [← Option.some_inj.mp hother]
      exact ⟨address, hfirst⟩

/-- Readable answers end in an `IOException` or are stored as they are reported. -/
theorem readListeners_of_readable {answers : Answers} (h : answers.Readable) (ports : Ports) :
    (readListeners answers ports).2 = some .ioException ∨
      (readListeners answers ports).2 = none ∧
        answers.ReportedAs (readListeners answers ports).1 := by
  unfold readListeners
  rcases query_of_readable h.socks ports.mPortSOCKS with hsocks | ⟨socksPort, hsocks, hsocksPort⟩
  · exact .inl (by rw [hsocks])
  rw [hsocks]
  rcases query_of_readable h.httptunnel ports.mPortHTTP with hhttp | ⟨httpPort, hhttp, hhttpPort⟩
  · exact .inl (by simp only [hhttp])
  simp only [hhttp]
  rcases query_of_readable h.dns ports.mPortDns with hdns | ⟨dnsPort, hdns, hdnsPort⟩
  · exact .inl (by simp only [hdns])
  simp only [hdns]
  rcases query_of_readable h.trans ports.mPortTrans with htrans | ⟨transPort, htrans, htransPort⟩
  · exact .inl (by simp only [htrans])
  simp only [htrans]
  exact .inr ⟨trivial, hsocksPort, hhttpPort, hdnsPort, htransPort⟩

/-! ## The service and its receivers -/

/-- What has happened since a start, which has the number of its service connection. -/
structure StartRecord where
  number : ℕ
  /-- The receiver of the start has handled the status `ON`. -/
  statusOn : Bool
  /-- `onServiceConnected` of the start has assigned a control connection. -/
  connected : Bool
  /-- What Tor has answered to the last `initControlConnection` that reached its end. -/
  reported : Option Answers
  /-- The calls of `sendCallbackPorts` by `initControlConnection`. -/
  callbacks : List Ports
  deriving DecidableEq

def StartRecord.new (number : ℕ) : StartRecord where
  number := number
  statusOn := false
  connected := false
  reported := none
  callbacks := []

structure PortService where
  service : OrbotService
  ports : Ports
  /-- The registered receivers; each has the number of its start. -/
  receivers : List ℕ
  /-- An exception has ended the process. -/
  crashed : Bool
  /-- The start that no stop and no error has ended. -/
  start : Option StartRecord
  deriving DecidableEq

def PortService.new : PortService where
  service := OrbotService.new
  ports := {}
  receivers := []
  crashed := false
  start := none

/-- Change the record of the start. -/
def PortService.record (change : StartRecord → StartRecord) (s : PortService) : PortService :=
  { s with start := s.start.map change }

/-- `initControlConnection` with the answers of its queries; `sendCallbackPorts` ends it. -/
def PortService.initControlConnection (answers : Answers) (s : PortService) : PortService :=
  match s.service.conn with
  | none => s
  | some _ =>
      let (ports, error) := readListeners answers s.ports
      match error with
      | none =>
          { s with ports := ports }.record fun start ↦
            { start with reported := some answers, callbacks := start.callbacks ++ [ports] }
      | some .ioException =>
          { s with
            ports := ports
            service := Service.initControlConnection true s.service
            start := none }
      | some .uncaught => { s with ports := ports, crashed := true }

/-- `onReceive` of a receiver, for the status `ON`. -/
def PortService.onReceive (receiver : ℕ) (answers : Answers) (s : PortService) : PortService :=
  let s := (s.record fun start ↦
    { start with statusOn := start.statusOn || start.number == receiver }).initControlConnection
      answers
  if s.crashed then s else { s with receivers := s.receivers.erase receiver }

/-- `startTorService` gets to `bindService`, before which it registers a receiver. -/
def registersReceiver (s : OrbotService) (event : Event) : Bool :=
  (s.next event).connections != s.connections

/-- The record of the start after an event. Each start request that is not ignored stops Tor. -/
def PortService.startAfter (s : PortService) (event : Event) : Option StartRecord :=
  if callsStopTorAsync s.service event then none
  else
    match event with
    | .startTor _ _ =>
        if ignoredStart s.service ≠ none then s.start
        else if registersReceiver s.service event then some (.new s.service.connections)
        else none
    | .onServiceConnected connection (.accepts _) | .pollConnection connection (.accepts _) =>
        s.start.map fun start ↦
          { start with connected := start.connected || start.number == connection }
    | _ => s.start

/-- The status `ON` is handled by one receiver at a time, each of which has its own thread. -/
inductive PortEvent where
  | service (event : Event)
  | onReceive (receiver : ℕ) (answers : Answers)
  deriving DecidableEq

def PortService.next (s : PortService) : PortEvent → PortService
  | .service event =>
      { s with
        service := s.service.next event
        receivers :=
          if registersReceiver s.service event then s.receivers ++ [s.service.connections]
          else s.receivers
        start := s.startAfter event }
  | .onReceive receiver answers => s.onReceive receiver answers

/-- `initControlConnection` is called by receivers only. -/
def Event.isInitControlConnection : Event → Bool
  | .initControlConnection _ => true
  | _ => false

def PortService.Enabled (s : PortService) : PortEvent → Prop
  | .service event =>
      s.crashed = false ∧ event.isInitControlConnection = false ∧ s.service.Enabled event
  | .onReceive receiver _ => s.crashed = false ∧ receiver ∈ s.receivers

instance PortService.decidableEnabled (s : PortService) : ∀ event, Decidable (s.Enabled event)
  | .service _ => inferInstanceAs (Decidable (_ ∧ _ ∧ _))
  | .onReceive _ _ => inferInstanceAs (Decidable (_ ∧ _))

def portSystem : System PortService PortEvent where
  init := PortService.new
  enabled := PortService.Enabled
  next := PortService.next

instance portSystem.decidableEnabled (s : PortService) (event : PortEvent) :
    Decidable (portSystem.enabled s event) :=
  inferInstanceAs (Decidable (s.Enabled event))

/-! ## The property and its condition -/

/-- `initControlConnection` has read the listeners in this start and sent the ports. -/
def StartRecord.Published (start : StartRecord) (ports : Ports) : Prop :=
  ∃ answers, start.reported = some answers ∧ answers.ReportedAs ports ∧ ports ∈ start.callbacks

/-- A start with the status `ON` and a control connection has its ports published. -/
def PortsPublished (s : PortService) : Prop :=
  ∀ start ∈ s.start, start.statusOn = true → start.connected = true → start.Published s.ports

/-- The receiver of the start finds a control connection, and every receiver readable answers. -/
def FindsConnection (s : PortService) : PortEvent → Prop
  | .onReceive receiver answers =>
      ((∃ start ∈ s.start, start.number = receiver) → s.service.conn.isSome) ∧
        (s.service.conn.isSome → answers.Readable)
  | .service _ => True

/-! ## Steps -/

/-- The record after an event is new, or an old one up to the control connection. -/
theorem mem_startAfter {s : PortService} {event : Event} {start' : StartRecord}
    (h : start' ∈ s.startAfter event) :
    (registersReceiver s.service event = true ∧ start' = .new s.service.connections) ∨
      ∃ start ∈ s.start, ∃ connected, start' = { start with connected := connected } := by
  have hsame (hstart : start' ∈ s.start) :
      ∃ start ∈ s.start, ∃ connected, start' = { start with connected := connected } :=
    ⟨start', hstart, start'.connected, rfl⟩
  unfold PortService.startAfter at h
  split at h
  · simp at h
  · split at h
    · split at h
      · exact .inr (hsame h)
      · split at h
        · next hregisters => exact .inl ⟨hregisters, (Option.some_inj.mp h).symm⟩
        · simp at h
    · obtain ⟨start, hstart, rfl⟩ := Option.map_eq_some_iff.mp h
      exact .inr ⟨start, hstart, _, rfl⟩
    · obtain ⟨start, hstart, rfl⟩ := Option.map_eq_some_iff.mp h
      exact .inr ⟨start, hstart, _, rfl⟩
    · exact .inr (hsame h)

/-- Once the receiver of a start has handled the status `ON`, the ports are published. -/
def PublishedOnStatus (s : PortService) : Prop :=
  ∀ start ∈ s.start, start.statusOn = true → start.Published s.ports

theorem PublishedOnStatus.portsPublished {s : PortService} (h : PublishedOnStatus s) :
    PortsPublished s :=
  fun start hstart hstatus _ ↦ h start hstart hstatus

theorem publishedOnStatus_service {s : PortService} (h : PublishedOnStatus s) (event : Event) :
    PublishedOnStatus (s.next (.service event)) := by
  intro start' hstart' hstatus
  rcases mem_startAfter hstart' with ⟨-, rfl⟩ | ⟨start, hstart, connected, rfl⟩
  · simp [StartRecord.new] at hstatus
  · exact h start hstart hstatus

/-- With a control connection readable answers are published, unless an error ends the start. -/
theorem publishedOnStatus_initControlConnection {s : PortService} {answers : Answers}
    (hconn : s.service.conn.isSome) (hanswers : answers.Readable) :
    PublishedOnStatus (s.initControlConnection answers) := by
  obtain ⟨connection, hconn⟩ := Option.isSome_iff_exists.mp hconn
  have hread := readListeners_of_readable hanswers s.ports
  rcases hlisteners : readListeners answers s.ports with ⟨ports, error⟩
  simp only [hlisteners] at hread
  simp only [PortService.initControlConnection, hconn, hlisteners]
  intro start' hstart' _
  rcases hread with rfl | ⟨rfl, hreported⟩
  · simp at hstart'
  · obtain ⟨start, -, rfl⟩ := Option.map_eq_some_iff.mp hstart'
    exact ⟨answers, rfl, hreported, List.mem_append_right _ List.mem_cons_self⟩

theorem publishedOnStatus_onReceive {s : PortService} (h : PublishedOnStatus s) {receiver : ℕ}
    {answers : Answers} (hok : FindsConnection s (.onReceive receiver answers)) :
    PublishedOnStatus (s.onReceive receiver answers) := by
  have hinit : PublishedOnStatus ((s.record fun start ↦
      { start with statusOn := start.statusOn || start.number == receiver }).initControlConnection
        answers) := by
    cases hconn : s.service.conn with
    | some connection =>
      have hsome : s.service.conn.isSome := by simp [hconn]
      exact publishedOnStatus_initControlConnection hsome (hok.2 hsome)
    | none =>
      -- Another receiver handles the status, so the record does not change.
      simp only [PortService.initControlConnection, PortService.record, hconn]
      intro start' hstart' hstatus
      obtain ⟨start, hstart, rfl⟩ := Option.map_eq_some_iff.mp hstart'
      have hother : start.number ≠ receiver := fun hnumber ↦ by
        simpa [hconn] using hok.1 ⟨start, hstart, hnumber⟩
      have hbefore : start.statusOn = true := by simpa [hother] using hstatus
      exact h start hstart hbefore
  unfold PortService.onReceive
  dsimp only
  split <;> exact hinit

/-- A step that meets the condition keeps the ports published. -/
theorem publishedOnStatus_next {s : PortService} {event : PortEvent} (h : PublishedOnStatus s)
    (hok : FindsConnection s event) : PublishedOnStatus (s.next event) := by
  cases event with
  | service event => exact publishedOnStatus_service h event
  | onReceive receiver answers => exact publishedOnStatus_onReceive h hok

/-! ## Runs -/

/-- In every run in which the receiver of a start finds a control connection, a start with the
status `ON` and a control connection has its ports published. -/
theorem ports_published (s : PortService) (h : portSystem.ReachableBy FindsConnection s) :
    PortsPublished s := by
  have hinit : PublishedOnStatus PortService.new := by simp [PublishedOnStatus, PortService.new]
  have hinv : PublishedOnStatus s := portSystem.invariant_of_reachableBy PublishedOnStatus hinit
    (fun _ _ hstate _ hok ↦ publishedOnStatus_next hstate hok) h
  exact hinv.portsPublished

/-- No receiver is left, and nothing has been published for the start. -/
def PublicationMissed (s : PortService) : Prop :=
  s.receivers = [] ∧ ∀ start ∈ s.start, start.reported = none

def RegistersNoReceiver (s : PortService) : PortEvent → Prop
  | .service event => registersReceiver s.service event = false
  | .onReceive _ _ => True

/-- Until the next start a missed publication is not made up for. -/
theorem publicationMissed_run {s : PortService} (h : PublicationMissed s) {events : List PortEvent}
    (hrun : portSystem.Admissible RegistersNoReceiver s events) :
    PublicationMissed (portSystem.run s events) := by
  refine portSystem.invariant_run PublicationMissed ?_ h hrun
  rintro s event ⟨hreceivers, hstart⟩ henabled hok
  cases event with
  | service event =>
    have hnone : registersReceiver s.service event = false := hok
    refine ⟨by simpa [portSystem, PortService.next, hnone] using hreceivers, ?_⟩
    intro start' hstart'
    rcases mem_startAfter hstart' with ⟨hregisters, -⟩ | ⟨start, hmem, connected, rfl⟩
    · simp [hnone] at hregisters
    · exact hstart start hmem
  | onReceive receiver answers =>
    have hmem : receiver ∈ s.receivers := henabled.2
    simp [hreceivers] at hmem

/-- The answers of a Tor with one listener of each kind. -/
def torAnswers : Answers where
  socks := some "\"127.0.0.1:9150\""
  httptunnel := some "\"127.0.0.1:8118\""
  dns := some "\"127.0.0.1:5401\""
  trans := some "\"127.0.0.1:9041\" \"127.0.0.1:9042\""

theorem readable_torAnswers : torAnswers.Readable := by
  have hreadable {required : Bool} {text : String} (port : Int32)
      (h : FirstListener text "127.0.0.1" port) : Readable required (some text) := by
    intro other hother
    rw [← Option.some_inj.mp hother]
    exact .inr ⟨"127.0.0.1", port, h, by decide⟩
  exact ⟨hreadable 9150 (by decide), hreadable 8118 (by decide), hreadable 5401 (by decide),
    hreadable 9041 (by decide)⟩

/-- Tor is started and stopped, and started again; the new receiver finds a connection. -/
def connectedFirst : List PortEvent :=
  [.service (.startTor .bound false), .service .stopTorAsync, .service (.startTor .bound false),
    .onReceive 0 torAnswers, .service (.onServiceConnected 1 (.accepts 0)),
    .onReceive 1 torAnswers]

theorem ports_published_connectedFirst :
    PortsPublished (portSystem.run PortService.new connectedFirst) := by
  refine ports_published _ ⟨connectedFirst, ?_, rfl⟩
  have hunconnected : FindsConnection
      (portSystem.run PortService.new (connectedFirst.take 3)) (.onReceive 0 torAnswers) := by
    refine ⟨?_, fun hconn ↦ absurd hconn (by decide)⟩
    rintro ⟨start, hstart, hnumber⟩
    obtain rfl : StartRecord.new 1 = start := Option.some_inj.mp hstart
    exact absurd hnumber (by decide)
  have hconnected : FindsConnection
      (portSystem.run PortService.new (connectedFirst.take 5)) (.onReceive 1 torAnswers) :=
    ⟨fun _ ↦ by decide, fun _ ↦ readable_torAnswers⟩
  exact ⟨by decide, trivial, by decide, trivial, by decide, trivial, by decide, hunconnected,
    by decide, trivial, by decide, hconnected, trivial⟩

/-- The status `ON` comes before the control connection, and the receiver is used up. -/
def statusFirst : List PortEvent :=
  [.service (.startTor .bound false), .onReceive 0 torAnswers,
    .service (.onServiceConnected 0 (.accepts 0))]

theorem unpublished_after_statusFirst :
    ¬ ∀ s : PortService, portSystem.Reachable s → PortsPublished s := by
  intro h
  have hpublished := h (portSystem.run PortService.new statusFirst) ⟨statusFirst, by decide, rfl⟩
  obtain ⟨answers, hreported, -⟩ := hpublished
    { number := 0, statusOn := true, connected := true, reported := none, callbacks := [] }
    (by decide) rfl rfl
  simp at hreported

end Orbot.Service
