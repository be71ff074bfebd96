import Mathlib.Data.Int.ModEq
import Mathlib.Tactic.Ring

/-!
# Traffic counters of `TorEventHandler`

`bandwidthUsed` reports the traffic since the last report and the traffic in all, once more than
`BW_THRESDHOLD` bytes are pending. The pending counters of a new handler start at -1, and the totals
grow only in the events that report. So what was sent and what is pending add up to one byte less
than what was received, after every event.

Amounts are Java longs, so sums are compared up to their wraparound where a proof adds them.
-/

namespace Orbot.Service

/-- The two ways in which Tor counts bytes. -/
inductive Traffic where
  | read
  | written
  deriving DecidableEq

/-- The amounts of one `BW` event of the control connection. -/
structure BandwidthEvent where
  read : Int64
  written : Int64
  deriving DecidableEq

def BandwidthEvent.amount (event : BandwidthEvent) : Traffic → Int64
  | .read => event.read
  | .written => event.written

/-- The arguments of `sendCallbackBandwidth`. -/
structure BandwidthReport where
  upload : Int64
  download : Int64
  written : Int64
  read : Int64
  deriving DecidableEq

/-- What a report says of the traffic since the one before it. -/
def BandwidthReport.recent (report : BandwidthReport) : Traffic → Int64
  | .read => report.download
  | .written => report.upload

def BandwidthReport.total (report : BandwidthReport) : Traffic → Int64
  | .read => report.read
  | .written => report.written

inductive NotificationIcon where
  | ic_stat_tor
  | ic_stat_tor_xfer
  deriving DecidableEq

/-- The counters of a `TorEventHandler`. -/
structure TorEventHandler where
  lastRead : Int64
  lastWritten : Int64
  mTotalTrafficWritten : Int64
  mTotalTrafficRead : Int64
  deriving DecidableEq

def TorEventHandler.new : TorEventHandler where
  lastRead := -1
  lastWritten := -1
  mTotalTrafficWritten := 0
  mTotalTrafficRead := 0

def TorEventHandler.pending (handler : TorEventHandler) : Traffic → Int64
  | .read => handler.lastRead
  | .written => handler.lastWritten

def TorEventHandler.total (handler : TorEventHandler) : Traffic → Int64
  | .read => handler.mTotalTrafficRead
  | .written => handler.mTotalTrafficWritten

def BW_THRESDHOLD : Int64 := 10000

/-- The test at the beginning of `bandwidthUsed`. -/
def TorEventHandler.reports (handler : TorEventHandler) : Bool :=
  handler.lastWritten > BW_THRESDHOLD || handler.lastRead > BW_THRESDHOLD

/-- What an event that reports sends: the notification and the callback. -/
structure BandwidthOutput where
  text : String
  iconId : NotificationIcon
  callback : BandwidthReport
  deriving DecidableEq

/-- `bandwidthUsed`. The wording of an amount in the locale of the device is `formatCount`. -/
def bandwidthUsed (formatCount : Int64 → String) (handler : TorEventHandler)
    (event : BandwidthEvent) : TorEventHandler × Option BandwidthOutput :=
  let (handler, output) :=
    if handler.reports then
      let iconId :=
        if event.read > 0 || event.written > 0 then NotificationIcon.ic_stat_tor_xfer
        else NotificationIcon.ic_stat_tor
      let sb := formatCount event.read ++ " \u2193" ++ " / " ++ formatCount event.written ++
        " \u2191"
      let mTotalTrafficWritten := handler.mTotalTrafficWritten + event.written
      let mTotalTrafficRead := handler.mTotalTrafficRead + event.read
      ({ lastWritten := 0, lastRead := 0, mTotalTrafficWritten, mTotalTrafficRead },
        some ⟨sb, iconId,
          ⟨handler.lastWritten, handler.lastRead, mTotalTrafficWritten, mTotalTrafficRead⟩⟩)
    else (handler, none)
  ({ handler with
      lastWritten := handler.lastWritten + event.written
      lastRead := handler.lastRead + event.read }, output)

section Runs

variable (formatCount : Int64 → String)

/-- A handler after the events, and the reports it sent. -/
def bandwidthRun (handler : TorEventHandler) :
    List BandwidthEvent → TorEventHandler × List BandwidthReport
  | [] => (handler, [])
  | event :: rest =>
      let now := bandwidthUsed formatCount handler event
      let later := bandwidthRun now.1 rest
      (later.1, (now.2.map (·.callback)).toList ++ later.2)

/-- All that was received in one direction. -/
def received (traffic : Traffic) : List BandwidthEvent → Int
  | [] => 0
  | event :: rest => (event.amount traffic).toInt + received traffic rest

/-- All that the reports say was received since the report before. -/
def reported (traffic : Traffic) : List BandwidthReport → Int
  | [] => 0
  | report :: rest => (report.recent traffic).toInt + reported traffic rest

/-- Conservation of the traffic: a report passes the sums of all amounts up to its own event, and
after every event what was sent and what is pending add up to what was received. -/
def TrafficConserved (events : List BandwidthEvent) : Prop :=
  ∀ (before : List BandwidthEvent) (event : BandwidthEvent), before ++ [event] <+: events →
    (∀ output ∈ (bandwidthUsed formatCount
          (bandwidthRun formatCount TorEventHandler.new before).1 event).2, ∀ traffic,
        (output.callback.total traffic).toInt = received traffic (before ++ [event])) ∧
      ∀ traffic,
        reported traffic (bandwidthRun formatCount TorEventHandler.new (before ++ [event])).2 +
            ((bandwidthRun formatCount TorEventHandler.new
              (before ++ [event])).1.pending traffic).toInt =
          received traffic (before ++ [event])

end Runs

/-! ## One event -/

section Steps

variable {formatCount : Int64 → String} {handler : TorEventHandler} {event : BandwidthEvent}
  (traffic : Traffic)

theorem bandwidthUsed_pending :
    (bandwidthUsed formatCount handler event).1.pending traffic =
      (if handler.reports then 0 else handler.pending traffic) + event.amount traffic := by
  by_cases h : handler.reports <;> cases traffic <;>
    simp [bandwidthUsed, h, TorEventHandler.pending, BandwidthEvent.amount]

/-- A total grows only in an event that reports. -/
theorem bandwidthUsed_total :
    (bandwidthUsed formatCount handler event).1.total traffic =
      if handler.reports then handler.total traffic + event.amount traffic
      else handler.total traffic := by
  by_cases h : handler.reports <;> cases traffic <;>
    simp [bandwidthUsed, h, TorEventHandler.total, BandwidthEvent.amount]

/-- A report passes what was pending before its event. -/
theorem bandwidthUsed_recent :
    (bandwidthUsed formatCount handler event).2.map (·.callback.recent traffic) =
      if handler.reports then some (handler.pending traffic) else none := by
  by_cases h : handler.reports <;> cases traffic <;>
    simp [bandwidthUsed, h, TorEventHandler.pending, BandwidthReport.recent]

/-- A report passes the totals as its event leaves them. -/
theorem bandwidthUsed_callback_total :
    (bandwidthUsed formatCount handler event).2.map (·.callback.total traffic) =
      if handler.reports then
        some ((bandwidthUsed formatCount handler event).1.total traffic) else none := by
  by_cases h : handler.reports <;> cases traffic <;>
    simp [bandwidthUsed, h, TorEventHandler.total, BandwidthReport.total]

end Steps

/-! ## Sums over a run -/

/-- Java's addition of longs is addition up to wraparound. -/
theorem toInt_add_modEq (first second : Int64) :
    (first + second).toInt ≡ first.toInt + second.toInt [ZMOD 2 ^ 64] := by
  rw [Int64.toInt_add]
  exact Int.bmod_emod

section Runs

variable (formatCount : Int64 → String) (traffic : Traffic)

theorem reported_append (first second : List BandwidthReport) :
    reported traffic (first ++ second) = reported traffic first + reported traffic second := by
  induction first with
  | nil => simp [reported]
  | cons report rest ih => rw [List.cons_append, reported, reported, ih, add_assoc]

/-- One event moves what was pending into its report or keeps it, and adds its own amount. -/
theorem bandwidthUsed_conserves (handler : TorEventHandler) (event : BandwidthEvent) :
    reported traffic
          ((bandwidthUsed formatCount handler event).2.map (·.callback)).toList +
        ((bandwidthUsed formatCount handler event).1.pending traffic).toInt ≡
      (handler.pending traffic).toInt + (event.amount traffic).toInt [ZMOD 2 ^ 64] := by
  have hrecent : (bandwidthUsed formatCount handler event).2.map (·.callback.recent traffic) =
      if handler.reports then some (handler.pending traffic) else none :=
    bandwidthUsed_recent traffic
  rw [bandwidthUsed_pending]
  cases houtput : (bandwidthUsed formatCount handler event).2 with
  | none =>
    have hquiet : handler.reports = false := by simpa [houtput] using hrecent
    simpa [hquiet, reported] using toInt_add_modEq (handler.pending traffic) (event.amount traffic)
  | some output =>
    have hreports : handler.reports = true := by
      by_contra hquiet
      simp [houtput, hquiet] at hrecent
    have hsent : output.callback.recent traffic = handler.pending traffic := by
      simpa [houtput, hreports] using hrecent
    simp [hreports, reported, hsent]

/-- What a run reports and leaves pending is what was pending before it and what it received. -/
theorem bandwidthRun_conserves (handler : TorEventHandler) (events : List BandwidthEvent) :
    reported traffic (bandwidthRun formatCount handler events).2 +
        ((bandwidthRun formatCount handler events).1.pending traffic).toInt ≡
      (handler.pending traffic).toInt + received traffic events [ZMOD 2 ^ 64] := by
  induction events generalizing handler with
  | nil => simp [bandwidthRun, reported, received]
  | cons event rest ih =>
    have hnow := bandwidthUsed_conserves formatCount traffic handler event
    have hlater := ih (bandwidthUsed formatCount handler event).1
    simp only [bandwidthRun, reported_append, received]
    calc
      _ = reported traffic
              ((bandwidthUsed formatCount handler event).2.map (·.callback)).toList +
            (reported traffic (bandwidthRun formatCount
                (bandwidthUsed formatCount handler event).1 rest).2 +
              ((bandwidthRun formatCount
                (bandwidthUsed formatCount handler event).1 rest).1.pending traffic).toInt) := by
        ring
      _ ≡ _ [ZMOD 2 ^ 64] := hlater.add_left _
      _ = reported traffic
              ((bandwidthUsed formatCount handler event).2.map (·.callback)).toList +
            ((bandwidthUsed formatCount handler event).1.pending traffic).toInt +
            received traffic rest := by ring
      _ ≡ _ [ZMOD 2 ^ 64] := hnow.add_right _
      _ = _ := by ring

/-- The initial -1 of the pending counters stays in every sum. -/
theorem bandwidthRun_new_ne (events : List BandwidthEvent) :
    reported traffic (bandwidthRun formatCount TorEventHandler.new events).2 +
        ((bandwidthRun formatCount TorEventHandler.new events).1.pending traffic).toInt ≠
      received traffic events := by
  intro hsum
  have hrun := bandwidthRun_conserves formatCount traffic TorEventHandler.new events
  have hinitial : (TorEventHandler.new.pending traffic).toInt = -1 := by
    cases traffic <;> rfl
  rw [hsum, hinitial, Int.modEq_iff_dvd] at hrun
  omega

/-- The amounts of the events of a run that report. -/
def receivedInReports (formatCount : Int64 → String) (traffic : Traffic)
    (handler : TorEventHandler) : List BandwidthEvent → Int
  | [] => 0
  | event :: rest =>
      (if handler.reports then (event.amount traffic).toInt else 0) +
        receivedInReports formatCount traffic (bandwidthUsed formatCount handler event).1 rest

/-- The totals count the events that report, and no other. -/
theorem bandwidthRun_total (handler : TorEventHandler) (events : List BandwidthEvent) :
    ((bandwidthRun formatCount handler events).1.total traffic).toInt ≡
      (handler.total traffic).toInt + receivedInReports formatCount traffic handler events
        [ZMOD 2 ^ 64] := by
  induction events generalizing handler with
  | nil => simp [bandwidthRun, receivedInReports]
  | cons event rest ih =>
    have hstep : ((bandwidthUsed formatCount handler event).1.total traffic).toInt ≡
        (handler.total traffic).toInt +
          (if handler.reports then (event.amount traffic).toInt else 0) [ZMOD 2 ^ 64] := by
      rw [bandwidthUsed_total]
      split
      · exact toInt_add_modEq _ _
      · simp
    calc
      _ ≡ _ [ZMOD 2 ^ 64] := ih (bandwidthUsed formatCount handler event).1
      _ ≡ _ [ZMOD 2 ^ 64] := hstep.add_right _
      _ = _ := by rw [receivedInReports, add_assoc]

end Runs

/-- Traffic is conserved only where none was counted: after any event one byte is missing. -/
theorem trafficConserved_iff_noEvents (formatCount : Int64 → String)
    (events : List BandwidthEvent) : TrafficConserved formatCount events ↔ events = [] := by
  constructor
  · intro hconserved
    cases events with
    | nil => rfl
    | cons event rest =>
      have hfirst : [] ++ [event] <+: event :: rest := ⟨rest, rfl⟩
      have hsum := (hconserved [] event hfirst).2 .read
      exact absurd hsum (bandwidthRun_new_ne formatCount .read _)
  · rintro rfl before event hbefore
    simp at hbefore

/-- The second event reports its own bytes as the total, and one byte less than the first one's
as what was received before. -/
theorem bandwidth_lost :
    (bandwidthRun (fun _ ↦ "") TorEventHandler.new [⟨20000, 500⟩, ⟨3000, 0⟩]).2 =
        [⟨499, 19999, 0, 3000⟩] ∧
      ¬ TrafficConserved (fun _ ↦ "") [⟨20000, 500⟩, ⟨3000, 0⟩] := by
  constructor
  · decide
  · intro hconserved
    have htotal := (hconserved [⟨20000, 500⟩] ⟨3000, 0⟩ ⟨[], rfl⟩).1 _ rfl .read
    revert htotal
    decide

end Orbot.Service
