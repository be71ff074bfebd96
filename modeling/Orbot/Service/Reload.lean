import Orbot.Service.OrbotService
import Orbot.Service.TorrcFile

/-!
# Reloading the torrc

A `SIGNAL_RELOAD` intent makes Tor read its torrc again, and only a start of Tor writes that file.
So a reload applies the current preferences in the runs in which the effective preferences at a
reload are those of the last start that wrote the file; whatever an activity has changed since then
waits for the next start.
-/

namespace Orbot.Service

open Orbot.Foundation Orbot.OnionService

/-! ## The file and the service -/

/-- The choices and the preferences of a generation of the file. -/
structure Generation where
  choice : TorrcChoice
  prefs : TorrcPreferences

structure TorrcService where
  service : OrbotService
  prefs : TorrcPreferences
  tables : Tables
  /-- The file `TorService.getTorrc`. -/
  torrc : Option String
  /-- How the file was written last. -/
  generated : Option Generation
  /-- What Tor read at the last reload. -/
  reread : Option String

/-- The call of `startTorService` writes the file: the start is not ignored, no stray daemon is
left, and nothing is thrown before. -/
def writesTorrc (start : ServiceStart) (s : OrbotService) : Bool :=
  (ignoredStart s).isNone && (stopTor { s with mCurrentStatus := .starting }).isSome &&
    start != .throws

/-- `startTor`. A generation that throws or gives `null` fails the start before it binds. -/
def TorrcService.startTor (device : Device) (choice : TorrcChoice) (start : ServiceStart)
    (namesThrow : Bool) (s : TorrcService) : TorrcService :=
  let written := if writesTorrc start s.service then
    updateTorrcCustomFile device choice s.prefs s.tables else none
  match written with
  | some (text, tables) =>
      { s with
        service := Service.startTor start namesThrow s.service
        tables := tables
        torrc := some text
        generated := some ⟨choice, s.prefs⟩ }
  | none => { s with service := Service.startTor .throws namesThrow s.service }

/-- `requestTorRereadConfig`. -/
def requestTorRereadConfig (s : TorrcService) : TorrcService :=
  if s.service.conn.isSome then { s with reread := s.torrc } else s

inductive TorrcAction where
  | startTor (choice : TorrcChoice) (start : ServiceStart) (namesThrow : Bool)
  /-- Another event of the service. -/
  | service (event : Event)
  /-- The refresh of the onion names, which a start ends with. -/
  | updateOnionNames (v : Version) (P : Platform) (disk : Disk Bytes)
  /-- An activity changes preferences. -/
  | setPreferences (prefs : TorrcPreferences)
  | reload

def TorrcService.next (device : Device) (s : TorrcService) : TorrcAction → TorrcService
  | .startTor choice start namesThrow => s.startTor device choice start namesThrow
  | .service event => { s with service := s.service.next event }
  | .updateOnionNames v P disk => { s with tables := updateTableNames P device disk s.tables v }
  | .setPreferences prefs => { s with prefs := prefs }
  | .reload => requestTorRereadConfig s

def Event.isStartTor : Event → Bool
  | .startTor _ _ => true
  | _ => false

def TorrcService.Enabled (s : TorrcService) : TorrcAction → Prop
  | .service event => event.isStartTor = false ∧ s.service.Enabled event
  | .startTor _ _ _ | .updateOnionNames _ _ _ | .setPreferences _ | .reload => True

/-- A new process, with the preferences, the tables and maybe a torrc from before. -/
def torrcSystem (device : Device) (prefs : TorrcPreferences) (tables : Tables)
    (torrc : Option String) : System TorrcService TorrcAction where
  init := ⟨.new, prefs, tables, torrc, none, none⟩
  enabled := TorrcService.Enabled
  next := TorrcService.next device

/-- What Tor reads at a reload is the text for the current preferences, with the free ports and the
random choices of the last generation. -/
def ReloadsCurrent (device : Device) (s : TorrcService) : Prop :=
  ∃ generation ∈ s.generated, (requestTorRereadConfig s).reread.isSome ∧
    (requestTorRereadConfig s).reread =
      (updateTorrcCustomFile device generation.choice s.prefs s.tables).map Prod.fst

/-- A reload with a connection finds the effective preferences of the last generation. -/
def FindsSettings (device : Device) (s : TorrcService) : TorrcAction → Prop
  | .reload => s.service.conn.isSome → ∀ generation ∈ s.generated,
      s.prefs.effective device = generation.prefs.effective device
  | _ => True

/-! ## The file belongs to the last generation -/

/-- The file is what its generation would write again, and without a generation there is neither a
connection nor a binding that may give one. -/
structure TorrcGenerated (device : Device) (s : TorrcService) : Prop where
  current : ∀ generation ∈ s.generated, s.torrc.isSome ∧ s.torrc =
    (updateTorrcCustomFile device generation.choice generation.prefs s.tables).map Prod.fst
  unbound : s.generated = none →
    s.service.conn = none ∧ s.service.bindings = [] ∧ s.service.waiting = []

theorem stopTorAsync_unbound {s : OrbotService}
    (h : s.conn = none ∧ s.bindings = [] ∧ s.waiting = []) :
    (stopTorAsync s).conn = none ∧ (stopTorAsync s).bindings = [] ∧
      (stopTorAsync s).waiting = [] := by
  simpa [stopTorAsync, stopTor, h.1] using h

/-- A start that fails before it binds leaves nothing bound. -/
theorem startTor_throws_unbound {s : OrbotService}
    (h : s.conn = none ∧ s.bindings = [] ∧ s.waiting = []) (namesThrow : Bool) :
    (startTor .throws namesThrow s).conn = none ∧
      (startTor .throws namesThrow s).bindings = [] ∧
      (startTor .throws namesThrow s).waiting = [] := by
  unfold startTor
  split
  · exact h
  · have hdaemon : startDaemon .throws namesThrow { s with mCurrentStatus := .starting } =
        ({ s with mCurrentStatus := .starting }, false) := by
      simp [startDaemon, stopTor, h.1, startTorService]
    rw [hdaemon]
    exact stopTorAsync_unbound h

/-- Without a binding no callback is called. -/
theorem next_unbound {s : OrbotService} (h : s.conn = none ∧ s.bindings = [] ∧ s.waiting = [])
    {event : Event} (hstart : event.isStartTor = false) (henabled : s.Enabled event) :
    (s.next event).conn = none ∧ (s.next event).bindings = [] ∧ (s.next event).waiting = [] := by
  cases event with
  | startTor start namesThrow => simp [Event.isStartTor] at hstart
  | stopTorAsync => exact stopTorAsync_unbound h
  | onServiceConnected connection answer | onServiceDisconnected connection
  | onNullBinding connection | onBindingDied connection =>
    simp [OrbotService.Enabled, h.2.1] at henabled
  | pollConnection connection answer => simp [OrbotService.Enabled, h.2.2] at henabled
  | initControlConnection fails => simpa [OrbotService.next, initControlConnection, h.1] using h
  | circuitStatus connection status =>
    have hsame : (circuitStatus status s).conn = s.conn ∧
        (circuitStatus status s).bindings = s.bindings ∧
        (circuitStatus status s).waiting = s.waiting := by
      unfold circuitStatus
      split <;> exact ⟨rfl, rfl, rfl⟩
    exact ⟨hsame.1.trans h.1, hsame.2.1.trans h.2.1, hsame.2.2.trans h.2.2⟩

section Steps

variable {device : Device} {s : TorrcService}

theorem torrcGenerated_startTor (h : TorrcGenerated device s) (choice : TorrcChoice)
    (start : ServiceStart) (namesThrow : Bool) :
    TorrcGenerated device (s.startTor device choice start namesThrow) := by
  unfold TorrcService.startTor
  dsimp only
  split
  · next text tables hwritten =>
    have hfile : updateTorrcCustomFile device choice s.prefs s.tables = some (text, tables) := by
      split at hwritten
      · exact hwritten
      · simp at hwritten
    constructor
    · intro generation hgeneration
      obtain rfl := Option.some_inj.mp hgeneration
      exact ⟨rfl, (updateTorrcCustomFile_again hfile).symm⟩
    · simp
  · exact ⟨h.current, fun hnone ↦ startTor_throws_unbound (h.unbound hnone) namesThrow⟩

theorem torrcGenerated_next (h : TorrcGenerated device s) {action : TorrcAction}
    (henabled : s.Enabled action) : TorrcGenerated device (s.next device action) := by
  cases action with
  | startTor choice start namesThrow => exact torrcGenerated_startTor h choice start namesThrow
  | service event =>
    exact ⟨h.current, fun hnone ↦ next_unbound (h.unbound hnone) henabled.1 henabled.2⟩
  | updateOnionNames v P disk =>
    refine ⟨fun generation hgeneration ↦ ?_, h.unbound⟩
    obtain ⟨hwritten, hcurrent⟩ := h.current generation hgeneration
    have hsame := onionSettings_updateTableNames P device disk generation.choice.random s.tables v
    exact ⟨hwritten, hcurrent.trans (updateTorrcCustomFile_text hsame).symm⟩
  | setPreferences prefs => exact ⟨h.current, h.unbound⟩
  | reload =>
    change TorrcGenerated device (requestTorRereadConfig s)
    unfold requestTorRereadConfig
    split
    · exact ⟨h.current, h.unbound⟩
    · exact h

/-- A reload that finds the settings of the last generation applies them. -/
theorem reloadsCurrent_of_findsSettings (h : TorrcGenerated device s)
    (hconn : s.service.conn.isSome) (hfinds : FindsSettings device s .reload) :
    ReloadsCurrent device s := by
  have hgenerated : s.generated ≠ none := by
    intro hnone
    rw [(h.unbound hnone).1] at hconn
    exact absurd hconn (by simp)
  obtain ⟨generation, hgeneration⟩ := Option.ne_none_iff_exists'.mp hgenerated
  obtain ⟨hwritten, hcurrent⟩ := h.current generation hgeneration
  have hreread : (requestTorRereadConfig s).reread = s.torrc := by
    rw [requestTorRereadConfig, if_pos hconn]
  refine ⟨generation, hgeneration, hreread ▸ hwritten, ?_⟩
  rw [hreread, hcurrent, ← updateTorrcCustomFile_effective device generation.choice s.prefs,
    hfinds hconn generation hgeneration, updateTorrcCustomFile_effective]

end Steps

/-- In every run whose reloads find the effective preferences of the last generation, every reload
with a connection applies the current preferences. -/
theorem reload_current (device : Device) (prefs : TorrcPreferences) (tables : Tables)
    (torrc : Option String) (actions : List TorrcAction)
    (hrun : (torrcSystem device prefs tables torrc).Admissible (FindsSettings device)
      (torrcSystem device prefs tables torrc).init actions)
    (before : List TorrcAction) (hbefore : before ++ [.reload] <+: actions)
    (hconn : ((torrcSystem device prefs tables torrc).run
      (torrcSystem device prefs tables torrc).init before).service.conn.isSome) :
    ReloadsCurrent device ((torrcSystem device prefs tables torrc).run
      (torrcSystem device prefs tables torrc).init before) := by
  let M := torrcSystem device prefs tables torrc
  obtain ⟨rest, rfl⟩ := hbefore
  have hinit : TorrcGenerated device M.init := ⟨by simp [M, torrcSystem], fun _ ↦ ⟨rfl, rfl, rfl⟩⟩
  obtain ⟨hreload, -⟩ := M.admissible_append.mp hrun
  obtain ⟨hearlier, -, hfinds, -⟩ := M.admissible_append.mp hreload
  have hgenerated : TorrcGenerated device (M.run M.init before) :=
    M.invariant_run (TorrcGenerated device)
      (fun _ _ hs henabled _ ↦ torrcGenerated_next hs henabled) hinit hearlier
  exact reloadsCurrent_of_findsSettings hgenerated hconn hfinds

/-! ## Two runs -/

instance TorrcService.decidableEnabled (s : TorrcService) :
    ∀ action, Decidable (s.Enabled action)
  | .service _ => inferInstanceAs (Decidable (_ ∧ _))
  | .startTor _ _ _ | .updateOnionNames _ _ _ | .setPreferences _ | .reload =>
      inferInstanceAs (Decidable True)

instance torrcSystem.decidableEnabled (device : Device) (prefs : TorrcPreferences)
    (tables : Tables) (torrc : Option String) (s : TorrcService) (action : TorrcAction) :
    Decidable ((torrcSystem device prefs tables torrc).enabled s action) :=
  inferInstanceAs (Decidable (s.Enabled action))

instance FindsSettings.decidable (device : Device) (s : TorrcService) :
    ∀ action, Decidable (FindsSettings device s action)
  | .reload => inferInstanceAs (Decidable (_ → ∀ generation ∈ s.generated, _ = _))
  | .startTor _ _ _ | .service _ | .updateOnionNames _ _ _ | .setPreferences _ =>
      inferInstanceAs (Decidable True)

/-- All ports are free. -/
def freePorts : TorrcChoice := ⟨fun _ ↦ false, firstChoice⟩

/-- Tor is started and its control connection found. -/
def connected : List TorrcAction :=
  [.startTor freePorts .bound false, .service (.onServiceConnected 0 (.accepts 0))]

/-- A switch that is stored with its default value changes nothing. -/
theorem reload_current_default :
    ReloadsCurrent plainDevice ((torrcSystem plainDevice {} noTables none).run
      (torrcSystem plainDevice {} noTables none).init
        (connected ++ [.setPreferences { connectionPadding := some false }])) :=
  reload_current plainDevice {} noTables none
    (connected ++ [.setPreferences { connectionPadding := some false }] ++ [.reload])
    (by decide) _ (List.prefix_refl _) (by decide)

/-- Bridges are switched on after Tor was started without them. -/
def bridgesChosen : TorrcPreferences := { bridgesEnabled := some true, bridgesList := some "obfs4" }

/-- The ports of the default preferences, all of them free. -/
def defaultPorts : PortTexts := ⟨"9050", "8118", "9040", "5400"⟩

theorem run_connected {text : String} {tables : Tables}
    (hfile : updateTorrcCustomFile plainDevice freePorts {} noTables = some (text, tables))
    (prefs : TorrcPreferences) :
    (torrcSystem plainDevice {} noTables none).run (torrcSystem plainDevice {} noTables none).init
        (connected ++ [.setPreferences prefs]) =
      { service := (OrbotService.new.next (.startTor .bound false)).next
          (.onServiceConnected 0 (.accepts 0))
        prefs := prefs
        tables := tables
        torrc := some text
        generated := some ⟨freePorts, {}⟩
        reread := none } := by
  have hwrites : writesTorrc .bound OrbotService.new = true := by decide
  have hstart : TorrcService.startTor plainDevice freePorts .bound false
      (torrcSystem plainDevice {} noTables none).init =
        { service := startTor .bound false OrbotService.new
          prefs := {}
          tables := tables
          torrc := some text
          generated := some ⟨freePorts, {}⟩
          reread := none } := by
    simp only [TorrcService.startTor, torrcSystem, hwrites, if_true, hfile]
  have hnext : (torrcSystem plainDevice {} noTables none).next = TorrcService.next plainDevice :=
    rfl
  simp only [connected, List.cons_append, List.nil_append, System.run_cons, System.run_nil, hnext,
    TorrcService.next, hstart]
  rfl

/-- Tor reads a torrc without bridges again, although the user has switched them on. -/
theorem bridges_notReloaded :
    (torrcSystem plainDevice {} noTables none).Admissible (fun _ _ ↦ True)
        (torrcSystem plainDevice {} noTables none).init
          (connected ++ [.setPreferences bridgesChosen] ++ [.reload]) ∧
      ((torrcSystem plainDevice {} noTables none).run
        (torrcSystem plainDevice {} noTables none).init
          (connected ++ [.setPreferences bridgesChosen])).service.conn = some 0 ∧
      (requestTorRereadConfig ((torrcSystem plainDevice {} noTables none).run
        (torrcSystem plainDevice {} noTables none).init
          (connected ++ [.setPreferences bridgesChosen]))).reread =
        (updateTorrcCustomFile plainDevice freePorts {} noTables).map Prod.fst ∧
      ¬ ReloadsCurrent plainDevice ((torrcSystem plainDevice {} noTables none).run
        (torrcSystem plainDevice {} noTables none).init
          (connected ++ [.setPreferences bridgesChosen])) := by
  have hports : portTexts freePorts.isPortOpen {} = some defaultPorts := by decide
  have hports' : portTexts freePorts.isPortOpen bridgesChosen = some defaultPorts := by decide
  obtain ⟨⟨text, tables⟩, hfile⟩ := Option.isSome_iff_exists.mp
    (by decide : (updateTorrcCustomFile plainDevice freePorts {} noTables).isSome)
  refine ⟨by decide, ?_⟩
  rw [run_connected hfile]
  refine ⟨rfl, by rw [hfile]; rfl, ?_⟩
  rintro ⟨generation, hgeneration, -, hcurrent⟩
  obtain rfl := Option.some_inj.mp hgeneration
  have hold : (updateTorrcCustomFile plainDevice freePorts {} noTables).map Prod.fst =
      some text := by
    rw [hfile]
    rfl
  have hnew : (updateTorrcCustomFile plainDevice freePorts bridgesChosen tables).map Prod.fst =
      some text := hcurrent.symm
  exact updateTorrcCustomFile_ne hports hports' rfl (by decide) hold hnew

end Orbot.Service
