import Mathlib.Logic.Function.Basic
import Orbot.Service.Settings

/-!
# Choosing an exit

`setExitNode` stores the chosen exits and gives them to the running Tor, with `StrictNodes` set. A
restart reads the exits from the preferences, and `StrictNodes` from a preference of its own that
`setExitNode` does not store. So the two agree about the exits after every call, and about
`StrictNodes` where that preference says whether there are any.
-/

namespace Orbot.Service

open Orbot.Foundation

/-! ## Values of options -/

/-- The value that a line gives to an option. -/
def lineValue (option : String) (line : Directive) : Option String :=
  let keyword := option ++ " "
  if line.StartsWith keyword then
    some (String.ofList (line.chars.drop keyword.toList.length))
  else none

/-- The value of an option in a torrc, where the last line counts. -/
def torrcValue (option : String) (lines : List Directive) : Option String :=
  (lines.filterMap (lineValue option)).getLast?

/-- The options that a running Tor was given a value for. -/
abbrev TorConf := String → Option String

def TorConf.setConf (option value : String) (conf : TorConf) : TorConf :=
  Function.update conf option (some value)

def TorConf.resetConf (options : List String) (conf : TorConf) : TorConf := fun option ↦
  if option ∈ options then none else conf option

/-- Tor's value for an option without one of its own. -/
def torDefault (option : String) : String := if option = "StrictNodes" then "0" else ""

/-! ## Choosing -/

/-- The preferences and the connected Tor; `none` for a connection that is `null`. -/
structure ExitService where
  prefs : Preferences
  conn : Option TorConf

/-- `setExitNode`, while the connection takes its commands; `none` for `null`. -/
def setExitNode (device : Device) (newExits : Option String) (s : ExitService) : ExitService :=
  if newExits.getD "" = "" then
    { prefs := { s.prefs with exitNodes := none }
      conn := s.conn.map fun conf ↦
        ((conf.resetConf ["ExitNodes", "StrictNodes"]).setConf "DisableNetwork" "1").setConf
          "DisableNetwork" "0" }
  else
    { prefs := { s.prefs with exitNodes := newExits }
      conn := s.conn.map fun conf ↦
        (((((conf.setConf "GeoIPFile" (device.file "geoip")).setConf "GeoIPv6File"
          (device.file "geoip6")).setConf "ExitNodes" (newExits.getD "")).setConf "StrictNodes"
            "1").setConf "DisableNetwork" "1").setConf "DisableNetwork" "0" }

/-- Calls of `setExitNode`, one after the other. -/
def setExitNodes (device : Device) (calls : List (Option String)) (s : ExitService) : ExitService :=
  calls.foldl (fun s newExits ↦ setExitNode device newExits s) s

/-- The running Tor has the value of an option that the stored preferences give it in a torrc. -/
def RunsWrittenValue (s : ExitService) (option : String) : Prop :=
  ∀ conf ∈ s.conn, (conf option).getD (torDefault option) =
    (torrcValue option (nodeSettings s.prefs)).getD (torDefault option)

instance (s : ExitService) (option : String) : Decidable (RunsWrittenValue s option) :=
  inferInstanceAs (Decidable (∀ conf ∈ s.conn, _))

/-! ## What a restart reads -/

theorem lineValue_storedLine (option value : String) :
    lineValue option (storedLine option value) = some value := by
  have hchars : (storedLine option value).chars = (option ++ " ").toList ++ value.toList := by
    simp [storedLine, Directive.chars, Piece.chars]
  rw [lineValue, if_pos (by rw [Directive.StartsWith, hchars]; exact List.prefix_append _ _),
    hchars, List.drop_left, String.ofList_toList]

theorem lineValue_of_startsWith {option head : String} {line : Directive} (h : line.StartsWith head)
    (hne : ¬ head.toList <+: (option ++ " ").toList ∧ ¬ (option ++ " ").toList <+: head.toList) :
    lineValue option line = none := by
  rw [lineValue, if_neg (h.ne hne)]

theorem lineValues_nodesLine_self (option : String) (nodes : Option String) :
    (nodesLine option nodes).filterMap (lineValue option) =
      if nodes.getD "" = "" then [] else [nodes.getD ""] := by
  unfold nodesLine
  split
  · rfl
  · rw [List.filterMap_cons_some (lineValue_storedLine _ _), List.filterMap_nil]

/-- A line with another keyword gives an option no value. -/
theorem lineValues_nodesLine_of_ne {option keyword : String} (nodes : Option String)
    (hne : ¬ keyword.toList <+: (option ++ " ").toList ∧
      ¬ (option ++ " ").toList <+: keyword.toList) :
    (nodesLine keyword nodes).filterMap (lineValue option) = [] := by
  unfold nodesLine
  split
  · rfl
  · rw [List.filterMap_cons_none (lineValue_of_startsWith ?_ hne), List.filterMap_nil]
    exact Directive.startsWith_fixed keyword " " _

theorem torrcValue_exitNodes (prefs : Preferences) :
    torrcValue "ExitNodes" (nodeSettings prefs) =
      if prefs.exitNodes.getD "" = "" then none else some (prefs.exitNodes.getD "") := by
  have hstrict : lineValue "ExitNodes"
      (fixedLine ("StrictNodes " ++ if prefs.enableStrictNodes then "1" else "0")) = none :=
    lineValue_of_startsWith (Directive.startsWith_fixed "StrictNodes " _ _) (by decide)
  rw [torrcValue, nodeSettings, List.filterMap_append, List.filterMap_append,
    List.filterMap_append, lineValues_nodesLine_of_ne _ (by decide), lineValues_nodesLine_self,
    lineValues_nodesLine_of_ne _ (by decide), List.filterMap_cons_none hstrict]
  split
  · rfl
  · rfl

theorem torrcValue_strictNodes (prefs : Preferences) :
    torrcValue "StrictNodes" (nodeSettings prefs) =
      some (if prefs.enableStrictNodes then "1" else "0") := by
  have hstrict : lineValue "StrictNodes"
      (fixedLine ("StrictNodes " ++ if prefs.enableStrictNodes then "1" else "0")) =
        some (if prefs.enableStrictNodes then "1" else "0") := by
    cases prefs.enableStrictNodes <;> decide
  rw [torrcValue, nodeSettings, List.filterMap_append, List.filterMap_append,
    List.filterMap_append, lineValues_nodesLine_of_ne _ (by decide),
    lineValues_nodesLine_of_ne _ (by decide), lineValues_nodesLine_of_ne _ (by decide),
    List.filterMap_cons_some hstrict]
  rfl

/-! ## What runs -/

variable {device : Device} {s : ExitService}

/-- The preference about strict nodes is not stored. -/
theorem enableStrictNodes_setExitNode (newExits : Option String) :
    (setExitNode device newExits s).prefs.enableStrictNodes = s.prefs.enableStrictNodes := by
  unfold setExitNode
  split
  · rfl
  · rfl

theorem enableStrictNodes_setExitNodes (calls : List (Option String)) :
    (setExitNodes device calls s).prefs.enableStrictNodes = s.prefs.enableStrictNodes := by
  induction calls generalizing s with
  | nil => rfl
  | cons newExits rest ih =>
    calc
      _ = (setExitNode device newExits s).prefs.enableStrictNodes := ih
      _ = _ := enableStrictNodes_setExitNode newExits

theorem exitNodes_setExitNode (newExits : Option String) :
    (setExitNode device newExits s).prefs.exitNodes.getD "" = newExits.getD "" := by
  unfold setExitNode
  split
  · next hempty => exact hempty.symm
  · rfl

/-- What a call does to the two options of the running Tor. -/
theorem conn_setExitNode {newExits : Option String} {conf : TorConf}
    (h : conf ∈ (setExitNode device newExits s).conn) :
    conf "ExitNodes" = (if newExits.getD "" = "" then none else some (newExits.getD "")) ∧
      conf "StrictNodes" = if newExits.getD "" = "" then none else some "1" := by
  by_cases hempty : newExits.getD "" = ""
  · rw [setExitNode, if_pos hempty] at h
    obtain ⟨before, -, rfl⟩ := Option.map_eq_some_iff.mp h
    simp [hempty, TorConf.setConf, TorConf.resetConf]
  · rw [setExitNode, if_neg hempty] at h
    obtain ⟨before, -, rfl⟩ := Option.map_eq_some_iff.mp h
    simp [hempty, TorConf.setConf]

theorem isSome_conn_setExitNode (newExits : Option String) :
    (setExitNode device newExits s).conn.isSome = s.conn.isSome := by
  unfold setExitNode
  split
  · exact Option.isSome_map
  · exact Option.isSome_map

/-- The exits that were chosen last are the ones that run and the ones that are written. -/
theorem setExitNode_exitNodes (newExits : Option String) :
    RunsWrittenValue (setExitNode device newExits s) "ExitNodes" := by
  intro conf hconf
  rw [torrcValue_exitNodes, exitNodes_setExitNode, (conn_setExitNode hconf).1]

/-- Nodes are strict in the running Tor if exits were chosen, and in the torrc by the preference. -/
theorem setExitNode_strictNodes (newExits : Option String) (hconn : s.conn.isSome) :
    RunsWrittenValue (setExitNode device newExits s) "StrictNodes" ↔
      (newExits.getD "" ≠ "" ↔ s.prefs.enableStrictNodes = true) := by
  have hlive : (setExitNode device newExits s).conn.isSome :=
    (isSome_conn_setExitNode newExits).trans hconn
  obtain ⟨conf, hconf⟩ := Option.isSome_iff_exists.mp hlive
  have hagree : RunsWrittenValue (setExitNode device newExits s) "StrictNodes" ↔
      (if newExits.getD "" = "" then "0" else "1") =
        if s.prefs.enableStrictNodes then "1" else "0" := by
    simp only [RunsWrittenValue, hconf, Option.mem_some_iff, forall_eq', torrcValue_strictNodes,
      enableStrictNodes_setExitNode, (conn_setExitNode hconf).2, Option.getD_some]
    by_cases hempty : newExits.getD "" = ""
    · simp [hempty, torDefault]
    · simp [hempty]
  rw [hagree]
  by_cases hempty : newExits.getD "" = ""
  · cases s.prefs.enableStrictNodes <;> simp [hempty]
  · cases s.prefs.enableStrictNodes <;> simp [hempty]

theorem isSome_conn_setExitNodes (calls : List (Option String)) :
    (setExitNodes device calls s).conn.isSome = s.conn.isSome := by
  induction calls generalizing s with
  | nil => rfl
  | cons newExits rest ih =>
    calc
      _ = (setExitNode device newExits s).conn.isSome := ih
      _ = _ := isSome_conn_setExitNode newExits

/-- After any calls of a connected service the running Tor agrees with what a restart reads, if and
only if the last call chose exits just when the preference asks for strict nodes. -/
theorem liveExits_agree_iff (device : Device) (s : ExitService) (calls : List (Option String))
    (last : Option String) (hconn : s.conn.isSome) :
    (RunsWrittenValue (setExitNodes device (calls ++ [last]) s) "ExitNodes" ∧
        RunsWrittenValue (setExitNodes device (calls ++ [last]) s) "StrictNodes") ↔
      (last.getD "" ≠ "" ↔ s.prefs.enableStrictNodes = true) := by
  have hlast : setExitNodes device (calls ++ [last]) s =
      setExitNode device last (setExitNodes device calls s) := List.foldl_concat ..
  have hlive : (setExitNodes device calls s).conn.isSome :=
    (isSome_conn_setExitNodes calls).trans hconn
  rw [hlast, and_iff_right (setExitNode_exitNodes last), setExitNode_strictNodes last hlive,
    enableStrictNodes_setExitNodes]

/-- With strict nodes asked for, exits that are chosen, dropped and chosen again agree. -/
theorem liveExits_agree_strict :
    RunsWrittenValue
        (setExitNodes plainDevice [some "{de}", some "", some "{is}"]
          ⟨{ strictNodes := some true }, some fun _ ↦ none⟩) "ExitNodes" ∧
      RunsWrittenValue
        (setExitNodes plainDevice [some "{de}", some "", some "{is}"]
          ⟨{ strictNodes := some true }, some fun _ ↦ none⟩) "StrictNodes" :=
  (liveExits_agree_iff plainDevice ⟨{ strictNodes := some true }, some fun _ ↦ none⟩
    [some "{de}", some ""] (some "{is}") rfl).mpr (by decide)

/-- With the default preferences a chosen exit is strict until Tor is started again. -/
theorem strictNodes_lost :
    (setExitNodes plainDevice [some "{de}"] ⟨{}, some fun _ ↦ none⟩).conn.map (· "StrictNodes") =
        some (some "1") ∧
      torrcValue "StrictNodes"
          (nodeSettings (setExitNodes plainDevice [some "{de}"] ⟨{}, some fun _ ↦ none⟩).prefs) =
        some "0" ∧
      ¬ RunsWrittenValue (setExitNodes plainDevice [some "{de}"] ⟨{}, some fun _ ↦ none⟩)
        "StrictNodes" := by
  decide

end Orbot.Service
