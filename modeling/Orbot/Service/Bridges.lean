import Orbot.Foundation.Directives
import Orbot.Foundation.JavaString

/-!
# Bridges

The stored bridge list is the keyword of a built-in type of bridges or a text with a bridge on each
line. Built-in bridges are drawn from a resource of the app, a custom bridge from the lines of the
text. The transports that the service starts and the plugin lines of the torrc are chosen by what
the text contains.
-/

namespace Orbot.Service

open Orbot.Foundation

/-! ## Which transports a list needs -/

/-- `useIPtObfsMeekProxy`, for the stored bridge list. -/
def useIPtObfsMeekProxy (bridgeList : String) : Bool :=
  contains bridgeList "obfs" || contains bridgeList "meek"

/-- `useIPtSnowflakeProxy`, for the stored bridge list. -/
def useIPtSnowflakeProxy (bridgeList : String) : Bool := contains bridgeList "snowflake"

/-! ## Custom bridges -/

/-- The character and the rest of the text begin with a carriage return and a line feed. -/
def startsCrLf (c : Char) (rest : List Char) : Bool := c == '\r' && rest.head? == some '\n'

/-- `replaceAll("(?m)^[ \t]*\r?\n", "")`. At the beginning of a line the first argument holds the
blanks read so far, which are left out when the line ends with nothing else. -/
def removeBlankLines : Option (List Char) → List Char → List Char
  | pending, [] => pending.getD []
  | some blanks, c :: rest =>
      if c = ' ' ∨ c = '\t' then removeBlankLines (some (blanks ++ [c])) rest
      else if c = '\n' ∨ startsCrLf c rest then removeBlankLines (some []) rest
      else blanks ++ c :: removeBlankLines (if isLineTerminator c then some [] else none) rest
  | none, c :: rest =>
      let next := if isLineTerminator c ∧ ¬ startsCrLf c rest then some [] else none
      c :: removeBlankLines next rest

/-- `parseBridgesFromSettings`. -/
def parseBridgesFromSettings (bridgeList : String) : List String :=
  split '\n' (String.ofList (removeBlankLines (some []) (trim bridgeList).toList))

example : parseBridgesFromSettings " obfs4 a\n \t\r\n\nobfs4 c\n" = ["obfs4 a", "obfs4 c"] := by
  decide

example : parseBridgesFromSettings "" = [""] := by decide

/-! ## Built-in bridges -/

structure Bridge where
  type : String
  config : String
  deriving DecidableEq

/-- The loop of `loadBridgeDefaults`, which a line without a token ends by its exception. -/
def parseBridges : List (List Char) → List Bridge
  | [] => []
  | line :: rest =>
      match tokens ' ' (String.ofList line) with
      | type :: config =>
          ⟨type, trim (String.join (config.map (· ++ " ")))⟩ :: parseBridges rest
      | [] => []

/-- `loadBridgeDefaults`, for the text of the resource. -/
def loadBridgeDefaults (resource : String) : List Bridge :=
  parseBridges (bufferedLines [] resource.toList)

def maxBridges : ℕ := 2

/-- The loop of `getBridges` over the shuffled bridges, which stops when the count has passed the
maximum. -/
def getBridges (type : String) : ℕ → List Bridge → List Bridge
  | _, [] => []
  | bridgeCount, b :: rest =>
      if b.type = type then
        b :: if bridgeCount + 1 > maxBridges then [] else getBridges type (bridgeCount + 1) rest
      else getBridges type bridgeCount rest

/-- The type of built-in bridges that a bridge list stands for. -/
def builtInBridgeType (bridgeList : String) : Option String :=
  let builtIn := if contains bridgeList "obfs" ∧ bridgeList = "obfs4" then some "obfs4" else none
  let builtIn := if bridgeList = "meek" then some "meek_lite" else builtIn
  if bridgeList = "snowflake" then some "snowflake" else builtIn

/-! ## Lines of the torrc -/

/-- The ports that `IPtProxy` reports. -/
structure IPtProxy where
  obfs3Port : ℕ
  obfs4Port : ℕ
  meekPort : ℕ
  snowflakePort : ℕ

def clientTransportPlugin (transport : String) (port : ℕ) : Directive :=
  [.fixed ("ClientTransportPlugin " ++ transport ++ " socks5 127.0.0.1:" ++ toString port)]

def Bridge.directive (b : Bridge) : Directive :=
  [.fixed ("Bridge " ++ b.type ++ " "), .stored b.config]

def customBridge (bridgeLine : String) : Directive := [.fixed "Bridge ", .stored bridgeLine]

/-- The random choices about bridges: a shuffle of the built-in ones, and the position among a
number of lines. -/
structure BridgeChoice where
  shuffle : List Bridge → List Bridge
  perm : ∀ bridges, (shuffle bridges).Perm bridges
  bridgeIdx : ℕ → ℕ
  bridgeIdx_lt : ∀ count, 0 < count → bridgeIdx count < count

/-- The line drawn from a custom list. -/
def chosenBridgeLine (choice : BridgeChoice) (bridgeList : String) : Option String :=
  let bridgeListLines := parseBridgesFromSettings bridgeList
  bridgeListLines[choice.bridgeIdx bridgeListLines.length]?

def pluginLines (ports : IPtProxy) (bridgeList : String) : List Directive :=
  (if contains bridgeList "obfs" then
    [clientTransportPlugin "obfs3" ports.obfs3Port, clientTransportPlugin "obfs4" ports.obfs4Port]
  else []) ++
  (if bridgeList = "meek" then [clientTransportPlugin "meek_lite" ports.meekPort] else []) ++
  if bridgeList = "snowflake" then
    [clientTransportPlugin "snowflake" ports.snowflakePort]
  else []

def bridgeLines (choice : BridgeChoice) (bridges : List Bridge) (bridgeList : String) :
    List Directive :=
  match builtInBridgeType bridgeList with
  | some type => (getBridges type 0 (choice.shuffle bridges)).map Bridge.directive
  | none => ((chosenBridgeLine choice bridgeList).map customBridge).toList

/-- The part of the torrc about bridges when they are enabled. -/
def bridgeSettings (ports : IPtProxy) (choice : BridgeChoice) (resource bridgeList : String) :
    List Directive :=
  [.fixed "UseBridges 1"] ::
    (pluginLines ports bridgeList ++ bridgeLines choice (loadBridgeDefaults resource) bridgeList)

/-! ## Built-in and custom lists -/

theorem eq_of_builtInBridgeType {bridgeList type : String}
    (h : builtInBridgeType bridgeList = some type) :
    (bridgeList = "obfs4" ∧ type = "obfs4") ∨ (bridgeList = "meek" ∧ type = "meek_lite") ∨
      (bridgeList = "snowflake" ∧ type = "snowflake") := by
  unfold builtInBridgeType at h
  dsimp only at h
  split at h
  · next hsnowflake => exact .inr (.inr ⟨hsnowflake, (Option.some_inj.mp h).symm⟩)
  · split at h
    · next hmeek => exact .inr (.inl ⟨hmeek, (Option.some_inj.mp h).symm⟩)
    · split at h
      · next hobfs => exact .inl ⟨hobfs.2, (Option.some_inj.mp h).symm⟩
      · simp at h

/-- A built-in type has one keyword. -/
theorem eq_of_builtInBridgeType_eq {bridgeList bridgeList' type : String}
    (h : builtInBridgeType bridgeList = some type)
    (h' : builtInBridgeType bridgeList' = some type) : bridgeList = bridgeList' := by
  rcases eq_of_builtInBridgeType h with ⟨rfl, rfl⟩ | ⟨rfl, rfl⟩ | ⟨rfl, rfl⟩ <;>
    rcases eq_of_builtInBridgeType h' with ⟨rfl, heq⟩ | ⟨rfl, heq⟩ | ⟨rfl, heq⟩ <;>
    first | rfl | exact absurd heq (by decide)

/-- A list that is not the keyword of a built-in type. -/
theorem pluginLines_of_custom {bridgeList : String} (h : builtInBridgeType bridgeList = none)
    (ports : IPtProxy) :
    pluginLines ports bridgeList =
      if contains bridgeList "obfs" then
        [clientTransportPlugin "obfs3" ports.obfs3Port,
          clientTransportPlugin "obfs4" ports.obfs4Port]
      else [] := by
  have hmeek : bridgeList ≠ "meek" := by
    rintro rfl
    exact absurd h (by decide)
  have hsnowflake : bridgeList ≠ "snowflake" := by
    rintro rfl
    exact absurd h (by decide)
  rw [pluginLines, if_neg hmeek, if_neg hsnowflake, List.append_nil, List.append_nil]

theorem startsWith_clientTransportPlugin (transport : String) (port : ℕ) :
    (clientTransportPlugin transport port).StartsWith "ClientTransportPlugin " := by
  rw [clientTransportPlugin, String.append_assoc, String.append_assoc]
  exact Directive.startsWith_fixed _ _ []

theorem startsWith_customBridge (bridgeLine : String) :
    (customBridge bridgeLine).StartsWith "Bridge " :=
  List.prefix_append _ _

/-! ## What a custom line contains -/

/-- Without a character that ends lines. -/
def IsSingleLine (part : List Char) : Prop := ∀ c ∈ part, isLineTerminator c = false

instance : DecidablePred IsSingleLine := fun part ↦
  List.decidableBAll (fun c ↦ isLineTerminator c = false) part

theorem removeBlankLines_single {part : List Char} (h : IsSingleLine part) (rest : List Char) :
    removeBlankLines none (part ++ rest) = part ++ removeBlankLines none rest := by
  induction part with
  | nil => rfl
  | cons c later ih =>
    have hc : isLineTerminator c = false := h c List.mem_cons_self
    have hlater := ih fun x hx ↦ h x (List.mem_cons_of_mem c hx)
    simp [removeBlankLines, hc, hlater]

/-- Single-line parts of the first text are found in the second one, those at its beginning at the
beginning. -/
structure PartsOf (out text : List Char) : Prop where
  start : ∀ part, IsSingleLine part → part <+: out → part <+: text
  inside : ∀ part, IsSingleLine part → part <:+: out → part <:+: text

theorem PartsOf.cons {out text : List Char} (h : PartsOf out text) (c : Char) :
    PartsOf (c :: out) (c :: text) := by
  have hstart (part : List Char) (hsingle : IsSingleLine part) (hpart : part <+: c :: out) :
      part <+: c :: text := by
    cases part with
    | nil => exact List.nil_prefix
    | cons x part =>
      obtain ⟨rfl, hrest⟩ := List.cons_prefix_cons.mp hpart
      refine List.cons_prefix_cons.mpr ⟨rfl, h.start part (fun d hd ↦ ?_) hrest⟩
      exact hsingle d (List.mem_cons_of_mem _ hd)
  refine ⟨hstart, fun part hsingle hpart ↦ ?_⟩
  rcases List.infix_cons_iff.mp hpart with hhere | hlater
  · exact (hstart part hsingle hhere).isInfix
  · exact List.infix_cons (h.inside part hsingle hlater)

theorem PartsOf.append {out text : List Char} (h : PartsOf out text) (first : List Char) :
    PartsOf (first ++ out) (first ++ text) := by
  induction first with
  | nil => exact h
  | cons c first ih => exact ih.cons c

/-- After a character that ends a line nothing need come at the beginning. -/
theorem PartsOf.cons_terminator {out text : List Char} {c : Char} (hc : isLineTerminator c = true)
    (h : ∀ part, IsSingleLine part → part <:+: out → part <:+: text) :
    PartsOf (c :: out) (c :: text) := by
  have hstart (part : List Char) (hsingle : IsSingleLine part) (hpart : part <+: c :: out) :
      part = [] := by
    cases part with
    | nil => rfl
    | cons x part =>
      obtain ⟨rfl, -⟩ := List.cons_prefix_cons.mp hpart
      have hnot := hsingle x List.mem_cons_self
      rw [hc] at hnot
      exact absurd hnot (by decide)
  constructor
  · intro part hsingle hpart
    rw [hstart part hsingle hpart]
    exact List.nil_prefix
  · intro part hsingle hpart
    rcases List.infix_cons_iff.mp hpart with hhere | hlater
    · rw [hstart part hsingle hhere]
      exact List.nil_infix
    · exact List.infix_cons (h part hsingle hlater)

/-- Blank lines are left out between the single-line parts of a text, not within them. -/
theorem partsOf_removeBlankLines (pending : Option (List Char)) (text : List Char) :
    (∀ part, IsSingleLine part → part <:+: removeBlankLines pending text →
        part <:+: pending.getD [] ++ text) ∧
      (pending = none → PartsOf (removeBlankLines pending text) text) := by
  induction text generalizing pending with
  | nil =>
    refine ⟨fun part _ hpart ↦ by simpa [removeBlankLines] using hpart, ?_⟩
    rintro rfl
    exact ⟨fun _ _ h ↦ h, fun _ _ h ↦ h⟩
  | cons c rest ih =>
    have hafter (start : Prop) [Decidable start] (hstart : start → isLineTerminator c = true) :
        PartsOf (c :: removeBlankLines (if start then some [] else none) rest) (c :: rest) := by
      by_cases h : start
      · rw [if_pos h]
        exact .cons_terminator (hstart h) (ih (some [])).1
      · rw [if_neg h]
        exact ((ih none).2 rfl).cons c
    cases pending with
    | none =>
      have hnext := hafter (isLineTerminator c ∧ ¬ startsCrLf c rest) And.left
      exact ⟨hnext.inside, fun _ ↦ hnext⟩
    | some blanks =>
      refine ⟨fun part hsingle hpart ↦ ?_, by simp⟩
      have hlater (before : List Char) (hfound : part <:+: rest) : part <:+: before ++ c :: rest :=
        hfound.trans ((List.suffix_cons c rest).trans (List.suffix_append before _)).isInfix
      simp only [removeBlankLines, Option.getD_some] at hpart ⊢
      split at hpart
      · have hfound := (ih (some (blanks ++ [c]))).1 part hsingle hpart
        simpa using hfound
      · split at hpart
        · exact hlater blanks ((ih (some [])).1 part hsingle hpart)
        · have hnext := hafter (isLineTerminator c = true) id
          exact (hnext.append blanks).inside part hsingle hpart

/-- A single-line part of a line of a custom list is found in the stored text. -/
theorem infix_of_mem_parseBridges {bridgeList line : String}
    (hline : line ∈ parseBridgesFromSettings bridgeList) {part : List Char}
    (hsingle : IsSingleLine part) (hpart : part <:+: line.toList) :
    part <:+: bridgeList.toList := by
  unfold parseBridgesFromSettings at hline
  have hlines := (infix_of_mem_split hline).1
  rw [String.toList_ofList] at hlines
  have htrimmed := (partsOf_removeBlankLines (some []) (trim bridgeList).toList).1 part hsingle
    (hpart.trans hlines)
  rw [Option.getD_some, List.nil_append] at htrimmed
  exact htrimmed.trans (trim_isInfix bridgeList)

theorem head_removeBlankLines (blanks : List Char) (hblanks : '\n' ∉ blanks)
    (text : List Char) : (removeBlankLines (some blanks) text).head? ≠ some '\n' := by
  induction text generalizing blanks with
  | nil =>
    intro hhead
    exact hblanks (List.mem_of_head? hhead)
  | cons c rest ih =>
    rw [removeBlankLines]
    split
    · next hblank =>
      refine ih (blanks ++ [c]) ?_
      rw [List.mem_append, List.mem_singleton]
      rintro (hlineFeed | rfl)
      · exact hblanks hlineFeed
      · simp at hblank
    · split
      · exact ih [] List.not_mem_nil
      · next hend =>
        intro hhead
        cases blanks with
        | nil => exact hend (.inl (Option.some_inj.mp hhead))
        | cons blank blanks =>
          exact hblanks (List.mem_cons.mpr (.inl (Option.some_inj.mp hhead).symm))

/-- A line is drawn from every list. -/
theorem exists_chosenBridgeLine (choice : BridgeChoice) (bridgeList : String) :
    ∃ line, chosenBridgeLine choice bridgeList = some line := by
  have hne : parseBridgesFromSettings bridgeList ≠ [] := by
    apply split_ne_nil
    rw [String.toList_ofList]
    exact head_removeBlankLines [] List.not_mem_nil (trim bridgeList).toList
  have hindex := choice.bridgeIdx_lt _ (List.length_pos_iff.mpr hne)
  exact ⟨_, List.getElem?_eq_getElem hindex⟩

theorem mem_parseBridges_of_chosen {choice : BridgeChoice} {bridgeList line : String}
    (h : chosenBridgeLine choice bridgeList = some line) :
    line ∈ parseBridgesFromSettings bridgeList :=
  List.mem_of_getElem? h

/-- A custom bridge is a single line. -/
theorem lineFeed_not_mem_chosen {choice : BridgeChoice} {bridgeList line : String}
    (h : chosenBridgeLine choice bridgeList = some line) : '\n' ∉ line.toList := by
  have hline := mem_parseBridges_of_chosen h
  unfold parseBridgesFromSettings at hline
  exact (infix_of_mem_split hline).2

/-! ## What the built-in bridges contain -/

theorem lineFeed_not_mem_join {parts : List String} (h : ∀ part ∈ parts, '\n' ∉ part.toList) :
    '\n' ∉ (String.join (parts.map (· ++ " "))).toList := by
  rw [String.toList_join, List.flatMap_map, List.mem_flatMap]
  rintro ⟨part, hpart, hlineFeed⟩
  rw [String.toList_append, List.mem_append] at hlineFeed
  rcases hlineFeed with hlineFeed | hspace
  · exact h part hpart hlineFeed
  · simp at hspace

theorem lineFeed_not_mem_tokens {line : List Char} (h : '\n' ∉ line) {token : String}
    (htoken : token ∈ tokens ' ' (String.ofList line)) : '\n' ∉ token.toList := by
  rw [tokens, String.toList_ofList] at htoken
  obtain ⟨chars, hchars, rfl⟩ := List.mem_map.mp htoken
  rw [String.toList_ofList]
  have hpart := (infix_of_mem_splitOn (List.mem_of_mem_filter hchars)).1
  exact fun hlineFeed ↦ h (hpart.subset hlineFeed)

/-- The configurations of the built-in bridges are single lines. -/
theorem lineFeed_not_mem_parseBridges {lines : List (List Char)}
    (hlines : ∀ line ∈ lines, '\n' ∉ line) {b : Bridge} (h : b ∈ parseBridges lines) :
    '\n' ∉ b.config.toList := by
  induction lines with
  | nil => simp [parseBridges] at h
  | cons line rest ih =>
    obtain ⟨hline, hrest⟩ := List.forall_mem_cons.mp hlines
    rw [parseBridges] at h
    cases htokens : tokens ' ' (String.ofList line) with
    | nil => simp [htokens] at h
    | cons type config =>
      rw [htokens] at h
      rcases List.mem_cons.mp h with rfl | hlater
      · have hconfig : '\n' ∉ (String.join (config.map (· ++ " "))).toList := by
          refine lineFeed_not_mem_join fun part hpart ↦ lineFeed_not_mem_tokens hline ?_
          rw [htokens]
          exact List.mem_cons_of_mem type hpart
        exact fun hlineFeed ↦ hconfig ((trim_isInfix _).subset hlineFeed)
      · exact ih hrest hlater

theorem lineFeed_not_mem_config {resource : String} {b : Bridge}
    (h : b ∈ loadBridgeDefaults resource) : '\n' ∉ b.config.toList :=
  lineFeed_not_mem_parseBridges
    (fun _ hline ↦ lineFeed_not_mem_bufferedLines List.not_mem_nil hline) h

/-! ## Which built-in bridges are drawn -/

/-- The loop takes the first bridges of the type, one more than the maximum. -/
theorem getBridges_eq_take (type : String) {bridgeCount : ℕ} (hcount : bridgeCount ≤ maxBridges)
    (bridges : List Bridge) :
    getBridges type bridgeCount bridges =
      (bridges.filter fun b ↦ b.type = type).take (maxBridges + 1 - bridgeCount) := by
  induction bridges generalizing bridgeCount with
  | nil => simp [getBridges]
  | cons first rest ih =>
    rw [getBridges]
    by_cases htype : first.type = type
    · have hlimit : maxBridges + 1 - bridgeCount = (maxBridges - bridgeCount) + 1 := by omega
      rw [if_pos htype, List.filter_cons_of_pos (by simpa using htype), hlimit, List.take_succ_cons]
      congr 1
      split
      · next hlast =>
        have hnone : maxBridges - bridgeCount = 0 := by omega
        rw [hnone, List.take_zero]
      · rw [ih (by omega)]
        congr 1
        omega
    · rw [if_neg htype, ih hcount, List.filter_cons_of_neg (by simpa using htype)]

theorem getBridges_mem {type : String} {bridges : List Bridge} {b : Bridge}
    (h : b ∈ getBridges type 0 bridges) : b ∈ bridges ∧ b.type = type := by
  rw [getBridges_eq_take type (Nat.zero_le _)] at h
  obtain ⟨hmem, htype⟩ := List.mem_filter.mp (List.mem_of_mem_take h)
  exact ⟨hmem, of_decide_eq_true htype⟩

/-- The number of built-in bridges, of which up to three of a type are taken. -/
theorem length_getBridges (type : String) (bridges : List Bridge) :
    (getBridges type 0 bridges).length =
      min (maxBridges + 1) (bridges.countP fun b ↦ b.type = type) := by
  rw [getBridges_eq_take type (Nat.zero_le _), List.length_take, ← List.countP_eq_length_filter]
  rfl

/-- `getBridges` with the field `alBridges`: the bridges in their new order and the lines. -/
def drawBridges (choice : BridgeChoice) (type : String) (alBridges : List Bridge) :
    List Bridge × List Directive :=
  let alBridges := choice.shuffle alBridges
  (alBridges, (getBridges type 0 alBridges).map Bridge.directive)

theorem bridgeLines_of_builtIn {bridgeList type : String} (choice : BridgeChoice)
    (bridges : List Bridge) (h : builtInBridgeType bridgeList = some type) :
    bridgeLines choice bridges bridgeList = (drawBridges choice type bridges).2 := by
  rw [bridgeLines, h, drawBridges]

/-- The bridges stay the loaded ones, and two of the type, or as many as there are, are drawn in
their order. -/
structure SamplesBridges (choice : BridgeChoice) (type resource : String)
    (alBridges : List Bridge) : Prop where
  perm : (drawBridges choice type alBridges).1.Perm (loadBridgeDefaults resource)
  drawn : ∃ drawn : List Bridge, drawn.Sublist (drawBridges choice type alBridges).1 ∧
    (∀ b ∈ drawn, b.type = type) ∧
    drawn.length = min maxBridges ((loadBridgeDefaults resource).countP fun b ↦ b.type = type) ∧
    (drawBridges choice type alBridges).2 = drawn.map Bridge.directive

/-- The drawn bridges are a sample within the limit exactly when the resource has no more of the
type than the limit. -/
theorem samplesBridges_iff (choice : BridgeChoice) (type : String) {resource : String}
    {alBridges : List Bridge} (hloaded : alBridges.Perm (loadBridgeDefaults resource)) :
    SamplesBridges choice type resource alBridges ↔
      (loadBridgeDefaults resource).countP (fun b ↦ b.type = type) ≤ maxBridges := by
  have hperm : (choice.shuffle alBridges).Perm (loadBridgeDefaults resource) :=
    (choice.perm alBridges).trans hloaded
  have hlength : (getBridges type 0 (choice.shuffle alBridges)).length =
      min (maxBridges + 1) ((loadBridgeDefaults resource).countP fun b ↦ b.type = type) := by
    rw [length_getBridges, hperm.countP_eq]
  constructor
  · rintro ⟨-, drawn, -, -, hcount, hlines⟩
    have hdrawn := congrArg List.length hlines
    rw [List.length_map, drawBridges, List.length_map, hlength, hcount] at hdrawn
    omega
  · intro hle
    refine ⟨hperm, getBridges type 0 (choice.shuffle alBridges), ?_, fun b hb ↦ ?_, ?_, rfl⟩
    · rw [getBridges_eq_take type (Nat.zero_le _)]
      exact (List.take_sublist _ _).trans List.filter_sublist
    · exact (getBridges_mem hb).2
    · rw [hlength]
      omega

/-- The reversed order of the resource, and the last line of each list. -/
def lastBridge : BridgeChoice where
  shuffle := List.reverse
  perm := List.reverse_perm
  bridgeIdx := fun count ↦ count - 1
  bridgeIdx_lt := fun _ ↦ Nat.sub_one_lt_of_lt

theorem samplesBridges_two :
    SamplesBridges lastBridge "obfs4" "obfs4 192.0.2.1:443\nmeek_lite 192.0.2.2:2\n"
      (loadBridgeDefaults "obfs4 192.0.2.1:443\nmeek_lite 192.0.2.2:2\n") :=
  (samplesBridges_iff lastBridge "obfs4" (.refl _)).mpr (by decide)

def threeBridges : String := "obfs4 192.0.2.1:443\nobfs4 192.0.2.2:443\nobfs4 192.0.2.3:443\n"

/-- Of three bridges all three are drawn. -/
theorem threeBridges_drawn :
    (drawBridges lastBridge "obfs4" (loadBridgeDefaults threeBridges)).2.length = 3 ∧
      ¬ SamplesBridges lastBridge "obfs4" threeBridges (loadBridgeDefaults threeBridges) := by
  refine ⟨by decide, ?_⟩
  rintro ⟨-, drawn, -, -, hcount, hlines⟩
  have hdrawn := congrArg List.length hlines
  rw [List.length_map, hcount] at hdrawn
  exact absurd hdrawn (by decide)

end Orbot.Service
