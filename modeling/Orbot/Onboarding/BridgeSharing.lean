import Orbot.Foundation.TextParts
import Orbot.Service.Settings

/-!
# Sharing bridges

A bridge list leaves the app as a `bridge://` text and comes back as a scanned code, in that form or
as a JSON array, or through a link that is opened. `CustomBridgesActivity.onActivityResult` tells
the two forms of a scanned code apart by a search for `://`, which also finds the URL of a bridge
line in a JSON array. Everything after that URL's beginning is then stored as the bridge list.
-/

namespace Orbot.Onboarding

open Orbot.Foundation Orbot.Service

/-! ## Texts that are shared -/

/-- `URLEncoder`, `URLDecoder` and the strings of a `JSONArray`, with none for their exceptions. -/
structure TextCodecs where
  encode : String → String
  decode : String → Option String
  readArray : String → Option (List String)

/-- A character between the quotes of a JSON string; writers differ in what else they escape. -/
def escapeChar (other : Char → List Char) (c : Char) : List Char :=
  if c = '"' ∨ c = '\\' then ['\\', c] else if c = ']' then [c] else other c

def jsonString (other : Char → List Char) (line : String) : List Char :=
  '"' :: line.toList.flatMap (escapeChar other) ++ ['"']

/-- The text of a JSON array of strings. -/
def jsonArray (other : Char → List Char) (lines : List String) : String :=
  String.ofList ('[' :: [','].intercalate (lines.map (jsonString other)) ++ [']'])

/-- What the share button sends for a bridge list. -/
def sharedText (codecs : TextCodecs) (setBridges : String) : String :=
  "bridge://" ++ codecs.encode setBridges

/-! ## Importing a list -/

namespace CustomBridgesActivity

/-- A blank list is stored as null, and the default list is read from then on. -/
def setNewBridges (bridges : String) (prefs : Preferences) : Preferences :=
  { prefs with
    bridgesList := if trim bridges = "" then none else some (trim bridges)
    bridgesEnabled := some (trim bridges ≠ "") }

/-- The contents of a scanned code; an exception leaves the preferences as they are. -/
def onActivityResult (codecs : TextCodecs) (results : String) (prefs : Preferences) :
    Preferences :=
  if results = "" then prefs
  else
    match indexOf results "://" with
    | some urlIdx =>
        match (codecs.decode results).bind
            (substring · (utf16Length (results.toList.take urlIdx) + 3)) with
        | some bridges => setNewBridges bridges prefs
        | none => prefs
    | none =>
        match codecs.readArray results with
        | some bridgeJson => setNewBridges (String.join (bridgeJson.map (· ++ "\n"))) prefs
        | none => prefs

end CustomBridgesActivity

namespace OrbotMainActivity

def setNewBridges (newBridgeValue : String) (prefs : Preferences) : Preferences :=
  { prefs with bridgesList := some newBridgeValue, bridgesEnabled := some true }

/-- `handleIntents` for `ACTION_VIEW`; the exception of the decoder is not caught. -/
def handleView (codecs : TextCodecs) (urlString : String) (prefs : Preferences) :
    Option Preferences :=
  if (urlString.toList.take 9).map Char.toLower = "bridge://".toList then
    (codecs.decode (String.ofList (urlString.toList.drop 9))).map (setNewBridges · prefs)
  else some prefs

end OrbotMainActivity

/-! ## Round trips -/

/-- A trimmed bridge line that is not blank. -/
structure BridgeLine (line : String) : Prop where
  trim_eq : trim line = line
  ne_empty : line ≠ ""
  single : IsSingleLine line.toList

/-- Bridges are enabled, and the torrc takes them from the given lines. -/
structure Recovers (farsi : Bool) (lines : List String) (prefs : Preferences) : Prop where
  enabled : Prefs.bridgesEnabled farsi prefs = true
  stored : parseBridgesFromSettings (Prefs.getBridgesList farsi prefs) = lines

/-- The lines survive all three ways of sharing them, whatever was stored before. -/
structure RoundTrips (codecs : TextCodecs) (other : Char → List Char) (farsi : Bool)
    (lines : List String) : Prop where
  scanned : ∀ prefs, Recovers farsi lines (CustomBridgesActivity.onActivityResult codecs
    (sharedText codecs ("\n".intercalate lines)) prefs)
  viewed : ∀ prefs, ∃ updated, OrbotMainActivity.handleView codecs
    (sharedText codecs ("\n".intercalate lines)) prefs = some updated ∧
      Recovers farsi lines updated
  scannedArray : ∀ prefs, Recovers farsi lines (CustomBridgesActivity.onActivityResult codecs
    (jsonArray other lines) prefs)

/-- The characters that end a JSON array of strings. -/
def isArrayEnding (c : Char) : Bool := c == '"' || c == '\\' || c == ']'

/-- What the codecs do with the texts of these lines: readers and writers are inverse, and a text
that is no URL code keeps its ending of quotes and brackets when it is decoded. -/
structure TextCodecs.InverseOn (codecs : TextCodecs) (other : Char → List Char)
    (lines : List String) : Prop where
  decode_encode : codecs.decode (codecs.encode ("\n".intercalate lines)) =
    some ("\n".intercalate lines)
  decode_sharedText : codecs.decode (sharedText codecs ("\n".intercalate lines)) =
    some ("bridge://" ++ "\n".intercalate lines)
  readArray_jsonArray : codecs.readArray (jsonArray other lines) = some lines
  decode_ending : ∀ ending, ending <:+ (jsonArray other lines).toList →
    ending.all isArrayEnding → ∀ text ∈ codecs.decode (jsonArray other lines),
      ending <:+ text.toList

/-! ## Lines of a stored list -/

theorem BridgeLine.trimmed {line : String} (h : BridgeLine line) : Trimmed line.toList :=
  h.trim_eq ▸ trimmed_toList_trim line

theorem BridgeLine.lineFeed_not_mem {line : String} (h : BridgeLine line) :
    '\n' ∉ line.toList := fun hmem ↦ absurd (h.single _ hmem) (by decide)

/-- A line that begins with a visible character is kept. -/
theorem removeBlankLines_line {part : List Char} (hne : part ≠ []) (htrimmed : Trimmed part)
    (h : IsSingleLine part) (blanks rest : List Char) :
    removeBlankLines (some blanks) (part ++ rest) =
      blanks ++ part ++ removeBlankLines none rest := by
  cases part with
  | nil => exact absurd rfl hne
  | cons c later =>
    have hvisible : ¬ c ≤ ' ' := htrimmed.first c rfl
    have hblank : ¬ (c = ' ' ∨ c = '\t') := by
      rintro (rfl | rfl)
      · exact hvisible (by decide)
      · exact hvisible (by decide)
    have hend : ¬ (c = '\n' ∨ startsCrLf c (later ++ rest) = true) := by
      rintro (rfl | hcrlf)
      · exact hvisible (by decide)
      · have hc : c = '\r' := by simp_all [startsCrLf]
        exact hvisible (hc ▸ by decide)
    have hc : isLineTerminator c = false := h c List.mem_cons_self
    have hlater := removeBlankLines_single (fun x hx ↦ h x (List.mem_cons_of_mem c hx)) rest
    simp [removeBlankLines, hblank, hend, hc, hlater]

theorem removeBlankLines_intercalate {parts : List (List Char)}
    (h : ∀ part ∈ parts, part ≠ [] ∧ Trimmed part ∧ IsSingleLine part) :
    removeBlankLines (some []) (['\n'].intercalate parts) = ['\n'].intercalate parts := by
  induction parts with
  | nil => rfl
  | cons part rest ih =>
    obtain ⟨hne, htrimmed, hsingle⟩ := h part List.mem_cons_self
    cases rest with
    | nil =>
      have hline := removeBlankLines_line hne htrimmed hsingle [] []
      simpa [removeBlankLines] using hline
    | cons second more =>
      have hrest := ih fun other hother ↦ h other (List.mem_cons_of_mem part hother)
      have hbreak (text : List Char) : removeBlankLines none ('\n' :: text) =
          '\n' :: removeBlankLines (some []) text := rfl
      rw [List.intercalate_cons_cons, List.append_assoc,
        removeBlankLines_line hne htrimmed hsingle, List.nil_append, List.singleton_append,
        hbreak, hrest]

/-- Joined bridge lines are found again. -/
theorem parseBridges_intercalate {lines : List String} (hne : lines ≠ [])
    (hlines : ∀ line ∈ lines, BridgeLine line) :
    parseBridgesFromSettings ("\n".intercalate lines) = lines := by
  have hparts : ∀ part ∈ lines.map String.toList,
      part ≠ [] ∧ Trimmed part ∧ IsSingleLine part := by
    intro part hpart
    obtain ⟨line, hline, rfl⟩ := List.mem_map.mp hpart
    have h := hlines line hline
    exact ⟨by simpa using h.ne_empty, h.trimmed, h.single⟩
  have hjoined : ("\n".intercalate lines).toList = ['\n'].intercalate (lines.map String.toList) :=
    String.toList_intercalate
  have htrimmed : Trimmed ("\n".intercalate lines).toList := by
    rw [hjoined]
    exact trimmed_intercalate fun part hpart ↦ ⟨(hparts part hpart).1, (hparts part hpart).2.1⟩
  rw [parseBridgesFromSettings, trim_of_trimmed htrimmed, hjoined,
    removeBlankLines_intercalate hparts]
  exact split_intercalate hne fun line hline ↦
    ⟨(hlines line hline).ne_empty, (hlines line hline).lineFeed_not_mem⟩

/-! ## Texts that come back -/

section RoundTrip

variable {codecs : TextCodecs} {other : Char → List Char} {farsi : Bool} {lines : List String}

theorem join_lineFeeds (hne : lines ≠ []) :
    String.join (lines.map (· ++ "\n")) = "\n".intercalate lines ++ "\n" := by
  induction lines with
  | nil => exact absurd rfl hne
  | cons line rest ih =>
    cases rest with
    | nil => simp
    | cons second more =>
      rw [List.map_cons, String.join_cons, ih (List.cons_ne_nil second more),
        String.intercalate_cons_cons]
      simp only [String.append_assoc]

theorem joined_ne_empty (hne : lines ≠ []) (hlines : ∀ line ∈ lines, BridgeLine line) :
    "\n".intercalate lines ≠ "" := by
  intro hempty
  have hparse := parseBridges_intercalate hne hlines
  rw [hempty, show parseBridgesFromSettings "" = [""] from by decide] at hparse
  exact (hlines "" (hparse ▸ List.mem_singleton_self "")).ne_empty rfl

theorem trimmed_joined (hlines : ∀ line ∈ lines, BridgeLine line) :
    Trimmed ("\n".intercalate lines).toList := by
  rw [String.toList_intercalate]
  apply trimmed_intercalate
  intro part hpart
  obtain ⟨line, hline, rfl⟩ := List.mem_map.mp hpart
  exact ⟨by simpa using (hlines line hline).ne_empty, (hlines line hline).trimmed⟩

theorem recovers_setNewBridges (hne : lines ≠ []) (hlines : ∀ line ∈ lines, BridgeLine line)
    {bridges : String} (hbridges : trim bridges = "\n".intercalate lines) (prefs : Preferences) :
    Recovers farsi lines (CustomBridgesActivity.setNewBridges bridges prefs) := by
  have hempty := joined_ne_empty hne hlines
  constructor
  · simp [CustomBridgesActivity.setNewBridges, Prefs.bridgesEnabled, hbridges, hempty]
  · simpa [CustomBridgesActivity.setNewBridges, Prefs.getBridgesList, hbridges, hempty] using
      parseBridges_intercalate hne hlines

/-- The scheme ends at the sixth character. -/
theorem indexOf_scheme (text : String) : indexOf ("bridge://" ++ text) "://" = some 6 := by
  simp [indexOf, String.toList_append, List.findIdx?_cons]

theorem substring_scheme (text : String) : substring ("bridge://" ++ text) 9 = some text := by
  have hscheme : utf16Length "bridge://".toList = 9 := by decide
  rw [substring, String.toList_append, utf16Length_append, hscheme, if_pos (by omega),
    utf16Drop_append hscheme.le, hscheme, Nat.sub_self, utf16Drop_zero, String.ofList_toList]

theorem recovers_scanned (hne : lines ≠ []) (hlines : ∀ line ∈ lines, BridgeLine line)
    (hinverse : codecs.InverseOn other lines) (prefs : Preferences) :
    Recovers farsi lines (CustomBridgesActivity.onActivityResult codecs
      (sharedText codecs ("\n".intercalate lines)) prefs) := by
  have hresults : sharedText codecs ("\n".intercalate lines) ≠ "" := by
    simp [sharedText]
  have hfront : utf16Length ((sharedText codecs ("\n".intercalate lines)).toList.take 6) = 6 := by
    simp only [sharedText, String.toList_append]
    rfl
  have hcut : (codecs.decode (sharedText codecs ("\n".intercalate lines))).bind
      (substring · (6 + 3)) = some ("\n".intercalate lines) := by
    rw [hinverse.decode_sharedText, Option.bind_some]
    exact substring_scheme _
  have hindex : indexOf (sharedText codecs ("\n".intercalate lines)) "://" = some 6 :=
    indexOf_scheme _
  rw [CustomBridgesActivity.onActivityResult, if_neg hresults]
  simp only [hindex, hfront, hcut]
  exact recovers_setNewBridges hne hlines (trim_of_trimmed (trimmed_joined hlines)) prefs

theorem recovers_viewed (hne : lines ≠ []) (hlines : ∀ line ∈ lines, BridgeLine line)
    (hinverse : codecs.InverseOn other lines) (prefs : Preferences) :
    ∃ updated, OrbotMainActivity.handleView codecs
        (sharedText codecs ("\n".intercalate lines)) prefs = some updated ∧
      Recovers farsi lines updated := by
  let updated := OrbotMainActivity.setNewBridges ("\n".intercalate lines) prefs
  have hview : OrbotMainActivity.handleView codecs
      (sharedText codecs ("\n".intercalate lines)) prefs = some updated := by
    rw [OrbotMainActivity.handleView, if_pos (by simp [sharedText])]
    simp [sharedText, hinverse.decode_encode, updated]
  exact ⟨updated, hview, rfl, parseBridges_intercalate hne hlines⟩

/-- An array without `://` is read as an array. -/
theorem recovers_scannedArray (hne : lines ≠ []) (hlines : ∀ line ∈ lines, BridgeLine line)
    (hinverse : codecs.InverseOn other lines)
    (hscheme : contains (jsonArray other lines) "://" = false) (prefs : Preferences) :
    Recovers farsi lines
      (CustomBridgesActivity.onActivityResult codecs (jsonArray other lines) prefs) := by
  have hresults : jsonArray other lines ≠ "" := by
    simp [jsonArray]
  have hindex : indexOf (jsonArray other lines) "://" = none := by
    rw [← Option.not_isSome_iff_eq_none, isSome_indexOf, hscheme]
    exact Bool.false_ne_true
  have hread : trim (String.join (lines.map (· ++ "\n"))) = "\n".intercalate lines := by
    rw [join_lineFeeds hne]
    exact trim_append_lineFeed (joined_ne_empty hne hlines) (trimmed_joined hlines)
  rw [CustomBridgesActivity.onActivityResult, if_neg hresults]
  simp only [hindex, hinverse.readArray_jsonArray]
  exact recovers_setNewBridges hne hlines hread prefs

end RoundTrip

/-! ## Arrays that are cut -/

section CutArrays

variable {other : Char → List Char} {ending : List Char}

theorem not_le_space_of_isArrayEnding {c : Char} (hc : isArrayEnding c = true) : ¬ c ≤ ' ' := by
  have hcases : (c = '"' ∨ c = '\\') ∨ c = ']' := by simpa [isArrayEnding] using hc
  rcases hcases with (rfl | rfl) | rfl <;> decide

theorem isSingleLine_of_isArrayEnding (hall : ending.all isArrayEnding) : IsSingleLine ending := by
  intro c hc
  have hcases : (c = '"' ∨ c = '\\') ∨ c = ']' := by
    simpa [isArrayEnding] using List.all_eq_true.mp hall c hc
  rcases hcases with (rfl | rfl) | rfl <;> decide

theorem utf16Size_of_isArrayEnding (hall : ending.all isArrayEnding) :
    ∀ c ∈ ending, utf16Size c = 1 := by
  intro c hc
  have hcases : (c = '"' ∨ c = '\\') ∨ c = ']' := by
    simpa [isArrayEnding] using List.all_eq_true.mp hall c hc
  rcases hcases with (rfl | rfl) | rfl <;> rfl

theorem trimmed_of_isArrayEnding (hall : ending.all isArrayEnding) : Trimmed ending where
  first c hc := not_le_space_of_isArrayEnding (List.all_eq_true.mp hall c (List.mem_of_head? hc))
  last c hc := not_le_space_of_isArrayEnding (List.all_eq_true.mp hall c (List.mem_of_getLast? hc))

/-- Escaping makes such a text no shorter and adds nothing but backslashes. -/
theorem flatMap_escapeChar (hall : ending.all isArrayEnding) :
    (ending.flatMap (escapeChar other)).all isArrayEnding ∧
      ending.length ≤ (ending.flatMap (escapeChar other)).length := by
  induction ending with
  | nil => exact ⟨rfl, le_rfl⟩
  | cons c rest ih =>
    rw [List.all_cons, Bool.and_eq_true] at hall
    obtain ⟨hc, hrest⟩ := hall
    obtain ⟨hescaped, hlength⟩ := ih hrest
    have hcases : (c = '"' ∨ c = '\\') ∨ c = ']' := by simpa [isArrayEnding] using hc
    rw [List.flatMap_cons, List.all_append, List.length_append, hescaped, Bool.and_true,
      List.length_cons]
    have hchar : (escapeChar other c).all isArrayEnding ∧ 1 ≤ (escapeChar other c).length := by
      rcases hcases with hquoted | rfl
      · rw [escapeChar, if_pos hquoted]
        exact ⟨by rcases hquoted with rfl | rfl <;> rfl, by simp⟩
      · exact ⟨rfl, le_rfl⟩
    exact ⟨hchar.1, by omega⟩

/-- The array ends with the escaped ending of its last line, a quote and a bracket. -/
theorem isSuffix_jsonArray {lines : List String} (hne : lines ≠ [])
    (hending : ending <:+ (lines.getLast hne).toList) :
    ending.flatMap (escapeChar other) ++ ['"', ']'] <:+ (jsonArray other lines).toList := by
  obtain ⟨front, hfront⟩ := hending
  have hmap : lines.map (jsonString other) ≠ [] := by simpa using hne
  obtain ⟨before, hbefore⟩ := getLast_isSuffix_intercalate [','] hmap
  rw [List.getLast_map, jsonString, ← hfront, List.flatMap_append] at hbefore
  rw [jsonArray, String.toList_ofList, ← hbefore]
  exact ⟨'[' :: before ++ '"' :: front.flatMap (escapeChar other), by simp⟩

/-- Removing blank lines keeps an ending without blanks. -/
theorem isSuffix_removeBlankLines (hne : ending ≠ []) (hall : ending.all isArrayEnding)
    (pending : Option (List Char)) (front : List Char) :
    ending <:+ removeBlankLines pending (front ++ ending) := by
  have hsingle := isSingleLine_of_isArrayEnding hall
  induction front generalizing pending with
  | nil =>
    cases pending with
    | none =>
      have hkept := removeBlankLines_single hsingle []
      simp only [List.append_nil, removeBlankLines, Option.getD_none] at hkept
      rw [List.nil_append, hkept]
    | some blanks =>
      have hkept := removeBlankLines_line hne (trimmed_of_isArrayEnding hall) hsingle blanks []
      simp only [List.append_nil, removeBlankLines, Option.getD_none] at hkept
      rw [List.nil_append, hkept]
      exact List.suffix_append blanks ending
  | cons c rest ih =>
    have hlater (next : Option (List Char)) (before : List Char) :
        ending <:+ before ++ c :: removeBlankLines next (rest ++ ending) :=
      (ih next).trans ((List.suffix_cons c _).trans (List.suffix_append before _))
    cases pending with
    | none => exact hlater _ []
    | some blanks =>
      rw [List.cons_append, removeBlankLines]
      split
      · exact ih _
      · split
        · exact ih _
        · exact hlater _ blanks

/-- Such an ending of a stored list is an ending of its last line. -/
theorem isSuffix_parseBridges {bridgeList : String} (hne : ending ≠ [])
    (hall : ending.all isArrayEnding) (h : ending <:+ bridgeList.toList)
    (hlines : parseBridgesFromSettings bridgeList ≠ []) :
    ending <:+ ((parseBridgesFromSettings bridgeList).getLast hlines).toList := by
  have hlineFeed : '\n' ∉ ending := fun hmem ↦
    absurd (isSingleLine_of_isArrayEnding hall _ hmem) (by decide)
  obtain ⟨front, hfront⟩ := isSuffix_trim hne (trimmed_of_isArrayEnding hall) h
  obtain ⟨before, hbefore⟩ := isSuffix_removeBlankLines hne hall (some []) front
  have hself : (removeBlankLines (some []) (trim bridgeList).toList).rdropWhile (· = '\n') =
      removeBlankLines (some []) (trim bridgeList).toList := by
    rw [← hfront, ← hbefore, List.rdropWhile_eq_self_iff]
    intro htext
    rw [List.getLast_append_of_ne_nil _ hne]
    exact fun hsame ↦ hlineFeed (of_decide_eq_true hsame ▸ List.getLast_mem hne)
  have htext : removeBlankLines (some []) (trim bridgeList).toList ≠ [] := by
    rw [← hfront, ← hbefore]
    simp [hne]
  have hparse : parseBridgesFromSettings bridgeList =
      ((removeBlankLines (some []) (trim bridgeList).toList).splitOn '\n').map String.ofList := by
    rw [parseBridgesFromSettings, split_of_rdropWhile, String.toList_ofList, hself]
    rwa [String.toList_ofList, hself]
  simp only [hparse, List.getLast_map, String.toList_ofList]
  apply suffix_getLast_splitOn hlineFeed
  rw [← hfront, ← hbefore]
  exact List.suffix_append before ending

/-- An array of one line of quotes, backslashes and brackets has no colon. -/
theorem colon_not_mem_jsonArray {line : String} (hall : line.toList.all isArrayEnding) :
    ':' ∉ (jsonArray other [line]).toList := by
  have hescaped : (line.toList.flatMap (escapeChar other)).all isArrayEnding :=
    (flatMap_escapeChar hall).1
  intro hmem
  have hcolon : ':' ∈ line.toList.flatMap (escapeChar other) := by
    simpa [jsonArray, jsonString] using hmem
  exact absurd (List.all_eq_true.mp hescaped _ hcolon) (by decide)

end CutArrays

/-! ## The exact condition -/

section Exact

variable {codecs : TextCodecs} {other : Char → List Char} {farsi : Bool} {lines : List String}

/-- A list with the ending of the array as its own ending has other lines: in the last one the
ending would grow without a bound. -/
theorem parseBridges_ne_of_isSuffix (hne : lines ≠ []) {bridgeList : String}
    (hending : ∀ ending, ending <:+ (jsonArray other lines).toList → ending.all isArrayEnding →
      ending <:+ bridgeList.toList) :
    parseBridgesFromSettings bridgeList ≠ lines := by
  intro hparse
  have hstep (ending : List Char) (hall : ending.all isArrayEnding)
      (hline : ending <:+ (lines.getLast hne).toList) :
      (ending.flatMap (escapeChar other) ++ ['"', ']']).all isArrayEnding ∧
        ending.flatMap (escapeChar other) ++ ['"', ']'] <:+ (lines.getLast hne).toList := by
    have hgrown : (ending.flatMap (escapeChar other) ++ ['"', ']']).all isArrayEnding := by
      rw [List.all_append, (flatMap_escapeChar hall).1]
      rfl
    have hstored := hending _ (isSuffix_jsonArray hne hline) hgrown
    subst hparse
    exact ⟨hgrown, isSuffix_parseBridges (by simp) hgrown hstored hne⟩
  have hlong (n : ℕ) : ∃ ending : List Char, n ≤ ending.length ∧ ending.all isArrayEnding ∧
      ending <:+ (lines.getLast hne).toList := by
    induction n with
    | zero => exact ⟨[], by simp⟩
    | succ n ih =>
      obtain ⟨ending, hlength, hall, hline⟩ := ih
      have hmore : ending.length ≤ (ending.flatMap (escapeChar other)).length :=
        (flatMap_escapeChar hall).2
      have hgrown : n + 1 ≤ (ending.flatMap (escapeChar other) ++ ['"', ']']).length := by
        rw [List.length_append, List.length_cons, List.length_singleton]
        omega
      exact ⟨_, hgrown, hstep ending hall hline⟩
  obtain ⟨ending, hlength, -, hline⟩ := hlong ((lines.getLast hne).toList.length + 1)
  have hle := hline.length_le
  omega

/-- A list of quotes, backslashes and brackets is its only line. -/
theorem parseBridges_of_isArrayEnding {bridgeList : String} (hne : bridgeList ≠ "")
    (hall : bridgeList.toList.all isArrayEnding) :
    parseBridgesFromSettings bridgeList = [bridgeList] := by
  have hline : BridgeLine bridgeList :=
    ⟨trim_of_trimmed (trimmed_of_isArrayEnding hall), hne, isSingleLine_of_isArrayEnding hall⟩
  have hparse := parseBridges_intercalate (List.cons_ne_nil bridgeList []) (by simpa using hline)
  rwa [String.intercalate_singleton] at hparse

/-- Where only quotes, backslashes and brackets are stored there is one line, and its array has no
colon. -/
theorem parseBridges_ne_of_isArrayEnding {bridgeList : String} (hne : bridgeList ≠ "")
    (hall : bridgeList.toList.all isArrayEnding)
    (hscheme : contains (jsonArray other lines) "://" = true) :
    parseBridgesFromSettings bridgeList ≠ lines := by
  intro hparse
  have hsingle : lines = [bridgeList] :=
    hparse.symm.trans (parseBridges_of_isArrayEnding hne hall)
  have hcolon : ':' ∈ (jsonArray other lines).toList :=
    (contains_eq_true.mp hscheme).subset (by decide)
  rw [hsingle] at hcolon
  exact colon_not_mem_jsonArray hall hcolon

/-- What is cut out of the decoded array, if it is more than quotes, backslashes and brackets, has
the ending of the array as its own. -/
theorem isSuffix_trim_of_decode (hinverse : codecs.InverseOn other lines) {text bridges : String}
    {beginIndex : ℕ} (hdecode : codecs.decode (jsonArray other lines) = some text)
    (hcut : substring text beginIndex = some bridges) (hmore : ¬ bridges.toList.all isArrayEnding)
    {ending : List Char} (harray : ending <:+ (jsonArray other lines).toList)
    (hending : ending.all isArrayEnding) : ending <:+ (trim bridges).toList := by
  have htext := hinverse.decode_ending ending harray hending text hdecode
  have hlonger : ¬ bridges.toList <:+ ending := fun hshort ↦
    hmore (List.all_eq_true.mpr fun c hc ↦ List.all_eq_true.mp hending c (hshort.subset hc))
  have hbridges : ending <:+ bridges.toList :=
    (suffix_or_suffix_of_substring hcut htext (utf16Size_of_isArrayEnding hending)).resolve_right
      hlonger
  by_cases hnil : ending = []
  · exact hnil ▸ List.nil_suffix
  · exact isSuffix_trim hnil (trimmed_of_isArrayEnding hending) hbridges

/-- No text cut out of the decoded array holds the lines. -/
theorem parseBridges_trim_ne (hne : lines ≠ []) (hinverse : codecs.InverseOn other lines)
    (hscheme : contains (jsonArray other lines) "://" = true) {text bridges : String}
    {beginIndex : ℕ} (hdecode : codecs.decode (jsonArray other lines) = some text)
    (hcut : substring text beginIndex = some bridges) (htrim : trim bridges ≠ "") :
    parseBridgesFromSettings (trim bridges) ≠ lines := by
  by_cases hall : bridges.toList.all isArrayEnding
  · have hself : trim bridges = bridges := trim_of_trimmed (trimmed_of_isArrayEnding hall)
    rw [hself] at htrim ⊢
    exact parseBridges_ne_of_isArrayEnding htrim hall hscheme
  · apply parseBridges_ne_of_isSuffix hne
    intro ending harray hending
    exact isSuffix_trim_of_decode hinverse hdecode hcut hall harray hending

/-- An array with `://` in it is stored from there on. -/
theorem not_recovers_scannedArray (hne : lines ≠ []) (hinverse : codecs.InverseOn other lines)
    (hscheme : contains (jsonArray other lines) "://" = true) :
    ¬ ∀ prefs, Recovers farsi lines
      (CustomBridgesActivity.onActivityResult codecs (jsonArray other lines) prefs) := by
  intro hrecovers
  have hdisabled := hrecovers { bridgesEnabled := some false }
  have hresults : jsonArray other lines ≠ "" := by
    simp [jsonArray]
  obtain ⟨urlIdx, hindex⟩ := Option.isSome_iff_exists.mp
    ((isSome_indexOf (jsonArray other lines) "://").trans hscheme)
  rw [CustomBridgesActivity.onActivityResult, if_neg hresults] at hdisabled
  simp only [hindex] at hdisabled
  cases hcut : (codecs.decode (jsonArray other lines)).bind
      (substring · (utf16Length ((jsonArray other lines).toList.take urlIdx) + 3)) with
  | none =>
    rw [hcut] at hdisabled
    exact absurd hdisabled.enabled (by simp [Prefs.bridgesEnabled])
  | some bridges =>
    rw [hcut] at hdisabled
    have htrim : trim bridges ≠ "" := by
      simpa [CustomBridgesActivity.setNewBridges, Prefs.bridgesEnabled] using hdisabled.enabled
    have hparse : parseBridgesFromSettings (trim bridges) = lines := by
      simpa [CustomBridgesActivity.setNewBridges, Prefs.getBridgesList, htrim] using
        hdisabled.stored
    obtain ⟨text, hdecode, hsubstring⟩ := Option.bind_eq_some_iff.mp hcut
    exact parseBridges_trim_ne hne hinverse hscheme hdecode hsubstring htrim hparse

/-- Shared bridge lines come back all three ways, if and only if their JSON array has no `://` in
it; the `bridge://` text always comes back. -/
theorem roundTrips_iff (codecs : TextCodecs) (other : Char → List Char) (farsi : Bool)
    (lines : List String) (hne : lines ≠ []) (hlines : ∀ line ∈ lines, BridgeLine line)
    (hinverse : codecs.InverseOn other lines) :
    RoundTrips codecs other farsi lines ↔
      contains (jsonArray other lines) "://" = false := by
  constructor
  · intro hround
    rw [← Bool.not_eq_true]
    exact fun hscheme ↦ not_recovers_scannedArray hne hinverse hscheme hround.scannedArray
  · intro hscheme
    exact
      { scanned := recovers_scanned hne hlines hinverse
        viewed := recovers_viewed hne hlines hinverse
        scannedArray := recovers_scannedArray hne hlines hinverse hscheme }

end Exact

/-! ## ASCII texts -/

def hexDigit (n : ℕ) : Char := (Nat.digitChar n).toUpper

/-- `URLEncoder` for ASCII texts. -/
def urlEncode (text : String) : String :=
  String.ofList (text.toList.flatMap fun c ↦
    if c.isAlphanum ∨ c ∈ ['.', '-', '*', '_'] then [c]
    else if c = ' ' then ['+']
    else ['%', hexDigit (c.toNat / 16), hexDigit (c.toNat % 16)])

def hexValue (c : Char) : Option ℕ := (List.range 16).find? fun n ↦ hexDigit n = c.toUpper

/-- `URLDecoder` for ASCII texts. -/
def urlDecodeChars : List Char → Option (List Char)
  | [] => some []
  | '%' :: high :: low :: rest =>
      (hexValue high).bind fun h ↦ (hexValue low).bind fun l ↦
        (urlDecodeChars rest).map (Char.ofNat (16 * h + l) :: ·)
  | '%' :: _ => none
  | c :: rest => (urlDecodeChars rest).map ((if c = '+' then ' ' else c) :: ·)

/-- The strings of an array without blanks between them; the first argument holds the string that
is being read. -/
def readStrings : Option (List Char) → List Char → Option (List String)
  | none, [']'] => some []
  | none, ',' :: rest => readStrings none rest
  | none, '"' :: rest => readStrings (some []) rest
  | some current, '\\' :: c :: rest => readStrings (some (current ++ [c])) rest
  | some current, '"' :: rest => (readStrings none rest).map (String.ofList current :: ·)
  | some current, c :: rest => readStrings (some (current ++ [c])) rest
  | _, _ => none

def asciiCodecs : TextCodecs where
  encode := urlEncode
  decode text := (urlDecodeChars text.toList).map String.ofList
  readArray text :=
    match text.toList with
    | '[' :: rest => readStrings none rest
    | _ => none

/-- A line with a fingerprint in Base64, and one without a transport. -/
def twoLines : List String := ["obfs4 192.0.2.1:443 cert=a+b", "192.0.2.2:9001"]

theorem inverseOn_twoLines : asciiCodecs.InverseOn List.singleton twoLines where
  decode_encode := by decide
  decode_sharedText := by decide
  readArray_jsonArray := by decide
  decode_ending := by
    have hendings : ∀ ending ∈ (jsonArray List.singleton twoLines).toList.tails,
        ending.all isArrayEnding → ∀ text ∈ asciiCodecs.decode (jsonArray List.singleton twoLines),
          ending <:+ text.toList := by
      decide
    exact fun ending hsuffix ↦ hendings ending ((List.mem_tails ending _).mpr hsuffix)

theorem roundTrips_twoLines : RoundTrips asciiCodecs List.singleton false twoLines := by
  have hlines : ∀ line ∈ twoLines, BridgeLine line := by
    intro line hline
    have hcases : line = "obfs4 192.0.2.1:443 cert=a+b" ∨ line = "192.0.2.2:9001" := by
      simpa [twoLines] using hline
    rcases hcases with rfl | rfl
    · exact ⟨by decide, by decide, by decide⟩
    · exact ⟨by decide, by decide, by decide⟩
  exact (roundTrips_iff asciiCodecs List.singleton false twoLines (by decide) hlines
    inverseOn_twoLines).mpr (by decide)

/-- A line with the URL of a front. -/
def meekLine : String := "meek_lite 192.0.2.3:80 url=https://meek.example/"

/-- The JSON array of a line with a URL leaves the rest of that URL as the bridge list. -/
theorem meekLine_cut :
    BridgeLine meekLine ∧
      asciiCodecs.readArray (jsonArray List.singleton [meekLine]) = some [meekLine] ∧
      parseBridgesFromSettings (Prefs.getBridgesList false
          (CustomBridgesActivity.onActivityResult asciiCodecs
            (jsonArray List.singleton [meekLine]) {})) = ["meek.example/\"]"] ∧
      ¬ RoundTrips asciiCodecs List.singleton false [meekLine] := by
  have hstored : parseBridgesFromSettings (Prefs.getBridgesList false
      (CustomBridgesActivity.onActivityResult asciiCodecs
        (jsonArray List.singleton [meekLine]) {})) = ["meek.example/\"]"] := by
    decide
  refine ⟨⟨by decide, by decide, by decide⟩, by decide, hstored, fun hround ↦ ?_⟩
  have hlines := hstored.symm.trans (hround.scannedArray {}).stored
  exact absurd hlines (by decide)

end Orbot.Onboarding
