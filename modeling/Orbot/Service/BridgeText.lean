import Orbot.Foundation.TextParts
import Orbot.Service.BridgeTransports

/-!
# The lines of a custom bridge list

A list of custom bridges is a text with a bridge on each line, between which blank lines may stand.
`parseBridgesFromSettings` takes out the blank lines, and one of the others becomes the bridge line
of the torrc. A list without a line that is not blank is read as one empty line.
-/

namespace Orbot.Service

open Orbot.Foundation Orbot.OnionService

/-! ## Texts with lines -/

/-- A printable ASCII character or a tab. -/
def isTextChar (c : Char) : Bool := c = '\t' || (' ' ≤ c && c ≤ '~')

/-- Texts whose lines end with a line feed, or with a carriage return before it. -/
structure BridgeText (text : List Char) : Prop where
  chars : ∀ c ∈ text, c = '\n' ∨ c = '\r' ∨ isTextChar c = true
  lineEnds : ∀ before after, text = before ++ '\r' :: after → after.head? = some '\n'

/-- The line has a character that is not blank. -/
def isVisible (line : List Char) : Bool := line.any fun c ↦ ' ' < c

/-- A line without the carriage return at its end. -/
def withoutCr (line : List Char) : List Char :=
  if line.getLast? = some '\r' then line.dropLast else line

/-- The lines of a text that are not blank. -/
def visibleLines (text : List Char) : List (List Char) :=
  ((text.splitOn '\n').map withoutCr).filter isVisible

theorem isVisible_withoutCr (line : List Char) : isVisible (withoutCr line) = isVisible line := by
  unfold withoutCr
  split
  · next hlast =>
    obtain ⟨before, rfl⟩ : ∃ before, line = before ++ ['\r'] := by
      obtain ⟨hne, hcr⟩ := List.mem_getLast?_eq_getLast hlast
      exact ⟨line.dropLast, by rw [hcr, List.dropLast_append_getLast hne]⟩
    simp [isVisible]
  · rfl

theorem visibleLines_eq_map (text : List Char) :
    visibleLines text = ((text.splitOn '\n').filter isVisible).map withoutCr := by
  rw [visibleLines, List.filter_map]
  congr 2
  funext line
  exact isVisible_withoutCr line

section Lines

variable {text line rest : List Char}

theorem isLineTerminator_of_isTextChar {c : Char} (h : isTextChar c = true) :
    isLineTerminator c = false := by
  cases hc : isLineTerminator c with
  | false => rfl
  | true =>
    have hmem := of_decide_eq_true hc
    simp only [List.mem_cons, List.not_mem_nil, or_false] at hmem
    rcases hmem with rfl | rfl | rfl | rfl | rfl <;> exact absurd h (by decide)

/-- The blank characters of a line are spaces and tabs. -/
theorem blank_iff_of_isTextChar {c : Char} (h : isTextChar c = true) :
    (c = ' ' ∨ c = '\t') ↔ ¬ ' ' < c := by
  constructor
  · rintro (rfl | rfl) <;> decide
  · intro hle
    simp only [isTextChar, Bool.or_eq_true, decide_eq_true_eq, Bool.and_eq_true] at h
    rcases h with rfl | ⟨hspace, -⟩
    · exact .inr rfl
    · exact .inl (Char.le_antisymm (Char.not_lt.mp hle) hspace)

theorem BridgeText.suffix (h : BridgeText text) (hsuffix : rest <:+ text) : BridgeText rest := by
  obtain ⟨front, rfl⟩ := hsuffix
  constructor
  · exact fun c hc ↦ h.chars c (List.mem_append_right front hc)
  · rintro before after rfl
    exact h.lineEnds (front ++ before) after (by simp)

theorem BridgeText.of_append (h : BridgeText (text ++ rest)) (hlast : text.getLast? ≠ some '\r') :
    BridgeText text := by
  constructor
  · exact fun c hc ↦ h.chars c (List.mem_append_left rest hc)
  · rintro before after rfl
    have hhead := h.lineEnds before (after ++ rest) (by simp)
    cases after with
    | nil => simp at hlast
    | cons c after => simpa using hhead

/-- A text is one line without an end, or a first line with its end before a rest. -/
theorem BridgeText.cases_line (h : BridgeText text) :
    (∀ c ∈ text, isTextChar c = true) ∨
      ∃ line cr rest, text = line ++ cr ++ '\n' :: rest ∧ (∀ c ∈ line, isTextChar c = true) ∧
        (cr = [] ∨ cr = ['\r']) ∧ BridgeText rest := by
  by_cases hmem : '\n' ∈ text
  · obtain ⟨first, rest, rfl, hfirst⟩ := List.eq_append_cons_of_mem hmem
    have hrest : BridgeText rest := h.suffix ((List.suffix_cons '\n' rest).trans ⟨first, rfl⟩)
    have htext (line : List Char) (hsub : line ⊆ first) (hcr : '\r' ∉ line) :
        ∀ c ∈ line, isTextChar c = true := by
      intro c hc
      have hfirstMem := hsub hc
      rcases h.chars c (List.mem_append_left _ hfirstMem) with rfl | rfl | htext
      · exact absurd hfirstMem hfirst
      · exact absurd hc hcr
      · exact htext
    refine .inr ?_
    by_cases hcr : '\r' ∈ first
    · obtain ⟨line, after, rfl, hline⟩ := List.eq_append_cons_of_mem hcr
      have hhead := h.lineEnds line (after ++ '\n' :: rest) (by simp)
      cases after with
      | nil =>
        have hchars := htext line (List.subset_append_left _ _) hline
        exact ⟨line, ['\r'], rest, rfl, hchars, .inr rfl, hrest⟩
      | cons c after =>
        have hc : c = '\n' := by simpa using hhead
        exact absurd (by simp [hc]) hfirst
    · exact ⟨first, [], rest, by simp, htext first (List.Subset.refl _) hcr, .inl rfl, hrest⟩
  · refine .inl fun c hc ↦ ?_
    rcases h.chars c hc with rfl | rfl | htext
    · exact absurd hc hmem
    · obtain ⟨before, after, rfl⟩ := List.append_of_mem hc
      have hhead := h.lineEnds before after rfl
      exact absurd (List.mem_append_right _ (List.mem_cons_of_mem _ (List.mem_of_head? hhead))) hmem
    · exact htext

/-! ## Taking out blank lines -/

/-- From its first visible character on a line is kept. -/
theorem removeBlankLines_visible {c : Char} (hline : ∀ d ∈ c :: line, isTextChar d = true)
    (hvisible : ' ' < c) (blanks rest : List Char) :
    removeBlankLines (some blanks) (c :: (line ++ rest)) =
      blanks ++ c :: (line ++ removeBlankLines none rest) := by
  have hc := hline c List.mem_cons_self
  have hends : ¬ (c = '\n' ∨ startsCrLf c (line ++ rest) = true) := by
    rintro (rfl | hcrlf)
    · exact absurd hc (by decide)
    · have hcr : c = '\r' := by simp_all [startsCrLf]
      exact absurd hc (hcr ▸ by decide)
  have hkept := removeBlankLines_single
    (fun d hd ↦ isLineTerminator_of_isTextChar (hline d (List.mem_cons_of_mem c hd))) rest
  rw [removeBlankLines, if_neg ((blank_iff_of_isTextChar hc).not.mpr (not_not.mpr hvisible)),
    if_neg hends, isLineTerminator_of_isTextChar hc, if_neg Bool.false_ne_true, hkept]

/-- A line with its end is taken out, or kept with what was read of it. -/
theorem removeBlankLines_ended {cr : List Char} (hline : ∀ c ∈ line, isTextChar c = true)
    (hcr : cr = [] ∨ cr = ['\r']) (blanks rest : List Char) :
    removeBlankLines (some blanks) (line ++ cr ++ '\n' :: rest) =
      if isVisible line then blanks ++ line ++ cr ++ '\n' :: removeBlankLines (some []) rest
      else removeBlankLines (some []) rest := by
  induction line generalizing blanks with
  | nil => rcases hcr with rfl | rfl <;> rfl
  | cons c line ih =>
    by_cases hvisible : ' ' < c
    · have hend : removeBlankLines none (cr ++ '\n' :: rest) =
          cr ++ '\n' :: removeBlankLines (some []) rest := by
        rcases hcr with rfl | rfl <;> rfl
      have hkept := removeBlankLines_visible hline hvisible blanks (cr ++ '\n' :: rest)
      rw [hend] at hkept
      simpa [isVisible, hvisible] using hkept
    · have hblank := (blank_iff_of_isTextChar (hline c List.mem_cons_self)).mpr hvisible
      have hrest := ih (fun d hd ↦ hline d (List.mem_cons_of_mem c hd)) (blanks ++ [c])
      rw [List.cons_append, List.cons_append, removeBlankLines, if_pos hblank, hrest]
      simp [isVisible, hvisible]

/-- A last line without a line feed is kept. -/
theorem removeBlankLines_last (hline : ∀ c ∈ line, isTextChar c = true) (blanks : List Char) :
    removeBlankLines (some blanks) line = blanks ++ line := by
  induction line generalizing blanks with
  | nil => simp [removeBlankLines]
  | cons c line ih =>
    by_cases hvisible : ' ' < c
    · have hkept := removeBlankLines_visible hline hvisible blanks []
      simpa [removeBlankLines] using hkept
    · have hblank := (blank_iff_of_isTextChar (hline c List.mem_cons_self)).mpr hvisible
      rw [removeBlankLines, if_pos hblank, ih fun d hd ↦ hline d (List.mem_cons_of_mem c hd)]
      simp

/-- The lines that are kept stand as they are, with line feeds between them. -/
theorem removeBlankLines_eq_intercalate {text : List Char} (h : BridgeText text)
    (hlast : isVisible ((text.splitOn '\n').getLast (List.splitOn_ne_nil '\n' text)) = true) :
    removeBlankLines (some []) text =
      ['\n'].intercalate ((text.splitOn '\n').filter isVisible) := by
  rcases h.cases_line with hline | ⟨line, cr, rest, rfl, hline, hcr, hrest⟩
  · have hmem : '\n' ∉ text := fun hmem ↦ absurd (hline _ hmem) (by decide)
    simp only [List.splitOn_eq_singleton hmem, List.getLast_singleton] at hlast ⊢
    rw [removeBlankLines_last hline, List.filter_cons_of_pos hlast]
    simp
  · have hmem : '\n' ∉ line ++ cr := by
      rw [List.mem_append]
      rintro (hmem | hmem)
      · exact absurd (hline _ hmem) (by decide)
      · rcases hcr with rfl | rfl <;> simp at hmem
    have hsplit := List.splitOn_append_cons_self_of_not_mem hmem rest
    have hvisible : isVisible (line ++ cr) = isVisible line := by
      rcases hcr with rfl | rfl <;> simp [isVisible]
    simp only [hsplit, List.getLast_cons (List.splitOn_ne_nil '\n' rest)] at hlast ⊢
    have hkept := removeBlankLines_eq_intercalate hrest hlast
    rw [removeBlankLines_ended hline hcr, hkept, ← hvisible]
    by_cases hline' : isVisible (line ++ cr) = true
    · obtain ⟨second, more, hmore⟩ : ∃ second more,
          (rest.splitOn '\n').filter isVisible = second :: more :=
        List.exists_cons_of_ne_nil
          (List.ne_nil_of_mem (List.mem_filter.mpr ⟨List.getLast_mem _, hlast⟩))
      rw [if_pos hline', List.filter_cons_of_pos hline', hmore, List.intercalate_cons_cons]
      simp
    · rw [if_neg hline', List.filter_cons_of_neg hline']
termination_by text.length

end Lines

/-! ## Reading a list -/

theorem bridgeText_trim {text : String} (h : BridgeText text.toList) :
    BridgeText (trim text).toList := by
  have hdropped : BridgeText (text.toList.dropWhile (· ≤ ' ')) := h.suffix (List.dropWhile_suffix _)
  have hprefix : (trim text).toList <+: text.toList.dropWhile (· ≤ ' ') := by
    rw [trim, String.toList_ofList]
    exact List.rdropWhile_prefix _ _
  obtain ⟨rest, hrest⟩ := hprefix
  apply BridgeText.of_append (hrest ▸ hdropped)
  intro hlast
  exact (trimmed_toList_trim text).last '\r' hlast (by decide)

/-- The last line of a trimmed text is not blank. -/
theorem isVisible_last {text : List Char} (htrimmed : Trimmed text) (hne : text ≠ []) :
    isVisible ((text.splitOn '\n').getLast (List.splitOn_ne_nil '\n' text)) = true := by
  have hlast : ¬ text.getLast hne ≤ ' ' :=
    htrimmed.last _ (List.getLast?_eq_some_getLast hne)
  have hending : [text.getLast hne] <:+ text := ⟨text.dropLast, List.dropLast_append_getLast hne⟩
  have hmem : '\n' ∉ [text.getLast hne] := by
    rw [List.mem_singleton]
    intro hlineFeed
    exact hlast (hlineFeed ▸ by decide)
  have hsuffix := suffix_getLast_splitOn hmem hending
  exact List.any_eq_true.mpr ⟨_, hsuffix.subset (List.mem_singleton_self _),
    decide_eq_true (Char.not_le.mp hlast)⟩

theorem parseBridges_of_trim {text : String} (h : BridgeText text.toList) (hne : trim text ≠ "") :
    parseBridgesFromSettings text =
      (((trim text).toList.splitOn '\n').filter isVisible).map String.ofList := by
  have hlist : (trim text).toList ≠ [] := fun hnil ↦ hne (String.toList_inj.mp hnil)
  have hlast := isVisible_last (trimmed_toList_trim text) hlist
  have hparts : ((trim text).toList.splitOn '\n').filter isVisible ≠ [] :=
    List.ne_nil_of_mem (List.mem_filter.mpr ⟨List.getLast_mem _, hlast⟩)
  have hjoined : ∀ line ∈ (((trim text).toList.splitOn '\n').filter isVisible).map String.ofList,
      line ≠ "" ∧ '\n' ∉ line.toList := by
    rw [List.forall_mem_map]
    intro line hline
    obtain ⟨hpart, hvisible⟩ := List.mem_filter.mp hline
    rw [String.toList_ofList]
    refine ⟨fun hempty ↦ ?_, (infix_of_mem_splitOn hpart).2⟩
    rw [show line = [] by simpa using congrArg String.toList hempty] at hvisible
    exact absurd hvisible (by decide)
  have hsplit := split_intercalate (by simpa using hparts) hjoined
  rw [parseBridgesFromSettings, removeBlankLines_eq_intercalate (bridgeText_trim h) hlast]
  simpa [Function.comp_def] using hsplit

/-- The lines that are read are those that are not blank. -/
def ReadsLines (text : String) : Prop :=
  (parseBridgesFromSettings text).map (fun line ↦ withoutCr line.toList) =
    visibleLines (trim text).toList

/-- A blank list is read as one empty line. -/
theorem readsLines_iff {text : String} (h : BridgeText text.toList) :
    ReadsLines text ↔ trim text ≠ "" := by
  rw [ReadsLines]
  constructor
  · intro hlines hblank
    rw [parseBridgesFromSettings, hblank] at hlines
    exact absurd hlines (by decide)
  · intro hne
    rw [parseBridges_of_trim h hne, visibleLines_eq_map, List.map_map]
    simp [Function.comp_def]

/-! ## The bridge line of the torrc -/

/-- The lines with the keyword `Bridge`. -/
def bridgeDirectives (lines : List Directive) : List Directive :=
  lines.filter fun line ↦ line.StartsWith "Bridge "

/-- The preferences enable the bridges of a custom list. -/
structure CustomMode (device : Device) (prefs : Preferences) (bridgeList : String) : Prop where
  enabled : Prefs.bridgesEnabled device.farsi prefs = true
  stored : Prefs.getBridgesList device.farsi prefs = bridgeList
  custom : builtInBridgeType bridgeList = none

/-- One bridge line with a line of the text is written, and none when all lines are blank. -/
def WritesOneLine (device : Device) (random : RandomChoice) (prefs : Preferences) (tables : Tables)
    (text : String) : Prop :=
  ∃ lines tables', processSettingsImpl device random prefs tables = some (lines, tables') ∧
    if visibleLines (trim text).toList = [] then bridgeDirectives lines = []
    else ∃ line : String, withoutCr line.toList ∈ visibleLines (trim text).toList ∧
      bridgeDirectives lines = [customBridge line]

theorem bridgeDirectives_eq_nil {lines : List Directive}
    (h : ∀ line ∈ lines, bridgeTransport line = none) : bridgeDirectives lines = [] := by
  rw [bridgeDirectives, List.filter_eq_nil_iff]
  intro line hline hbridge
  have hnone := h line hline
  rw [bridgeTransport, if_pos (of_decide_eq_true hbridge)] at hnone
  cases hnone

section Written

variable {device : Device} {random : RandomChoice} {prefs : Preferences} {tables : Tables}
  {text : String}

/-- In custom mode the line that is drawn is the only bridge line. -/
theorem bridgeDirectives_custom (random : RandomChoice) (tables : Tables)
    (h : CustomMode device prefs text) :
    ∃ line lines tables', chosenBridgeLine random.bridge text = some line ∧
      processSettingsImpl device random prefs tables = some (lines, tables') ∧
      bridgeDirectives lines = [customBridge line] := by
  obtain ⟨line, hline⟩ := exists_chosenBridgeLine random.bridge text
  refine ⟨line, _, _, hline, processSettingsImpl_of_bridges h.enabled random tables, ?_⟩
  have hplugins : bridgeDirectives (pluginLines device.iptProxy text) = [] :=
    bridgeDirectives_eq_nil fun _ ↦ bridgeTransport_of_mem_pluginLines
  have hlocal : bridgeDirectives (localSettings device random prefs tables []).1 = [] :=
    bridgeDirectives_eq_nil fun _ hother ↦
      (hasLocalHead_localSettings hother).bridgeTransport_eq_none
  have hswitch : bridgeDirectives [[.fixed "UseBridges 1"]] = [] := by decide
  have hbridge : bridgeDirectives [customBridge line] = [customBridge line] :=
    List.filter_cons_of_pos (decide_eq_true (startsWith_customBridge line))
  have happend (first second : List Directive) :
      bridgeDirectives (first ++ second) = bridgeDirectives first ++ bridgeDirectives second :=
    List.filter_append first second
  rw [h.stored, bridgeSettings, bridgeLines, h.custom, hline, ← List.singleton_append, happend,
    happend, happend, hswitch, hplugins, hlocal]
  simpa using hbridge

theorem writesOneLine_iff (htext : BridgeText text.toList) (h : CustomMode device prefs text) :
    WritesOneLine device random prefs tables text ↔ trim text ≠ "" := by
  obtain ⟨line, lines, tables', hline, hlines, hbridges⟩ :=
    bridgeDirectives_custom random tables h
  constructor
  · intro hone hblank
    have hnone : visibleLines (trim text).toList = [] := by
      rw [hblank]
      decide
    simp only [WritesOneLine, if_pos hnone] at hone
    obtain ⟨lines', tables'', hlines', hwritten⟩ := hone
    rw [hlines, Option.some_inj, Prod.mk.injEq] at hlines'
    rw [← hlines'.1, hbridges] at hwritten
    cases hwritten
  · intro hne
    have hread := (readsLines_iff htext).mpr hne
    have hmem : withoutCr line.toList ∈ visibleLines (trim text).toList := by
      rw [← hread]
      exact List.mem_map_of_mem (mem_parseBridges_of_chosen hline)
    refine ⟨lines, tables', hlines, ?_⟩
    rw [if_neg (List.ne_nil_of_mem hmem)]
    exact ⟨line, hmem, hbridges⟩

end Written

/-- The list is read line by line, and in custom mode one of its lines is written. -/
def ReadFaithfully (text : String) : Prop :=
  ReadsLines text ∧ ∀ device random prefs tables, CustomMode device prefs text →
    WritesOneLine device random prefs tables text

/-- A custom list is read faithfully exactly when it is not blank. -/
theorem readFaithfully_iff {text : String} (htext : BridgeText text.toList) :
    ReadFaithfully text ↔ trim text ≠ "" := by
  constructor
  · intro h
    exact (readsLines_iff htext).mp h.1
  · intro hne
    refine ⟨(readsLines_iff htext).mpr hne, fun device random prefs tables hcustom ↦ ?_⟩
    exact (writesOneLine_iff htext hcustom).mpr hne

theorem bridgeText_of_chars {text : List Char}
    (h : text.all (fun c ↦ c = '\n' || isTextChar c) = true) : BridgeText text := by
  rw [List.all_eq_true] at h
  constructor
  · intro c hc
    have hchar : c = '\n' ∨ isTextChar c = true := by simpa using h c hc
    exact hchar.imp_right .inr
  · rintro before after rfl
    have hcr := h '\r' (by simp)
    exact absurd hcr (by decide)

theorem readFaithfully_blankLines :
    ReadFaithfully " obfs4 192.0.2.1:443\n \t\n\nobfs4 192.0.2.2:443\n" :=
  (readFaithfully_iff (bridgeText_of_chars (by decide))).mpr (by decide)

/-- The preferences that are left when the custom text of the wizard is empty and bridges are
enabled. -/
def blankCustom : Preferences := { bridgesEnabled := some true, bridgesList := some "" }

/-- An empty list gives a bridge line without a bridge. -/
theorem blankCustom_written :
    BridgeText "".toList ∧ parseBridgesFromSettings "" = [""] ∧ visibleLines (trim "").toList = [] ∧
      CustomMode plainDevice blankCustom "" ∧
      ¬ WritesOneLine plainDevice firstChoice blankCustom noTables "" := by
  have htext : BridgeText "".toList := bridgeText_of_chars (by decide)
  have hcustom : CustomMode plainDevice blankCustom "" := ⟨rfl, rfl, by decide⟩
  refine ⟨htext, by decide, by decide, hcustom, fun h ↦ ?_⟩
  exact (writesOneLine_iff htext hcustom).mp h (by decide)

end Orbot.Service
