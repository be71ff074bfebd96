import Orbot.Foundation.UrlDecoder
import Orbot.Onboarding.BridgeSharing

/-!
# Importing bridges

A link that is opened and a code that is scanned may be any text. `handleIntents` decodes what
follows the `bridge://` of a link, lets the exception of the decoder through and enables bridges
even for a blank list. `onActivityResult` decodes a code as a whole before it cuts at the position
that `://` had in the code, so it cuts too much where decoding has shortened the text before it; an
array of bridges is cut in the same way if there is a URL in it.
-/

namespace Orbot.Onboarding

open Orbot.Foundation Orbot.Service

/-! ## Safe imports -/

/-- What an import of the payload does to the preferences; the payload is none when there is
nothing to import. -/
def ImportedAs (payload : Option String) (prefs updated : Preferences) : Prop :=
  updated = prefs ∨
    (∃ text ∈ payload, trim text ≠ "" ∧ updated.bridgesEnabled = some true ∧
      ∃ list ∈ updated.bridgesList, trim list = trim text) ∨
    ∃ text ∈ payload, trim text = "" ∧ updated.bridgesEnabled = some false

def BlankEnabled (farsi : Bool) (prefs : Preferences) : Prop :=
  Prefs.bridgesEnabled farsi prefs = true ∧ trim (Prefs.getBridgesList farsi prefs) = ""

/-- An import, with none for an exception, is total and safe. -/
def SafeImport (farsi : Bool) (payload : Option String)
    (update : Preferences → Option Preferences) : Prop :=
  ∀ prefs, ∃ updated, update prefs = some updated ∧ ImportedAs payload prefs updated ∧
    (BlankEnabled farsi updated → BlankEnabled farsi prefs)

section Imports

variable (charset : Charset) (codecs : TextCodecs) (farsi : Bool)

/-- The codecs with `URLDecoder` itself. -/
def TextCodecs.withUrlDecoder : TextCodecs := { codecs with decode := urlDecode charset }

/-- What a link carries. -/
def viewedPayload (urlString : String) : Option String :=
  urlDecode charset (String.ofList (urlString.toList.drop 9))

/-- The lines of an array of bridges as one text. -/
def arrayText (bridgeJson : List String) : String := String.join (bridgeJson.map (· ++ "\n"))

/-- What a code carries that is a link of some scheme. -/
def linkPayload (results : String) : Option String :=
  (indexOf results "://").bind fun urlIdx ↦
    urlDecode charset (String.ofList (results.toList.drop (urlIdx + 3)))

/-- What a scanned code carries: the lines of an array of texts, also of one with a URL in it, or
else what follows the scheme of a link. -/
def scannedPayload (results : String) : Option String :=
  match codecs.readArray results with
  | some bridgeJson => some (arrayText bridgeJson)
  | none => linkPayload charset results

/-- The import from the data of an `ACTION_VIEW` intent is safe. -/
def SafeView (urlString : String) : Prop :=
  SafeImport farsi (viewedPayload charset urlString)
    (OrbotMainActivity.handleView (codecs.withUrlDecoder charset) urlString)

/-- The import from a scanned code is safe. -/
def SafeScan (results : String) : Prop :=
  SafeImport farsi (scannedPayload charset codecs results) fun prefs ↦
    some (CustomBridgesActivity.onActivityResult (codecs.withUrlDecoder charset) results prefs)

/-- The text is no `bridge://` link, or it carries a text that is not blank. -/
def CarriesBridges (urlString : String) : Prop :=
  (urlString.toList.take 9).map Char.toLower = "bridge://".toList →
    ∃ text ∈ viewedPayload charset urlString, trim text ≠ ""

/-- A text after `://` holds the payload also without its first `char`s: of a link these are blank,
and of an array the lines are left. -/
def CutsPayload (results text : String) (count : ℕ) : Prop :=
  match codecs.readArray results with
  | some bridgeJson =>
      trim (String.ofList (utf16Drop count text.toList)) = trim (arrayText bridgeJson)
  | none => ∀ c ∈ text.toList.take count, c ≤ ' '

/-- If the texts before and after the first `://` can be decoded, then decoding takes more from the
one before it than there is after it, or that much of the text after it can be left out. -/
def KeepsPayload (results : String) : Prop :=
  ∀ urlIdx scheme text, indexOf results "://" = some urlIdx →
    urlDecode charset (String.ofList (results.toList.take urlIdx)) = some scheme →
    urlDecode charset (String.ofList (results.toList.drop (urlIdx + 3))) = some text →
    utf16Length text.toList < utf16Length (results.toList.take urlIdx) - utf16Length scheme.toList ∨
      CutsPayload codecs results text
        (utf16Length (results.toList.take urlIdx) - utf16Length scheme.toList)

end Imports

section Exact

variable {charset : Charset} {codecs : TextCodecs} {farsi : Bool}

/-! ## Links -/

theorem handleView_of_link {urlString : String}
    (hlink : (urlString.toList.take 9).map Char.toLower = "bridge://".toList)
    (prefs : Preferences) :
    OrbotMainActivity.handleView (codecs.withUrlDecoder charset) urlString prefs =
      (viewedPayload charset urlString).map (OrbotMainActivity.setNewBridges · prefs) := by
  rw [OrbotMainActivity.handleView, if_pos hlink, viewedPayload, TextCodecs.withUrlDecoder]

theorem safeView_iff (urlString : String) :
    SafeView charset codecs farsi urlString ↔ CarriesBridges charset urlString := by
  unfold SafeView CarriesBridges
  constructor
  · intro h hlink
    obtain ⟨updated, hview, himported, hblank⟩ := h {}
    rw [handleView_of_link hlink] at hview
    obtain ⟨text, htext, rfl⟩ := Option.map_eq_some_iff.mp hview
    refine ⟨text, htext, fun htrim ↦ ?_⟩
    have hdefault := (hblank ⟨rfl, htrim⟩).2
    cases farsi <;> exact absurd hdefault (by decide)
  · intro h prefs
    by_cases hlink : (urlString.toList.take 9).map Char.toLower = "bridge://".toList
    · obtain ⟨text, htext, htrim⟩ := h hlink
      have hview : OrbotMainActivity.handleView (codecs.withUrlDecoder charset) urlString prefs =
          some (OrbotMainActivity.setNewBridges text prefs) := by
        rw [handleView_of_link hlink, Option.mem_def.mp htext, Option.map_some]
      refine ⟨_, hview, .inr (.inl ⟨text, htext, htrim, rfl, text, rfl, rfl⟩), fun hblank ↦ ?_⟩
      exact absurd hblank.2 htrim
    · refine ⟨prefs, ?_, .inl rfl, id⟩
      rw [OrbotMainActivity.handleView, if_neg hlink]

/-! ## Scanned codes -/

theorem trim_trim (text : String) : trim (trim text) = trim text :=
  trim_of_trimmed (trimmed_toList_trim text)

theorem not_blankEnabled_setNewBridges (bridges : String) (prefs : Preferences) :
    ¬ BlankEnabled farsi (CustomBridgesActivity.setNewBridges bridges prefs) := by
  intro h
  have hne : trim bridges ≠ "" := by
    simpa [CustomBridgesActivity.setNewBridges, Prefs.bridgesEnabled] using h.1
  have hblank : trim (trim bridges) = "" := by
    simpa [CustomBridgesActivity.setNewBridges, Prefs.getBridgesList, hne] using h.2
  exact hne (trim_trim bridges ▸ hblank)

/-- What `setNewBridges` stores is the payload if and only if the two are the same without outer
blanks. -/
theorem safeImport_setNewBridges_iff {bridges text : String} :
    SafeImport farsi (some text) (fun prefs ↦
      some (CustomBridgesActivity.setNewBridges bridges prefs)) ↔ trim bridges = trim text := by
  constructor
  · intro h
    obtain ⟨updated, hupdated, himported, -⟩ := h {}
    obtain rfl := Option.some_inj.mp hupdated
    rcases himported with hsame | ⟨_, ⟨⟩, -, -, list, hlist, htrim⟩ | ⟨_, ⟨⟩, hblank, hoff⟩
    · cases congrArg Preferences.bridgesEnabled hsame
    · obtain ⟨-, rfl⟩ : trim bridges ≠ "" ∧ trim bridges = list := by
        simpa [CustomBridgesActivity.setNewBridges] using hlist
      exact (trim_trim bridges).symm.trans htrim
    · have hempty : trim bridges = "" := by
        simpa [CustomBridgesActivity.setNewBridges] using hoff
      exact hempty.trans hblank.symm
  · intro htrim prefs
    refine ⟨_, rfl, .inr ?_, fun h ↦ absurd h (not_blankEnabled_setNewBridges bridges prefs)⟩
    by_cases hblank : trim text = ""
    · exact .inr ⟨text, rfl, hblank, by simp [CustomBridgesActivity.setNewBridges, htrim, hblank]⟩
    · refine .inl ⟨text, rfl, hblank, ?_, trim bridges, ?_, (trim_trim bridges).trans htrim⟩
      · simp [CustomBridgesActivity.setNewBridges, htrim, hblank]
      · simp [CustomBridgesActivity.setNewBridges, htrim, hblank]

theorem safeImport_unchanged (payload : Option String) : SafeImport farsi payload some :=
  fun prefs ↦ ⟨prefs, rfl, .inl rfl, id⟩

/-- The cut in the decoded code takes as much from the text after `://` as decoding has taken
before it. -/
theorem substring_decoded {length : ℕ} {scheme text : String}
    (hscheme : utf16Length scheme.toList ≤ length) :
    substring (scheme ++ "://" ++ text) (length + 3) =
      substring text (length - utf16Length scheme.toList) := by
  have hfront : utf16Length (scheme ++ "://").toList = utf16Length scheme.toList + 3 := by
    rw [String.toList_append, utf16Length_append]
    rfl
  have hdrop : utf16Drop (length + 3) (scheme ++ "://" ++ text).toList =
      utf16Drop (length - utf16Length scheme.toList) text.toList := by
    rw [String.toList_append, utf16Drop_append (by omega), hfront, Nat.add_sub_add_right]
  unfold substring
  rw [hdrop, String.toList_append, utf16Length_append, hfront]
  congr 1
  rw [eq_iff_iff]
  omega

/-- What is stored of a scanned code after the cut, which is none for an exception. -/
def storeCut (cut : Option String) (prefs : Preferences) : Preferences :=
  match cut with
  | some bridges => CustomBridgesActivity.setNewBridges bridges prefs
  | none => prefs

/-- What is left of a text after a cut is stored as the payload. -/
theorem safeImport_cut_iff {payload text : String} {beginIndex : ℕ} :
    SafeImport farsi (some payload)
        (fun prefs ↦ some (storeCut (substring text beginIndex) prefs)) ↔
      utf16Length text.toList < beginIndex ∨
        trim (String.ofList (utf16Drop beginIndex text.toList)) = trim payload := by
  unfold substring
  by_cases hle : beginIndex ≤ utf16Length text.toList
  · simp only [if_pos hle, storeCut]
    rw [safeImport_setNewBridges_iff, or_iff_right (not_lt.mpr hle)]
  · simp only [if_neg hle, storeCut]
    exact iff_of_true (safeImport_unchanged _) (.inl (not_le.mp hle))

/-- A code without `://` is read as an array. -/
theorem safeScan_of_array {results : String} (hindex : indexOf results "://" = none) :
    SafeScan charset codecs farsi results := by
  have hread : (codecs.withUrlDecoder charset).readArray = codecs.readArray := rfl
  unfold SafeScan CustomBridgesActivity.onActivityResult
  simp only [hindex, hread]
  split
  · exact safeImport_unchanged _
  · cases harray : codecs.readArray results with
    | none => exact safeImport_unchanged _
    | some bridgeJson =>
      simp only [scannedPayload, harray]
      exact safeImport_setNewBridges_iff.mpr rfl

section Scheme

variable {results : String} {urlIdx : ℕ}

/-- What is stored of a code with `://` in it. -/
theorem safeScan_of_scheme (hindex : indexOf results "://" = some urlIdx) :
    SafeScan charset codecs farsi results ↔
      SafeImport farsi (scannedPayload charset codecs results) fun prefs ↦
        some (storeCut ((urlDecode charset results).bind
          (substring · (utf16Length (results.toList.take urlIdx) + 3))) prefs) := by
  have hne : results ≠ "" := by
    rintro rfl
    cases hindex
  unfold SafeScan CustomBridgesActivity.onActivityResult
  simp only [hindex, if_neg hne]
  rfl

/-- A code is decoded apart on both sides of its first `://`. -/
theorem urlDecode_of_scheme (hindex : indexOf results "://" = some urlIdx) :
    urlDecode charset results =
      (urlDecode charset (String.ofList (results.toList.take urlIdx))).bind fun scheme ↦
        (urlDecode charset (String.ofList (results.toList.drop (urlIdx + 3)))).map
          (scheme ++ "://" ++ ·) := by
  rw [← urlDecode_scheme]
  exact congrArg (urlDecode charset) (indexOf_eq_some hindex)

theorem length_scheme_le {scheme : String}
    (hscheme : urlDecode charset (String.ofList (results.toList.take urlIdx)) = some scheme) :
    utf16Length scheme.toList ≤ utf16Length (results.toList.take urlIdx) := by
  have hshort := utf16Length_urlDecode_le hscheme
  rwa [String.toList_ofList] at hshort

theorem keepsPayload_of_scheme {scheme text : String}
    (hindex : indexOf results "://" = some urlIdx)
    (hscheme : urlDecode charset (String.ofList (results.toList.take urlIdx)) = some scheme)
    (htext : urlDecode charset (String.ofList (results.toList.drop (urlIdx + 3))) = some text) :
    KeepsPayload charset codecs results ↔
      utf16Length text.toList <
          utf16Length (results.toList.take urlIdx) - utf16Length scheme.toList ∨
        CutsPayload codecs results text
          (utf16Length (results.toList.take urlIdx) - utf16Length scheme.toList) := by
  constructor
  · intro hkeeps
    exact hkeeps urlIdx scheme text hindex hscheme htext
  · intro hcut other first later hfound hfirst hlater
    obtain rfl := Option.some_inj.mp (hindex.symm.trans hfound)
    obtain rfl := Option.some_inj.mp (hscheme.symm.trans hfirst)
    obtain rfl := Option.some_inj.mp (htext.symm.trans hlater)
    exact hcut

/-- For a link the text after `://` is the payload itself. -/
theorem exists_payload_of_scheme (codecs : TextCodecs) {text : String}
    (hindex : indexOf results "://" = some urlIdx)
    (htext : urlDecode charset (String.ofList (results.toList.drop (urlIdx + 3))) = some text)
    (count : ℕ) :
    ∃ payload, scannedPayload charset codecs results = some payload ∧
      (CutsPayload codecs results text count ↔
        trim (String.ofList (utf16Drop count text.toList)) = trim payload) := by
  cases harray : codecs.readArray results with
  | some bridgeJson =>
    exact ⟨arrayText bridgeJson, by simp only [scannedPayload, harray],
      by simp only [CutsPayload, harray]⟩
  | none =>
    have hpayload : scannedPayload charset codecs results = some text := by
      simp only [scannedPayload, harray, linkPayload, hindex, Option.bind_some, htext]
    refine ⟨text, hpayload, ?_⟩
    simp only [CutsPayload, harray]
    conv_rhs => rw [← @String.ofList_toList text, String.toList_ofList]
    exact trim_utf16Drop_eq_iff.symm

end Scheme

theorem safeScan_iff (results : String) :
    SafeScan charset codecs farsi results ↔ KeepsPayload charset codecs results := by
  cases hindex : indexOf results "://" with
  | none =>
    apply iff_of_true (safeScan_of_array hindex)
    intro urlIdx scheme text hfound
    cases hindex.symm.trans hfound
  | some urlIdx =>
    rw [safeScan_of_scheme hindex]
    cases hdecode : urlDecode charset results with
    | none =>
      apply iff_of_true (safeImport_unchanged _)
      intro other scheme text hfound hscheme htext
      rw [urlDecode_of_scheme hfound, hscheme, htext] at hdecode
      cases hdecode
    | some decoded =>
      rw [urlDecode_of_scheme hindex] at hdecode
      obtain ⟨scheme, hscheme, hrest⟩ := Option.bind_eq_some_iff.mp hdecode
      obtain ⟨text, htext, rfl⟩ := Option.map_eq_some_iff.mp hrest
      obtain ⟨payload, hpayload, hcuts⟩ := exists_payload_of_scheme codecs hindex htext
        (utf16Length (results.toList.take urlIdx) - utf16Length scheme.toList)
      rw [keepsPayload_of_scheme hindex hscheme htext, hcuts, hpayload]
      simp only [Option.bind_some, substring_decoded (length_scheme_le hscheme)]
      exact safeImport_cut_iff

/-- Opening a link is a total and safe import exactly if the link carries bridges, scanning a code
exactly if its payload is left whole by the cut. -/
theorem safeImports_iff (charset : Charset) (codecs : TextCodecs) (farsi : Bool)
    (urlString results : String) :
    (SafeView charset codecs farsi urlString ↔ CarriesBridges charset urlString) ∧
      (SafeScan charset codecs farsi results ↔ KeepsPayload charset codecs results) :=
  ⟨safeView_iff urlString, safeScan_iff results⟩

/-- ISO-8859-1, which reads the bytes of ASCII characters as UTF-8 does. -/
def latin1 : Charset where
  toChars bytes := bytes.map fun byte ↦ Char.ofNat byte.toNat
  length_le bytes := by
    have hsize : ∀ n < 256, utf16Size (Char.ofNat n) ≤ 1 := by decide +kernel
    induction bytes with
    | nil => exact le_rfl
    | cons byte rest ih =>
      have hbyte := hsize byte.toNat byte.toNat_lt
      rw [List.map_cons, utf16Length_cons, List.length_cons]
      omega

/-- A malformed escape in a link is thrown, a link without bridges enables a blank list, an escape
in the scheme of a code takes the beginning of its bridge line, and of an array with a URL in it
only the rest of the URL is stored. -/
theorem badTexts_imported :
    OrbotMainActivity.handleView (asciiCodecs.withUrlDecoder latin1) "bridge://%zz" {} = none ∧
      OrbotMainActivity.handleView (asciiCodecs.withUrlDecoder latin1) "bridge://" {} =
        some { bridgesEnabled := some true, bridgesList := some "" } ∧
      CustomBridgesActivity.onActivityResult (asciiCodecs.withUrlDecoder latin1)
        "br%69dge://obfs4+192.0.2.1:443" {} =
        { bridgesEnabled := some true, bridgesList := some "fs4 192.0.2.1:443" } ∧
      CustomBridgesActivity.onActivityResult (asciiCodecs.withUrlDecoder latin1)
        (jsonArray List.singleton [meekLine]) {} =
        { bridgesEnabled := some true, bridgesList := some "meek.example/\"]" } ∧
      ¬ SafeView latin1 asciiCodecs false "bridge://%zz" ∧
      ¬ SafeView latin1 asciiCodecs false "bridge://" ∧
      ¬ SafeScan latin1 asciiCodecs false "br%69dge://obfs4+192.0.2.1:443" ∧
      ¬ SafeScan latin1 asciiCodecs false (jsonArray List.singleton [meekLine]) := by
  refine ⟨by decide +kernel, by decide +kernel, by decide +kernel, by decide +kernel, ?_, ?_, ?_,
    ?_⟩
  · rw [safeView_iff]
    intro h
    obtain ⟨text, htext, -⟩ := h (by decide)
    have hnone : viewedPayload latin1 "bridge://%zz" = none := by decide
    cases hnone.symm.trans htext
  · rw [safeView_iff]
    intro h
    obtain ⟨text, htext, htrim⟩ := h (by decide)
    have hblank : viewedPayload latin1 "bridge://" = some "" := by decide
    obtain rfl := Option.some_inj.mp (hblank.symm.trans htext)
    exact htrim (by decide)
  · rw [safeScan_iff]
    intro h
    have hindex : indexOf "br%69dge://obfs4+192.0.2.1:443" "://" = some 8 := by decide +kernel
    have hcut := h 8 "bridge" "obfs4 192.0.2.1:443" hindex (by decide +kernel) (by decide +kernel)
    rcases hcut with hshort | hblank
    · exact absurd hshort (by decide)
    · exact absurd (hblank 'o' (by decide)) (by decide)
  · rw [safeScan_iff]
    intro h
    have hindex : indexOf (jsonArray List.singleton [meekLine]) "://" = some 34 := by
      decide +kernel
    have harray : asciiCodecs.readArray (jsonArray List.singleton [meekLine]) =
        some [meekLine] := by decide +kernel
    have hcut := h 34 "[\"meek_lite 192.0.2.3:80 url=https" "meek.example/\"]" hindex
      (by decide +kernel) (by decide +kernel)
    rcases hcut with hshort | hlines
    · exact absurd hshort (by decide +kernel)
    · simp only [CutsPayload, harray] at hlines
      exact absurd hlines (by decide +kernel)

end Exact

end Orbot.Onboarding
