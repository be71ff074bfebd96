import Orbot.Foundation.PrefixCode
import Orbot.Pdnsd.Names

/-!
# Names in dotted notation

`str2rhn` and `parsestr2rhn` read the text of a name, and `rhn2str` writes one for a message of the
daemon. A text is given without the zero octet at its end.
-/

namespace Orbot.Pdnsd

open Orbot.Foundation

def dot : UInt8 := 46

/-- The position that a label from the position `i` on cannot reach. -/
def labelLimit (i : ℕ) : ℕ := min (i + 63) (DNSNAMEBUFSIZE - 2)

/-- The loops of `str2rhn`: the current label begins at the position `i` and is read up to a
character of it. -/
def str2rhnFrom (i : ℕ) (label : Octets) : Octets → Option Octets
  | [] => if label ≠ [] ∨ i = 0 then none else some [0]
  | c :: rest =>
      if c ≠ dot then
        if labelLimit i ≤ i + label.length then none else str2rhnFrom i (label ++ [c]) rest
      else if label = [] then none
      else (str2rhnFrom (i + label.length + 1) [] rest).map (encodeLabel label ++ ·)

def str2rhn (str : Octets) : Option Octets :=
  if str = [dot] then some [0] else str2rhnFrom 0 [] str

/-- The loops of `parsestr2rhn`. -/
def parsestr2rhnFrom (i : ℕ) (label : Octets) : Octets → Except String Octets
  | [] =>
      if label ≠ [] then .ok (encodeLabel label ++ [0])
      else if i = 0 then .error "Empty domain name not allowed"
      else .ok [0]
  | c :: rest =>
      if c ≠ dot then
        if labelLimit i ≤ i + label.length then .error "Domain name element too long"
        else parsestr2rhnFrom i (label ++ [c]) rest
      else if label = [] then .error "Empty name element in domain name"
      else (parsestr2rhnFrom (i + label.length + 1) [] rest).map (encodeLabel label ++ ·)

/-- `parsestr2rhn` for the text that it looks at. -/
def parsestr2rhn (str : Octets) : Except String Octets :=
  if str = [dot] then .ok [0] else parsestr2rhnFrom 0 [] str

/-- The labels, each with a dot behind it. -/
def dotLabels (labels : List Octets) : Octets := labels.flatMap (· ++ [dot])

/-- The dotted notation of a name. -/
def dotted (labels : List Octets) : Octets := if labels = [] then [dot] else dotLabels labels

/-- The labels have no dots. -/
def IsDotFree (labels : List Octets) : Prop := ∀ label ∈ labels, dot ∉ label

/-- The labels of a name that is written without escapes, with room for them from the position `i`
on; at the beginning there is a label. -/
structure ReadsAs (i : ℕ) (labels : List Octets) : Prop where
  isLabel : ∀ label ∈ labels, IsLabel label
  isDotFree : IsDotFree labels
  ne_nil : i = 0 → labels ≠ []
  length_le : i + (encode labels).length ≤ DNSNAMEBUFSIZE

variable {labels : List Octets} {label str rest : Octets} {i : ℕ} {c : UInt8}

theorem dotLabels_cons (label : Octets) (labels : List Octets) :
    dotLabels (label :: labels) = label ++ dot :: dotLabels labels := by
  simp [dotLabels]

/-- The first label of a text is what comes before its first dot. -/
theorem dotLabels_eq_append (hlabel : dot ∉ label) (hfree : IsDotFree labels) :
    label ++ dot :: rest = dotLabels labels ↔
      ∃ later, labels = label :: later ∧ rest = dotLabels later := by
  cases labels with
  | nil => simp [dotLabels]
  | cons first later =>
    have hfirst := hfree first List.mem_cons_self
    rw [dotLabels_cons, append_cons_inj hlabel hfirst]
    constructor
    · rintro ⟨rfl, rfl⟩
      exact ⟨later, rfl, rfl⟩
    · rintro ⟨later', hcons, rfl⟩
      obtain ⟨rfl, rfl⟩ := List.cons.inj hcons
      exact ⟨rfl, rfl⟩

/-- A label goes on up to its dot. -/
theorem exists_longer_label (hlabel : dot ∉ label) (hc : c ≠ dot)
    (h : label ++ c :: rest = dotLabels labels) :
    ∃ first later, labels = first :: later ∧ label.length < first.length := by
  cases labels with
  | nil => exact absurd h (by simp [dotLabels])
  | cons first later =>
    refine ⟨first, later, rfl, ?_⟩
    by_contra hle
    have hdot : (label ++ [c] ++ rest)[first.length]? = some dot := by
      rw [List.append_assoc, List.singleton_append, h, dotLabels_cons]
      simp
    rw [List.getElem?_append_left (by simp; omega)] at hdot
    have hmem := List.mem_of_getElem? hdot
    rw [List.mem_append, List.mem_singleton] at hmem
    cases hmem with
    | inl hmem => exact hlabel hmem
    | inr heq => exact hc heq.symm

/-- A text without a dot has no labels. -/
theorem eq_nil_of_dotLabels (hlabel : dot ∉ label) (h : label = dotLabels labels) :
    labels = [] ∧ label = [] := by
  cases labels with
  | nil => exact ⟨rfl, h⟩
  | cons first later =>
    rw [h, dotLabels_cons] at hlabel
    exact absurd (by simp) hlabel

theorem readsAs_cons (hdot : dot ∉ label) :
    ReadsAs i (label :: labels) ↔
      IsLabel label ∧ i + label.length ≤ labelLimit i ∧
        ReadsAs (i + label.length + 1) labels := by
  have hlength : (encode (label :: labels)).length = label.length + 1 + (encode labels).length := by
    rw [encode_cons, List.length_cons, List.length_append]
    omega
  have hpos := length_encode labels
  constructor
  · rintro ⟨hlabels, hfree, -, hle⟩
    rw [hlength] at hle
    obtain ⟨hlabel, hlater⟩ := List.forall_mem_cons.mp hlabels
    refine ⟨hlabel, ?_, hlater, (List.forall_mem_cons.mp hfree).2, fun h ↦ by omega, by omega⟩
    have h63 := hlabel.2
    rw [labelLimit, DNSNAMEBUFSIZE] at *
    omega
  · rintro ⟨hlabel, -, hlabels, hfree, -, hle⟩
    exact ⟨List.forall_mem_cons.mpr ⟨hlabel, hlabels⟩, List.forall_mem_cons.mpr ⟨hdot, hfree⟩,
      fun _ ↦ List.cons_ne_nil _ _, by omega⟩

/-- A label that has been read has room from its position on. -/
def HasRoom (i : ℕ) (label : Octets) : Prop :=
  dot ∉ label ∧ i < DNSNAMEBUFSIZE ∧ (label ≠ [] → i + label.length ≤ labelLimit i)

theorem HasRoom.concat (h : HasRoom i label) (hc : c ≠ dot)
    (hlimit : ¬labelLimit i ≤ i + label.length) : HasRoom i (label ++ [c]) := by
  refine ⟨?_, h.2.1, fun _ ↦ ?_⟩
  · rw [List.mem_append, List.mem_singleton, not_or]
    exact ⟨h.1, fun heq ↦ hc heq.symm⟩
  · rw [List.length_append, List.length_singleton]
    omega

/-- A label that has come to its dot. -/
theorem HasRoom.isLabel (h : HasRoom i label) (hne : label ≠ []) :
    IsLabel label ∧ i + label.length ≤ labelLimit i ∧ HasRoom (i + label.length + 1) [] := by
  have hroom := h.2.2 hne
  have hlimit : labelLimit i ≤ i + 63 ∧ labelLimit i ≤ 254 :=
    ⟨Nat.min_le_left _ _, Nat.min_le_right _ _⟩
  refine ⟨⟨List.length_pos_iff.mpr hne, by omega⟩, hroom, by simp, ?_, by simp⟩
  rw [DNSNAMEBUFSIZE]
  omega

/-- What `str2rhn` reads is the dotted notation of labels. -/
theorem str2rhnFrom_eq_some {out : Octets} (h : HasRoom i label) :
    str2rhnFrom i label str = some out ↔
      ∃ labels, ReadsAs i labels ∧ label ++ str = dotLabels labels ∧ out = encode labels := by
  fun_induction str2rhnFrom i label str generalizing out with
  | case1 i label hempty =>
    refine ⟨fun hnone ↦ (by cases hnone), ?_⟩
    rintro ⟨labels, hreads, htext, -⟩
    rw [List.append_nil] at htext
    obtain ⟨rfl, rfl⟩ := eq_nil_of_dotLabels h.1 htext
    cases hempty with
    | inl hne => exact absurd rfl hne
    | inr hzero => exact absurd rfl (hreads.ne_nil hzero)
  | case2 i label hempty =>
    rw [not_or, not_not] at hempty
    obtain ⟨rfl, hi⟩ := hempty
    constructor
    · intro hout
      obtain rfl := Option.some.inj hout
      refine ⟨[], ⟨by simp, by simp [IsDotFree], fun hzero ↦ absurd hzero hi, ?_⟩, rfl, rfl⟩
      exact h.2.1
    · rintro ⟨labels, -, htext, rfl⟩
      rw [(eq_nil_of_dotLabels h.1 htext).1]
      rfl
  | case3 i label c rest hc hlimit =>
    refine ⟨fun hnone ↦ (by cases hnone), ?_⟩
    rintro ⟨labels, hreads, htext, -⟩
    obtain ⟨first, later, rfl, hlonger⟩ := exists_longer_label h.1 hc htext
    have hroom := ((readsAs_cons (hreads.isDotFree first List.mem_cons_self)).mp hreads).2.1
    omega
  | case4 i label c rest hc hlimit ih =>
    rw [ih (h.concat hc hlimit), List.append_assoc, List.singleton_append]
  | case5 i c rest hc =>
    rw [not_not] at hc
    subst hc
    refine ⟨fun hnone ↦ (by cases hnone), ?_⟩
    rintro ⟨labels, hreads, htext, -⟩
    obtain ⟨later, rfl, -⟩ := (dotLabels_eq_append h.1 hreads.isDotFree).mp htext
    exact absurd rfl (List.length_pos_iff.mp (hreads.isLabel [] List.mem_cons_self).1)
  | case6 i label c rest hc hne ih =>
    rw [not_not] at hc
    subst hc
    obtain ⟨hlabel, hroom, hnext⟩ := h.isLabel hne
    rw [Option.map_eq_some_iff]
    constructor
    · rintro ⟨out, hout, rfl⟩
      obtain ⟨labels, hreads, htext, rfl⟩ := (ih hnext).mp hout
      rw [List.nil_append] at htext
      exact ⟨label :: labels, (readsAs_cons h.1).mpr ⟨hlabel, hroom, hreads⟩,
        by rw [dotLabels_cons, htext], by rw [encode_cons]; rfl⟩
    · rintro ⟨labels, hreads, htext, rfl⟩
      obtain ⟨later, rfl, hrest⟩ := (dotLabels_eq_append h.1 hreads.isDotFree).mp htext
      exact ⟨_, (ih hnext).mpr ⟨later, ((readsAs_cons h.1).mp hreads).2.2, hrest, rfl⟩,
        by rw [encode_cons]; rfl⟩

theorem hasRoom_nil : HasRoom 0 [] := ⟨by simp, by decide, by simp⟩

/-- The names that are written without escapes are those that `ReadsAs` describes. -/
theorem readsAs_iff (hne : labels ≠ []) :
    ReadsAs 0 labels ↔ ∃ name : DomainName, name.labels = labels ∧ IsDotFree name.labels := by
  constructor
  · intro h
    have hle := h.length_le
    rw [Nat.zero_add] at hle
    exact ⟨⟨labels, h.isLabel, hle⟩, rfl, h.isDotFree⟩
  · rintro ⟨name, rfl, hfree⟩
    refine ⟨name.isLabel, hfree, fun _ ↦ hne, ?_⟩
    rw [Nat.zero_add]
    exact name.length_le

/-- `str2rhn` accepts just the dotted notations of names without dots in labels, and writes the
transport format of the name. -/
theorem str2rhn_eq_some (str rhn : Octets) :
    str2rhn str = some rhn ↔
      ∃ name : DomainName, IsDotFree name.labels ∧ str = dotted name.labels ∧ rhn = name.rhn := by
  rw [str2rhn]
  split
  next hroot =>
    constructor
    · intro h
      exact ⟨⟨[], by simp, by decide⟩, by simp [IsDotFree], hroot, (Option.some.inj h).symm⟩
    · rintro ⟨name, hfree, hstr, rfl⟩
      rw [hroot, dotted] at hstr
      split at hstr
      next hnil => rw [DomainName.rhn, hnil, encode_nil]
      next hne =>
        have hstart : [] ++ dot :: [] = dotLabels name.labels := hstr
        obtain ⟨later, hlabels, -⟩ := (dotLabels_eq_append (by simp) hfree).mp hstart
        have hlabel := name.isLabel [] (hlabels ▸ List.mem_cons_self)
        exact absurd hlabel.1 (Nat.lt_irrefl 0)
  next hroot =>
    rw [str2rhnFrom_eq_some hasRoom_nil, List.nil_append]
    constructor
    · rintro ⟨labels, hreads, rfl, rfl⟩
      have hne := hreads.ne_nil rfl
      obtain ⟨name, rfl, hfree⟩ := (readsAs_iff hne).mp hreads
      exact ⟨name, hfree, (if_neg hne).symm, rfl⟩
    · rintro ⟨name, hfree, rfl, rfl⟩
      have hne : name.labels ≠ [] := fun hnil ↦ hroot (if_pos hnil)
      exact ⟨name.labels, (readsAs_iff hne).mpr ⟨name, rfl, hfree⟩, if_neg hne, rfl⟩

/-- The two loops differ in whether a dot has to end the text. -/
theorem parsestr2rhnFrom_eq_ok (i : ℕ) (label str out : Octets) :
    parsestr2rhnFrom i label str = .ok out ↔
      str2rhnFrom i label str = some out ∨ str2rhnFrom i label (str ++ [dot]) = some out := by
  induction str generalizing i label out with
  | nil =>
    by_cases hlabel : label = []
    · by_cases hi : i = 0
      · simp [parsestr2rhnFrom, str2rhnFrom, hlabel, hi]
      · simp [parsestr2rhnFrom, str2rhnFrom, hlabel, hi]
    · simp [parsestr2rhnFrom, str2rhnFrom, hlabel]
  | cons c rest ih =>
    rw [List.cons_append, parsestr2rhnFrom, str2rhnFrom, str2rhnFrom]
    by_cases hc : c = dot
    · simp only [hc, ne_eq, not_true_eq_false, if_false]
      by_cases hlabel : label = []
      · simp [hlabel]
      · simp only [if_neg hlabel]
        have hih := ih (i + label.length + 1) []
        cases hparse : parsestr2rhnFrom (i + label.length + 1) [] rest with
        | error message =>
          have hnone (out : Octets) := (not_congr (hih out)).mp (by simp [hparse])
          simp only [not_or] at hnone
          simp only [Except.map, reduceCtorEq, false_iff, Option.map_eq_some_iff, not_or,
            not_exists, not_and]
          exact ⟨fun later hlater ↦ absurd hlater (hnone later).1,
            fun later hlater ↦ absurd hlater (hnone later).2⟩
        | ok later =>
          have hlater := (hih later).mp hparse
          have hunique (other : Octets) (hother : str2rhnFrom (i + label.length + 1) [] rest =
              some other ∨ str2rhnFrom (i + label.length + 1) [] (rest ++ [dot]) = some other) :
              other = later :=
            (Except.ok.inj (hparse.symm.trans ((hih other).mpr hother))).symm
          simp only [Except.map, Except.ok.injEq, Option.map_eq_some_iff]
          constructor
          · rintro rfl
            exact hlater.imp (fun h ↦ ⟨later, h, rfl⟩) (fun h ↦ ⟨later, h, rfl⟩)
          · rintro (⟨other, hother, rfl⟩ | ⟨other, hother, rfl⟩)
            · rw [hunique other (.inl hother)]
            · rw [hunique other (.inr hother)]
    · simp only [ne_eq, hc, not_false_eq_true, if_true]
      by_cases hlimit : labelLimit i ≤ i + label.length
      · simp [hlimit]
      · simp only [if_neg hlimit]
        exact ih i (label ++ [c]) out

/-- `parsestr2rhn` accepts what `str2rhn` accepts, and the same names without the dot at the end. -/
theorem parsestr2rhn_eq_ok (str rhn : Octets) :
    parsestr2rhn str = .ok rhn ↔
      str2rhn str = some rhn ∨ str ≠ [] ∧ str2rhn (str ++ [dot]) = some rhn := by
  by_cases hroot : str = [dot]
  · subst hroot
    have htwo : str2rhnFrom 0 [] [dot, dot] = none := by decide
    simp [parsestr2rhn, str2rhn, htwo]
  · have hdot : str ++ [dot] = [dot] ↔ str = [] := by simp
    rw [parsestr2rhn, if_neg hroot, parsestr2rhnFrom_eq_ok, str2rhn, if_neg hroot, str2rhn]
    by_cases hnil : str = []
    · simp [hnil, str2rhnFrom, dot]
    · rw [if_neg (fun h ↦ hnil (hdot.mp h))]
      simp [hnil]

/-- Both functions write the transport format of the name whose dotted notation they read, and read
nothing else; only `parsestr2rhn` does without the dot at the end. -/
theorem str2rhn_correct (str rhn : Octets) :
    (str2rhn str = some rhn ↔
      ∃ name : DomainName, IsDotFree name.labels ∧ str = dotted name.labels ∧ rhn = name.rhn) ∧
    (parsestr2rhn str = .ok rhn ↔
      ∃ name : DomainName, IsDotFree name.labels ∧
        (str = dotted name.labels ∨ str ≠ [] ∧ str ++ [dot] = dotted name.labels) ∧
        rhn = name.rhn) := by
  refine ⟨str2rhn_eq_some str rhn, ?_⟩
  rw [parsestr2rhn_eq_ok, str2rhn_eq_some, str2rhn_eq_some]
  constructor
  · rintro (⟨name, hfree, hstr, hrhn⟩ | ⟨hne, name, hfree, hstr, hrhn⟩)
    · exact ⟨name, hfree, .inl hstr, hrhn⟩
    · exact ⟨name, hfree, .inr ⟨hne, hstr⟩, hrhn⟩
  · rintro ⟨name, hfree, hstr | ⟨hne, hstr⟩, hrhn⟩
    · exact .inl ⟨name, hfree, hstr, hrhn⟩
    · exact .inr ⟨hne, name, hfree, hstr, hrhn⟩

/-- `isgraph` of the C locale. -/
def isgraph (c : UInt8) : Bool := 0x21 ≤ c && c ≤ 0x7e

def backslash : UInt8 := 92

/-- The characters that get a backslash: the dot, the backslash and the quote. -/
def isSpecial (c : UInt8) : Bool := c = dot || c = backslash || c = 34

/-- The format `\\%03o`. -/
def octal (c : UInt8) : Octets := [backslash, 48 + c / 64, 48 + c / 8 % 8, 48 + c % 8]

/-- A character of a label in `str`, with what has been written before an overflow as the error. -/
def writeChar (size : ℕ) (str : Octets) (c : UInt8) : Except Octets Octets :=
  if size ≤ str.length + 2 then .error str
  else if isgraph c then
    if isSpecial c then
      if size ≤ str.length + 1 + 2 then .error (str ++ [backslash])
      else .ok (str ++ [backslash, c])
    else .ok (str ++ [c])
  else if size - 1 - str.length ≤ (octal c).length then .error (str ++ [dot])
  else .ok (str ++ octal c)

/-- The loop of `rhn2str` over the labels. -/
def writeLabels (size : ℕ) : Octets → Octets → Except Octets Octets
  | [], str => .ok str
  | lb :: rest, str =>
      if lb = 0 then .ok str
      else
        match (rest.take lb.toNat).foldlM (writeChar size) str with
        | .error str => .error str
        | .ok str => writeLabels size (rest.drop lb.toNat) (str ++ [dot])
termination_by rhn => rhn.length
decreasing_by simp only [List.length_drop, List.length_cons]; omega

/-- The end of `rhn2str` at an overflow: dots in the last three places before the zero octet. -/
def overflow (size : ℕ) (str : Octets) : Octets :=
  str.take (size - 4) ++ List.replicate (min 3 (size - 1)) dot

/-- `rhn2str` into a buffer of `size` octets. -/
def rhn2str (rhn : Octets) (size : ℕ) : Option Octets :=
  if size = 0 then none
  else if rhn.headD 0 = 0 then some (if 2 ≤ size then [dot] else [])
  else
    match writeLabels size rhn [] with
    | .error str => some (overflow size str)
    | .ok str => some str

/-- A character of a label as it is written. -/
def escaped (c : UInt8) : Octets :=
  if isgraph c then if isSpecial c then [backslash, c] else [c] else octal c

/-- The labels with escapes. -/
def escapedLabels (labels : List Octets) : List Octets := labels.map (·.flatMap escaped)

/-- The text that `rhn2str` writes when there is room for it. -/
def DomainName.text (name : DomainName) : Octets := dotted (escapedLabels name.labels)

/-- What has been written of the text `full` at an overflow, from which `overflow` makes an end in
dots: nothing is missing before them. -/
def Truncates (size : ℕ) (full str : Octets) : Prop :=
  ∃ shown, shown <+: full ∧
    (str = shown ∧ size ≤ shown.length + 4 ∨ str = shown ++ [dot] ∧ size ≤ shown.length + 5)

theorem Truncates.append {size : ℕ} {full : Octets} (h : Truncates size full str)
    (more : Octets) : Truncates size (full ++ more) str := by
  obtain ⟨shown, hshown, hstr⟩ := h
  exact ⟨shown, hshown.trans (List.prefix_append _ _), hstr⟩

/-- The three forms of a character. -/
theorem escaped_cases (c : UInt8) :
    (isgraph c = true ∧ isSpecial c = true ∧ escaped c = [backslash, c]) ∨
      (isgraph c = true ∧ isSpecial c = false ∧ escaped c = [c]) ∨
      (isgraph c = false ∧ escaped c = octal c) := by
  cases hgraph : isgraph c with
  | false => exact .inr (.inr ⟨rfl, by simp [escaped, hgraph]⟩)
  | true =>
    cases hspecial : isSpecial c with
    | false => exact .inr (.inl ⟨rfl, rfl, by simp [escaped, hgraph, hspecial]⟩)
    | true => exact .inl ⟨rfl, rfl, by simp [escaped, hgraph, hspecial]⟩

theorem writeChar_ok {size : ℕ} (h : str.length + (escaped c).length + 2 ≤ size) :
    writeChar size str c = .ok (str ++ escaped c) := by
  obtain ⟨hgraph, hspecial, hc⟩ | ⟨hgraph, hspecial, hc⟩ | ⟨hgraph, hc⟩ := escaped_cases c
  · rw [hc, List.length_cons, List.length_singleton] at h
    rw [writeChar, hgraph, hspecial, hc, if_neg (by omega), if_pos rfl, if_pos rfl,
      if_neg (by omega)]
  · rw [hc, List.length_singleton] at h
    rw [writeChar, hgraph, hspecial, hc, if_neg (by omega), if_pos rfl, if_neg Bool.false_ne_true]
  · have hoctal : (octal c).length = 4 := rfl
    rw [hc] at h
    rw [writeChar, hgraph, hc, if_neg (by omega), if_neg Bool.false_ne_true, if_neg (by omega)]

theorem writeChar_error {size : ℕ} (h : size < str.length + (escaped c).length + 2) :
    ∃ out, writeChar size str c = .error out ∧ Truncates size (str ++ escaped c) out := by
  by_cases hsize : size ≤ str.length + 2
  · exact ⟨str, if_pos hsize, str, List.prefix_append _ _, .inl ⟨rfl, by omega⟩⟩
  obtain ⟨hgraph, hspecial, hc⟩ | ⟨hgraph, hspecial, hc⟩ | ⟨hgraph, hc⟩ := escaped_cases c
  · rw [hc, List.length_cons, List.length_singleton] at h
    rw [writeChar, hgraph, hspecial, hc, if_neg hsize, if_pos rfl, if_pos rfl, if_pos (by omega)]
    refine ⟨_, rfl, str ++ [backslash], ?_, .inl ⟨rfl, ?_⟩⟩
    · exact (List.prefix_append_right_inj str).mpr ⟨[c], rfl⟩
    · rw [List.length_append, List.length_singleton]
      omega
  · rw [hc, List.length_singleton] at h
    omega
  · have hoctal : (octal c).length = 4 := rfl
    rw [hc] at h
    rw [writeChar, hgraph, hc, if_neg hsize, if_neg Bool.false_ne_true, if_pos (by omega)]
    exact ⟨_, rfl, str, List.prefix_append _ _, .inr ⟨rfl, by omega⟩⟩

theorem writeChars_ok {size : ℕ} {chars : Octets}
    (h : (str ++ chars.flatMap escaped).length + 2 ≤ size) :
    chars.foldlM (writeChar size) str = .ok (str ++ chars.flatMap escaped) := by
  induction chars generalizing str with
  | nil => simp [pure, Except.pure]
  | cons c chars ih =>
    rw [List.flatMap_cons, ← List.append_assoc] at h ⊢
    have hc : str.length + (escaped c).length + 2 ≤ size := by
      rw [List.length_append, List.length_append] at h
      omega
    rw [List.foldlM_cons, writeChar_ok hc]
    exact ih h

theorem writeChars_error {size : ℕ} {chars : Octets} (hne : chars ≠ [])
    (h : size < (str ++ chars.flatMap escaped).length + 2) :
    ∃ out, chars.foldlM (writeChar size) str = .error out ∧
      Truncates size (str ++ chars.flatMap escaped) out := by
  induction chars generalizing str with
  | nil => exact absurd rfl hne
  | cons c chars ih =>
    rw [List.flatMap_cons, ← List.append_assoc] at h ⊢
    rw [List.foldlM_cons]
    by_cases hc : str.length + (escaped c).length + 2 ≤ size
    · rw [writeChar_ok hc]
      have hchars : chars ≠ [] := by
        rintro rfl
        rw [List.flatMap_nil, List.append_nil, List.length_append] at h
        omega
      exact ih hchars h
    · obtain ⟨out, hout, htruncates⟩ := writeChar_error (Nat.not_le.mp hc)
      rw [hout]
      exact ⟨out, rfl, htruncates.append _⟩

theorem dotLabels_escapedLabels_cons (label : Octets) (labels : List Octets) :
    dotLabels (escapedLabels (label :: labels)) =
      label.flatMap escaped ++ ([dot] ++ dotLabels (escapedLabels labels)) := by
  rw [escapedLabels, List.map_cons, dotLabels_cons]
  rfl

theorem writeLabels_cons (hlabel : IsLabel label) (size : ℕ) (labels : List Octets)
    (str : Octets) :
    writeLabels size (encode (label :: labels)) str =
      match label.foldlM (writeChar size) str with
      | .error str => .error str
      | .ok str => writeLabels size (encode labels) (str ++ [dot]) := by
  rw [encode_cons, writeLabels, if_neg (length_ne_zero hlabel), take_encode_cons hlabel,
    drop_encode_cons hlabel]

/-- The labels are written if there is room for all of them and a zero octet. -/
theorem writeLabels_encode (h : ∀ label ∈ labels, IsLabel label) {size : ℕ}
    (hstr : str.length < size) :
    ((str ++ dotLabels (escapedLabels labels)).length < size →
      writeLabels size (encode labels) str = .ok (str ++ dotLabels (escapedLabels labels))) ∧
    (size ≤ (str ++ dotLabels (escapedLabels labels)).length →
      ∃ out, writeLabels size (encode labels) str = .error out ∧
        Truncates size (str ++ dotLabels (escapedLabels labels)) out) := by
  induction labels generalizing str with
  | nil =>
    have hnil : str ++ dotLabels (escapedLabels []) = str := List.append_nil str
    rw [hnil]
    refine ⟨fun _ ↦ ?_, fun hle ↦ absurd hstr (Nat.not_lt.mpr hle)⟩
    rw [encode_nil, writeLabels, if_pos rfl]
  | cons label labels ih =>
    have hlabel := h label List.mem_cons_self
    rw [dotLabels_escapedLabels_cons, ← List.append_assoc, ← List.append_assoc,
      writeLabels_cons hlabel]
    by_cases hroom : (str ++ label.flatMap escaped).length + 2 ≤ size
    · rw [writeChars_ok hroom]
      refine ih (fun label hmem ↦ h label (List.mem_cons_of_mem _ hmem)) ?_
      rw [List.length_append, List.length_singleton]
      omega
    · constructor
      · intro hlt
        rw [List.length_append, List.length_append, List.length_singleton] at hlt
        omega
      · intro _
        obtain ⟨out, hout, htruncates⟩ :=
          writeChars_error (List.length_pos_iff.mp hlabel.1) (Nat.not_le.mp hroom)
        rw [hout]
        exact ⟨out, rfl, (htruncates.append _).append _⟩

/-- The end of a truncated text. -/
theorem overflow_eq {size : ℕ} {full : Octets} (h : Truncates size full str) (hsize : 0 < size) :
    ∃ dots, min 3 (size - 1) ≤ dots ∧ dots ≤ 4 ∧ dots < size ∧
      overflow size str = full.take (size - 1 - dots) ++ List.replicate dots dot := by
  obtain ⟨shown, ⟨hidden, rfl⟩, hstr | hstr⟩ := h
  · refine ⟨min 3 (size - 1), Nat.le_refl _, by omega, by omega, ?_⟩
    rw [overflow, hstr.1, List.take_append_of_le_length (by omega),
      show size - 1 - min 3 (size - 1) = size - 4 by omega]
  · obtain ⟨rfl, hshown⟩ := hstr
    by_cases hexact : size - 4 ≤ shown.length
    · refine ⟨min 3 (size - 1), Nat.le_refl _, by omega, by omega, ?_⟩
      rw [overflow, List.take_append_of_le_length hexact,
        List.take_append_of_le_length (by omega),
        show size - 1 - min 3 (size - 1) = size - 4 by omega]
    · refine ⟨4, by omega, Nat.le_refl _, by omega, ?_⟩
      rw [overflow, List.take_of_length_le (by simp; omega),
        List.take_append_of_le_length (by omega), List.take_of_length_le (by omega),
        show min 3 (size - 1) = 3 by omega, List.append_assoc]
      rfl

theorem eq_of_isSpecial (h : isSpecial c = true) : c = dot ∨ c = backslash ∨ c = 34 := by
  simpa [isSpecial, or_assoc] using h

theorem ne_of_not_isSpecial (h : isSpecial c = false) : c ≠ dot ∧ c ≠ backslash := by
  constructor
  · rintro rfl
    simp [isSpecial] at h
  · rintro rfl
    simp [isSpecial] at h

theorem toNat_octal (c : UInt8) :
    (48 + c / 64).toNat = 48 + c.toNat / 64 ∧ (48 + c / 8 % 8).toNat = 48 + c.toNat / 8 % 8 ∧
      (48 + c % 8).toNat = 48 + c.toNat % 8 := by
  have hlt := c.toNat_lt
  simp only [UInt8.toNat_add, UInt8.toNat_div, UInt8.toNat_mod, UInt8.reduceToNat]
  omega

theorem octal_injective : Function.Injective octal := by
  intro c d h
  obtain ⟨h1, h2, h3⟩ := toNat_octal c
  obtain ⟨h1', h2', h3'⟩ := toNat_octal d
  simp only [octal, List.cons.injEq, and_true, true_and] at h
  obtain ⟨hhigh, hmiddle, hlow⟩ := h
  rw [hhigh, h1'] at h1
  rw [hmiddle, h2'] at h2
  rw [hlow, h3'] at h3
  apply UInt8.toNat_inj.mp
  have hc := c.toNat_lt
  have hd := d.toNat_lt
  omega

/-- The first octal digit is none of the characters that get a backslash. -/
theorem octal_digit_not_special (c d : UInt8) (h : isSpecial d = true) : 48 + c / 64 ≠ d := by
  intro heq
  have hnat := (toNat_octal c).1
  have hlt := c.toNat_lt
  rw [heq] at hnat
  obtain rfl | rfl | rfl := eq_of_isSpecial h
  · change 46 = _ at hnat
    omega
  · change 92 = _ at hnat
    omega
  · change 34 = _ at hnat
    omega

/-- The characters of labels, and the ends of labels. -/
def writtenSymbol : Option UInt8 → Octets
  | none => [dot]
  | some c => escaped c

theorem escaped_head (c : UInt8) (rest : Octets) : ∃ d more, escaped c ++ rest = d :: more ∧
    d ≠ dot := by
  obtain ⟨-, -, hc⟩ | ⟨-, hspecial, hc⟩ | ⟨-, hc⟩ := escaped_cases c
  · exact ⟨backslash, c :: rest, by rw [hc]; rfl, by decide⟩
  · exact ⟨c, rest, by rw [hc]; rfl, (ne_of_not_isSpecial hspecial).1⟩
  · exact ⟨backslash, _, by rw [hc]; rfl, by decide⟩

/-- No escaped character begins another one. -/
theorem escaped_append_inj {d : UInt8} {rest rest' : Octets}
    (h : escaped c ++ rest = escaped d ++ rest') : c = d := by
  obtain ⟨-, hspecial, hc⟩ | ⟨-, hspecial, hc⟩ | ⟨-, hc⟩ := escaped_cases c <;>
    obtain ⟨-, hspecial', hd⟩ | ⟨-, hspecial', hd⟩ | ⟨-, hd⟩ := escaped_cases d <;>
    rw [hc, hd] at h
  · exact (List.cons.inj (List.cons.inj h).2).1
  · exact absurd (List.cons.inj h).1.symm (ne_of_not_isSpecial hspecial').2
  · exact absurd (List.cons.inj (List.cons.inj h).2).1.symm (octal_digit_not_special d c hspecial)
  · exact absurd (List.cons.inj h).1 (ne_of_not_isSpecial hspecial).2
  · exact (List.cons.inj h).1
  · exact absurd (List.cons.inj h).1 (ne_of_not_isSpecial hspecial).2
  · exact absurd (List.cons.inj (List.cons.inj h).2).1 (octal_digit_not_special c d hspecial')
  · exact absurd (List.cons.inj h).1.symm (ne_of_not_isSpecial hspecial').2
  · exact octal_injective (List.append_inj_left h rfl)

theorem isPrefixCode_writtenSymbol : IsPrefixCode writtenSymbol Set.univ := by
  intro a _ b _ rest rest' h
  cases a with
  | none =>
    cases b with
    | none => rfl
    | some d =>
      obtain ⟨first, more, hfirst, hne⟩ := escaped_head d rest'
      rw [writtenSymbol, writtenSymbol, hfirst] at h
      exact absurd (List.cons.inj h).1.symm hne
  | some c =>
    cases b with
    | none =>
      obtain ⟨first, more, hfirst, hne⟩ := escaped_head c rest
      rw [writtenSymbol, writtenSymbol, hfirst] at h
      exact absurd (List.cons.inj h).1 hne
    | some d => exact congrArg some (escaped_append_inj h)

/-- The symbols of labels. -/
def nameSymbols (labels : List Octets) : List (Option UInt8) :=
  labels.flatMap fun label ↦ label.map some ++ [none]

theorem nameSymbols_injective : Function.Injective nameSymbols := by
  intro labels labels' h
  induction labels generalizing labels' with
  | nil =>
    cases labels' with
    | nil => rfl
    | cons label' labels' => simp [nameSymbols] at h
  | cons label labels ih =>
    cases labels' with
    | nil => simp [nameSymbols] at h
    | cons label' labels' =>
      have hcons (label : Octets) (labels : List Octets) :
          nameSymbols (label :: labels) = label.map some ++ none :: nameSymbols labels := by
        simp [nameSymbols]
      rw [hcons, hcons, append_cons_inj (by simp) (by simp)] at h
      rw [List.map_injective_iff.mpr (fun _ _ ↦ Option.some.inj) h.1, ih h.2]

theorem dotLabels_escapedLabels (labels : List Octets) :
    dotLabels (escapedLabels labels) = (nameSymbols labels).flatMap writtenSymbol := by
  induction labels with
  | nil => rfl
  | cons label labels ih =>
    rw [dotLabels_escapedLabels_cons, ih]
    simp [nameSymbols, List.flatMap_append, List.flatMap_map, writtenSymbol]

/-- The text of a name determines the name, whatever octets its labels have. -/
theorem text_injective {name name' : DomainName} (h : name.text = name'.text) :
    name.labels = name'.labels := by
  have hroot (name : DomainName) (hne : name.labels ≠ []) :
      dotLabels (escapedLabels name.labels) ≠ [dot] := by
    cases hlabels : name.labels with
    | nil => exact absurd hlabels hne
    | cons label labels =>
      have hlabel := name.isLabel label (hlabels ▸ List.mem_cons_self)
      cases label with
      | nil => exact absurd hlabel.1 (Nat.lt_irrefl 0)
      | cons c label =>
        rw [dotLabels_escapedLabels_cons, List.flatMap_cons, List.append_assoc]
        obtain ⟨first, more, hfirst, hdot⟩ := escaped_head c
          (label.flatMap escaped ++ ([dot] ++ dotLabels (escapedLabels labels)))
        rw [hfirst]
        exact fun heq ↦ hdot (List.cons.inj heq).1
  have hmap (labels : List Octets) : escapedLabels labels = [] ↔ labels = [] :=
    List.map_eq_nil_iff
  rw [DomainName.text, DomainName.text, dotted, dotted] at h
  by_cases hnil : name.labels = [] <;> by_cases hnil' : name'.labels = [] <;>
    simp only [hmap, hnil, hnil', if_true, if_false] at h
  · rw [hnil, hnil']
  · exact absurd h.symm (hroot name' hnil')
  · exact absurd h (hroot name hnil)
  · rw [dotLabels_escapedLabels, dotLabels_escapedLabels] at h
    apply nameSymbols_injective
    refine isPrefixCode_writtenSymbol.flatMap_inj ?_ (fun _ _ ↦ trivial) (fun _ _ ↦ trivial) h
    intro a _
    cases a with
    | none => simp [writtenSymbol]
    | some c =>
      obtain ⟨first, more, hfirst, -⟩ := escaped_head c []
      rw [List.append_nil] at hfirst
      simp [writtenSymbol, hfirst]

/-- `rhn2str` writes the whole text of a name if there is room for it and a zero octet. Otherwise it
fills the buffer with the beginning of the text and dots. -/
theorem rhn2str_rhn (name : DomainName) {size : ℕ} (hsize : 0 < size) :
    (name.text.length < size → rhn2str name.rhn size = some name.text) ∧
      (size ≤ name.text.length → ∃ dots, min 3 (size - 1) ≤ dots ∧ dots ≤ 4 ∧ dots < size ∧
        rhn2str name.rhn size =
          some (name.text.take (size - 1 - dots) ++ List.replicate dots dot)) := by
  rw [rhn2str, if_neg (by omega)]
  cases hlabels : name.labels with
  | nil =>
    have htext : name.text = [dot] := by
      rw [DomainName.text, hlabels]
      rfl
    have hhead : name.rhn.headD 0 = 0 := by
      rw [DomainName.rhn, hlabels]
      rfl
    rw [if_pos hhead, htext, List.length_singleton]
    constructor
    · intro hlt
      rw [if_pos (show 2 ≤ size from hlt)]
    · intro hle
      refine ⟨0, by omega, by omega, hsize, ?_⟩
      rw [if_neg (by omega), show size - 1 - 0 = 0 by omega]
      rfl
  | cons label labels =>
    have htext : name.text = [] ++ dotLabels (escapedLabels name.labels) := by
      rw [DomainName.text, hlabels]
      rfl
    have hhead : name.rhn.headD 0 ≠ 0 := by
      rw [DomainName.rhn, hlabels, encode_cons]
      exact length_ne_zero (name.isLabel label (hlabels ▸ List.mem_cons_self))
    have hwritten := writeLabels_encode name.isLabel (show ([] : Octets).length < size from hsize)
    rw [← htext] at hwritten
    rw [if_neg hhead]
    constructor
    · intro hlt
      rw [DomainName.rhn, hwritten.1 hlt]
    · intro hle
      obtain ⟨out, hout, htruncates⟩ := hwritten.2 hle
      obtain ⟨dots, hmin, hmax, hlt, hoverflow⟩ := overflow_eq htruncates hsize
      exact ⟨dots, hmin, hmax, hlt, by rw [DomainName.rhn, hout, ← hoverflow]⟩

/-- A buffer of `size + 1` octets gets the whole text of a name if this has at most `size` characters,
and just `size` characters that end in dots otherwise; the texts of different names differ. -/
theorem rhn2str_correct (name : DomainName) (size : ℕ) :
    (name.text.length ≤ size → rhn2str name.rhn (size + 1) = some name.text) ∧
      (size < name.text.length → ∃ dots, min 3 size ≤ dots ∧ dots ≤ 4 ∧ dots ≤ size ∧
        rhn2str name.rhn (size + 1) =
          some (name.text.take (size - dots) ++ List.replicate dots dot)) ∧
      ∀ name' : DomainName, name.text = name'.text → name.rhn = name'.rhn := by
  obtain ⟨hfits, htruncated⟩ := rhn2str_rhn name (Nat.succ_pos size)
  refine ⟨fun hle ↦ hfits (Nat.lt_succ_of_le hle), fun hlt ↦ ?_, fun name' htext ↦ ?_⟩
  · obtain ⟨dots, hmin, hmax, hdots, hwritten⟩ := htruncated hlt
    exact ⟨dots, hmin, hmax, Nat.le_of_lt_succ hdots, hwritten⟩
  · rw [DomainName.rhn, DomainName.rhn, text_injective htext]

/-- A character that `rhn2str` writes as it is. -/
def IsOrdinary (c : UInt8) : Prop := isgraph c = true ∧ c ≠ backslash ∧ c ≠ 34

theorem escaped_of_isOrdinary (h : IsOrdinary c) (hdot : c ≠ dot) : escaped c = [c] := by
  simp [escaped, h.1, isSpecial, h.2.1, h.2.2, hdot]

theorem flatMap_escaped (hfree : dot ∉ label) (h : ∀ c ∈ label, IsOrdinary c) :
    label.flatMap escaped = label := by
  induction label with
  | nil => rfl
  | cons c label ih =>
    have hc : c ≠ dot := fun heq ↦ hfree (heq ▸ List.mem_cons_self)
    rw [List.flatMap_cons, escaped_of_isOrdinary (h c List.mem_cons_self) hc,
      ih (fun hmem ↦ hfree (List.mem_cons_of_mem _ hmem))
        (fun c hmem ↦ h c (List.mem_cons_of_mem _ hmem))]
    rfl

/-- What `str2rhn` has read of ordinary characters, `rhn2str` writes back. -/
theorem rhn2str_str2rhn {rhn : Octets} {size : ℕ} (h : ∀ c ∈ str, IsOrdinary c)
    (hread : str2rhn str = some rhn) (hroom : str.length < size) : rhn2str rhn size = some str := by
  obtain ⟨name, hfree, rfl, rfl⟩ := (str2rhn_eq_some str rhn).mp hread
  have hlabels : escapedLabels name.labels = name.labels := by
    refine (List.map_congr_left fun label hmem ↦ ?_).trans (List.map_id' name.labels)
    refine flatMap_escaped (hfree label hmem) fun c hc ↦ h c ?_
    rw [dotted, if_neg (List.ne_nil_of_mem hmem)]
    exact List.mem_flatMap.mpr ⟨label, hmem, List.mem_append_left _ hc⟩
  have htext : name.text = dotted name.labels := by rw [DomainName.text, hlabels]
  rw [← htext] at hroom ⊢
  exact (rhn2str_rhn name (Nat.lt_of_le_of_lt (Nat.zero_le _) hroom)).1 hroom

theorem rhn2str_str2rhn_labels :
    rhn2str [3, 119, 45, 119, 2, 97, 95, 0] 16 = some [119, 45, 119, 46, 97, 95, 46] :=
  rhn2str_str2rhn (by simp [IsOrdinary, isgraph, backslash]) (by decide) (by decide)

end Orbot.Pdnsd
