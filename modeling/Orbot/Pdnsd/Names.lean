import Mathlib.Algebra.Group.Int.Defs
import Mathlib.Algebra.Group.Nat.Defs
import Mathlib.Data.List.Basic
import Mathlib.Tactic.Common

/-!
# Names in transport format

The DNS daemon of the VPN keeps a domain name as a message has it: every label comes after its
length, and a zero octet ends the name. The functions of `helpers.h` that walk along a name are
given the octets from the pointer on, and read zero octets where these end.
-/

namespace Orbot.Pdnsd

abbrev Octets := List UInt8

/-- The size of a buffer for a name. -/
def DNSNAMEBUFSIZE : ℕ := 256

/-- A label after its length. -/
def encodeLabel (label : Octets) : Octets := UInt8.ofNat label.length :: label

def encodeLabels (labels : List Octets) : Octets := labels.flatMap encodeLabel

/-- The transport format of a name. -/
def encode (labels : List Octets) : Octets := encodeLabels labels ++ [0]

/-- A length octet with the two high bits zero can give the length. -/
def IsLabel (label : Octets) : Prop := 0 < label.length ∧ label.length ≤ 63

/-- A name that fits into a buffer. -/
structure DomainName where
  labels : List Octets
  isLabel : ∀ label ∈ labels, IsLabel label
  length_le : (encode labels).length ≤ DNSNAMEBUFSIZE

/-- The octets of a name. -/
def DomainName.rhn (name : DomainName) : Octets := encode name.labels

/-- `tolower` of the C locale. -/
def tolower (c : UInt8) : UInt8 := if 65 ≤ c ∧ c ≤ 90 then c + 32 else c

/-- A text in lower case. -/
def foldCase (text : Octets) : Octets := text.map tolower

/-- The labels in lower case. -/
def foldLabels (labels : List Octets) : List Octets := labels.map foldCase

def rhnlen : Octets → ℕ
  | [] => 1
  | lb :: rest => if lb = 0 then 1 else 1 + lb.toNat + rhnlen (rest.drop lb.toNat)
termination_by rhn => rhn.length
decreasing_by simp only [List.length_drop, List.length_cons]; omega

/-- `skipsegs`: the name without its first `k` labels. -/
def skipsegs : Octets → ℕ → Octets
  | rhn, 0 => rhn
  | [], _ + 1 => []
  | lb :: rest, k + 1 => if lb = 0 then lb :: rest else skipsegs (rest.drop lb.toNat) k

def rhnsegcnt : Octets → ℕ
  | [] => 0
  | lb :: rest => if lb = 0 then 0 else 1 + rhnsegcnt (rest.drop lb.toNat)
termination_by rhn => rhn.length
decreasing_by simp only [List.length_drop, List.length_cons]; omega

/-- `rhnicmp`: the names are the same but for upper and lower case. -/
def rhnicmp : Octets → Octets → Bool
  | [], [] => true
  | [], lb' :: _ => lb' = 0
  | lb :: _, [] => lb = 0
  | lb :: rest, lb' :: rest' =>
      if lb ≠ lb' then false
      else if lb = 0 then true
      else if foldCase (rest.take lb.toNat) ≠ foldCase (rest'.take lb.toNat) then false
      else rhnicmp (rest.drop lb.toNat) (rest'.drop lb.toNat)
termination_by a => a.length
decreasing_by simp only [List.length_drop, List.length_cons]; omega

/-- The loop of `isnormalencdomname` over the octets that may be read. -/
def isNormalFrom : Octets → Bool
  | [] => false
  | lb :: rest =>
      if lb = 0 then true else if 0x3f < lb then false else isNormalFrom (rest.drop lb.toNat)
termination_by rhn => rhn.length
decreasing_by simp only [List.length_drop, List.length_cons]; omega

def isnormalencdomname (rhn : Octets) (maxlen : ℕ) : Bool :=
  isNormalFrom (rhn.take (min maxlen DNSNAMEBUFSIZE))

variable {label : Octets} {labels before after : List Octets} {rest : Octets}

theorem toNat_length (h : IsLabel label) : (UInt8.ofNat label.length).toNat = label.length := by
  have hle := h.2
  simp only [UInt8.toNat_ofNat']
  omega

theorem length_ne_zero (h : IsLabel label) : UInt8.ofNat label.length ≠ 0 := by
  intro hzero
  have hnat := congrArg UInt8.toNat hzero
  rw [toNat_length h] at hnat
  exact absurd hnat (Nat.ne_of_gt h.1)

theorem length_le_0x3f (h : IsLabel label) : ¬0x3f < UInt8.ofNat label.length := by
  rw [UInt8.lt_iff_toNat_lt, toNat_length h]
  exact Nat.not_lt.mpr h.2

@[simp] theorem encodeLabels_nil : encodeLabels [] = [] := rfl

@[simp] theorem encodeLabels_cons (label : Octets) (labels : List Octets) :
    encodeLabels (label :: labels) = encodeLabel label ++ encodeLabels labels := rfl

@[simp] theorem encodeLabels_append (before after : List Octets) :
    encodeLabels (before ++ after) = encodeLabels before ++ encodeLabels after :=
  List.flatMap_append

theorem encode_nil : encode [] = [0] := rfl

theorem encode_cons (label : Octets) (labels : List Octets) :
    encode (label :: labels) = UInt8.ofNat label.length :: (label ++ encode labels) := by
  simp [encode, encodeLabel]

theorem encode_append (before after : List Octets) :
    encode (before ++ after) = encodeLabels before ++ encode after := by
  simp [encode]

theorem length_encode (labels : List Octets) :
    (encode labels).length = (encodeLabels labels).length + 1 := by
  simp [encode]

/-- A label after the first octet of its encoding. -/
theorem drop_encode_cons (h : IsLabel label) :
    (label ++ rest).drop (UInt8.ofNat label.length).toNat = rest := by
  rw [toNat_length h, List.drop_left]

theorem take_encode_cons (h : IsLabel label) :
    (label ++ rest).take (UInt8.ofNat label.length).toNat = label := by
  rw [toNat_length h, List.take_left]

theorem rhnlen_encode (h : ∀ label ∈ labels, IsLabel label) (rest : Octets) :
    rhnlen (encode labels ++ rest) = (encode labels).length := by
  induction labels with
  | nil => simp [encode, rhnlen]
  | cons label labels ih =>
    have hlabel := h label List.mem_cons_self
    rw [encode_cons, List.cons_append, rhnlen, if_neg (length_ne_zero hlabel), List.append_assoc,
      drop_encode_cons hlabel, toNat_length hlabel,
      ih fun label hmem ↦ h label (List.mem_cons_of_mem _ hmem)]
    simp only [List.length_cons, List.length_append]
    omega

theorem rhnsegcnt_encode (h : ∀ label ∈ labels, IsLabel label) (rest : Octets) :
    rhnsegcnt (encode labels ++ rest) = labels.length := by
  induction labels with
  | nil => simp [encode, rhnsegcnt]
  | cons label labels ih =>
    have hlabel := h label List.mem_cons_self
    rw [encode_cons, List.cons_append, rhnsegcnt, if_neg (length_ne_zero hlabel),
      List.append_assoc, drop_encode_cons hlabel,
      ih fun label hmem ↦ h label (List.mem_cons_of_mem _ hmem), List.length_cons]
    omega

theorem skipsegs_encode (h : ∀ label ∈ before, IsLabel label) (after : List Octets)
    (rest : Octets) :
    skipsegs (encode (before ++ after) ++ rest) before.length = encode after ++ rest := by
  induction before with
  | nil => rfl
  | cons label before ih =>
    have hlabel := h label List.mem_cons_self
    rw [List.cons_append, encode_cons, List.cons_append, List.length_cons, skipsegs,
      if_neg (length_ne_zero hlabel), List.append_assoc, drop_encode_cons hlabel,
      ih fun label hmem ↦ h label (List.mem_cons_of_mem _ hmem)]

/-- Every label takes at least two octets. -/
theorem two_mul_length_le (h : ∀ label ∈ labels, IsLabel label) :
    2 * labels.length ≤ (encodeLabels labels).length := by
  induction labels with
  | nil => simp
  | cons label labels ih =>
    have hpos := (h label List.mem_cons_self).1
    have hle := ih fun label hmem ↦ h label (List.mem_cons_of_mem _ hmem)
    simp only [encodeLabels_cons, encodeLabel, List.length_append, List.length_cons]
    omega

/-- A name in a buffer has at most 127 labels. -/
theorem DomainName.length_labels_le (name : DomainName) : name.labels.length ≤ 127 := by
  have htwo := two_mul_length_le name.isLabel
  have hle := name.length_le
  rw [length_encode, DNSNAMEBUFSIZE] at hle
  omega

/-- Names that begin two equal texts are the same. -/
theorem encode_append_inj {labels' : List Octets} {rest' : Octets}
    (h : ∀ label ∈ labels, IsLabel label) (h' : ∀ label ∈ labels', IsLabel label)
    (heq : encode labels ++ rest = encode labels' ++ rest') :
    labels = labels' ∧ rest = rest' := by
  induction labels generalizing labels' with
  | nil =>
    cases labels' with
    | nil => exact ⟨rfl, by simpa [encode] using heq⟩
    | cons label' labels' =>
      rw [encode_cons] at heq
      have hhead : (0 : UInt8) = UInt8.ofNat label'.length := (List.cons.inj heq).1
      exact absurd hhead.symm (length_ne_zero (h' label' List.mem_cons_self))
  | cons label labels ih =>
    have hlabel := h label List.mem_cons_self
    cases labels' with
    | nil =>
      rw [encode_cons] at heq
      exact absurd (List.cons.inj heq).1 (length_ne_zero hlabel)
    | cons label' labels' =>
      have hlabel' := h' label' List.mem_cons_self
      rw [encode_cons, encode_cons] at heq
      rw [List.cons_append, List.cons_append] at heq
      obtain ⟨hhead, htail⟩ := List.cons.inj heq
      have hlength : label.length = label'.length := by
        rw [← toNat_length hlabel, hhead, toNat_length hlabel']
      rw [List.append_assoc, List.append_assoc] at htail
      obtain ⟨rfl, hrest⟩ := List.append_inj htail hlength
      obtain ⟨rfl, rfl⟩ := ih (fun label hmem ↦ h label (List.mem_cons_of_mem _ hmem))
        (fun label hmem ↦ h' label (List.mem_cons_of_mem _ hmem)) hrest
      exact ⟨rfl, rfl⟩

@[simp] theorem foldLabels_append (before after : List Octets) :
    foldLabels (before ++ after) = foldLabels before ++ foldLabels after := List.map_append

@[simp] theorem length_foldCase (text : Octets) : (foldCase text).length = text.length :=
  List.length_map _

@[simp] theorem length_foldLabels (labels : List Octets) :
    (foldLabels labels).length = labels.length := List.length_map _

/-- Names that are the same up to case take the same room. -/
theorem length_encodeLabels_foldLabels (labels : List Octets) :
    (encodeLabels (foldLabels labels)).length = (encodeLabels labels).length := by
  induction labels with
  | nil => rfl
  | cons label labels ih =>
    simp only [foldLabels, List.map_cons, encodeLabels_cons, encodeLabel, List.length_append,
      List.length_cons, length_foldCase] at ih ⊢
    omega

/-- `rhnicmp` compares the labels. -/
theorem rhnicmp_encode {labels' : List Octets} (h : ∀ label ∈ labels, IsLabel label)
    (h' : ∀ label ∈ labels', IsLabel label) (rest rest' : Octets) :
    rhnicmp (encode labels ++ rest) (encode labels' ++ rest') = true ↔
      foldLabels labels = foldLabels labels' := by
  induction labels generalizing labels' with
  | nil =>
    cases labels' with
    | nil => simp [encode, rhnicmp]
    | cons label' labels' =>
      have hne := length_ne_zero (h' label' List.mem_cons_self)
      simp [encode_cons, encode_nil, rhnicmp, foldLabels, hne.symm]
  | cons label labels ih =>
    have hlabel := h label List.mem_cons_self
    have hne := length_ne_zero hlabel
    cases labels' with
    | nil => simp [encode_cons, encode_nil, rhnicmp, foldLabels, hne]
    | cons label' labels' =>
      have hlabel' := h' label' List.mem_cons_self
      have ih' := @ih labels' (fun label hmem ↦ h label (List.mem_cons_of_mem _ hmem))
        (fun label hmem ↦ h' label (List.mem_cons_of_mem _ hmem))
      have hcons : foldLabels (label :: labels) = foldLabels (label' :: labels') ↔
          foldCase label = foldCase label' ∧ foldLabels labels = foldLabels labels' :=
        List.cons.injEq _ _ _ _ ▸ Iff.rfl
      have htake : (label' ++ (encode labels' ++ rest')).take (UInt8.ofNat label'.length).toNat =
          label' := take_encode_cons hlabel'
      have hdrop : (label' ++ (encode labels' ++ rest')).drop (UInt8.ofNat label'.length).toNat =
          encode labels' ++ rest' := drop_encode_cons hlabel'
      rw [hcons]
      simp only [encode_cons, List.cons_append, List.append_assoc, rhnicmp, if_neg hne]
      by_cases hlength : UInt8.ofNat label.length = UInt8.ofNat label'.length
      · rw [← hlength] at htake hdrop
        simp only [hlength, ne_eq, not_true_eq_false, if_false]
        simp only [← hlength, drop_encode_cons hlabel, take_encode_cons hlabel, htake, hdrop]
        by_cases hfold : foldCase label = foldCase label'
        · simp only [hfold, not_true_eq_false, if_false, true_and]
          exact ih'
        · simp [hfold]
      · have hfold : foldCase label ≠ foldCase label' := by
          intro hfold
          apply hlength
          rw [← length_foldCase label, hfold, length_foldCase]
        simp [hlength, hfold]

/-- What the loop accepts begins with a name. -/
theorem exists_of_isNormalFrom {rhn : Octets} (h : isNormalFrom rhn = true) :
    ∃ labels, (∀ label ∈ labels, IsLabel label) ∧ encode labels <+: rhn := by
  fun_induction isNormalFrom rhn with
  | case1 => cases h
  | case2 rest => exact ⟨[], by simp, by simp [encode]⟩
  | case3 => cases h
  | case4 lb rest hzero hle ih =>
    obtain ⟨labels, hlabels, hstart⟩ := ih h
    have hlb : 0 < lb.toNat ∧ lb.toNat ≤ 63 := by
      have hne : lb.toNat ≠ 0 := fun hnat ↦ hzero (UInt8.toNat_inj.mp hnat)
      rw [UInt8.lt_iff_toNat_lt] at hle
      exact ⟨Nat.pos_of_ne_zero hne, Nat.not_lt.mp hle⟩
    have hroom : lb.toNat ≤ rest.length := by
      have hlength := hstart.length_le
      rw [length_encode, List.length_drop] at hlength
      omega
    have htake : (rest.take lb.toNat).length = lb.toNat := List.length_take_of_le hroom
    refine ⟨rest.take lb.toNat :: labels, ?_, ?_⟩
    · intro label hmem
      cases hmem with
      | head => exact ⟨by omega, by omega⟩
      | tail _ hmem => exact hlabels label hmem
    · have hrest : rest.take lb.toNat ++ encode labels <+: rest := by
        conv_rhs => rw [← List.take_append_drop lb.toNat rest]
        exact (List.prefix_append_right_inj _).mpr hstart
      rw [encode_cons, htake, UInt8.ofNat_toNat]
      exact List.cons_prefix_cons.mpr ⟨rfl, hrest⟩

theorem isNormalFrom_encode (h : ∀ label ∈ labels, IsLabel label) (rest : Octets) :
    isNormalFrom (encode labels ++ rest) = true := by
  induction labels with
  | nil => simp [encode, isNormalFrom]
  | cons label labels ih =>
    have hlabel := h label List.mem_cons_self
    rw [encode_cons, List.cons_append, isNormalFrom, if_neg (length_ne_zero hlabel),
      if_neg (length_le_0x3f hlabel), List.append_assoc, drop_encode_cons hlabel]
    exact ih fun label hmem ↦ h label (List.mem_cons_of_mem _ hmem)

/-- `isnormalencdomname` accepts just the names that begin the octets and fit into them. -/
theorem isnormalencdomname_iff (rhn : Octets) (maxlen : ℕ) :
    isnormalencdomname rhn maxlen = true ↔
      ∃ name : DomainName, name.rhn <+: rhn ∧ name.rhn.length ≤ maxlen := by
  constructor
  · intro h
    obtain ⟨labels, hlabels, hstart⟩ := exists_of_isNormalFrom h
    have hlength := Nat.le_trans hstart.length_le (List.length_take_le _ _)
    exact ⟨⟨labels, hlabels, Nat.le_trans hlength (Nat.min_le_right _ _)⟩,
      hstart.trans (List.take_prefix _ _), Nat.le_trans hlength (Nat.min_le_left _ _)⟩
  · rintro ⟨name, hstart, hlength⟩
    have htake : name.rhn <+: rhn.take (min maxlen DNSNAMEBUFSIZE) :=
      List.prefix_take_iff.mpr ⟨hstart, Nat.le_min.mpr ⟨hlength, name.length_le⟩⟩
    obtain ⟨rest, hrest⟩ := htake
    rw [isnormalencdomname, ← hrest]
    exact isNormalFrom_encode name.isLabel rest

end Orbot.Pdnsd
