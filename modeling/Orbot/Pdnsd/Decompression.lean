import Orbot.Pdnsd.Names

/-!
# Decompression

A name in a message may end with a pointer to a later part of an earlier name. Offsets are those
from the beginning of the message. Every read and every write of `decompress_name` is checked, and
ends the call where the octet is outside the message or the buffer.
-/

namespace Orbot.Pdnsd

/-- The return codes of `dns.h` that decoding uses. -/
inductive ReturnCode where
  | RC_FORMAT
  | RC_TRUNC
  deriving DecidableEq

/-- How a call ends without a result. -/
inductive Stop where
  | code (rc : ReturnCode)
  | outside
  deriving DecidableEq

/-- The target of a pointer. -/
def pointerTarget (lb low : UInt8) : ℕ := (lb.toNat &&& 0x3f) <<< 8 ||| low.toNat

/-- The octets that `count` reads from an offset on, written behind `tgt`. -/
def copyOctets (msg tgt : Octets) (lptr count : ℕ) : Octets := tgt ++ (msg.drop lptr).take count

/-- A read of `count` octets or their writing is not possible. -/
def CopyFaults (msg tgt : Octets) (lptr count : ℕ) : Prop :=
  msg.length < lptr + count ∨ DNSNAMEBUFSIZE < tgt.length + count

instance (msg tgt : Octets) (lptr count : ℕ) : Decidable (CopyFaults msg tgt lptr count) :=
  inferInstanceAs (Decidable (_ ∨ _))

/-- The loop after the first pointer, which `hops` counts. -/
def jumped (msg : Octets) (lptr hops : ℕ) (tgt : Octets) : Except Stop Octets :=
  match msg[lptr]? with
  | none => .error .outside
  | some lb =>
    if 0x3f < lb then
      if lb < 0xc0 then .error (.code .RC_FORMAT)
      else if msg.length ≤ lptr + 1 then .error (.code .RC_FORMAT)
      else if 255 < hops + 1 then .error (.code .RC_FORMAT)
      else
        match msg[lptr + 1]? with
        | none => .error .outside
        | some low =>
          if msg.length ≤ pointerTarget lb low then .error (.code .RC_FORMAT)
          else jumped msg (pointerTarget lb low) (hops + 1) tgt
    else if DNSNAMEBUFSIZE ≤ tgt.length then .error .outside
    else if lb = 0 then .ok (tgt ++ [0])
    else if msg.length ≤ lptr + 1 + lb.toNat then .error (.code .RC_FORMAT)
    else if DNSNAMEBUFSIZE - 1 < tgt.length + 1 + lb.toNat then .error (.code .RC_FORMAT)
    else if CopyFaults msg (tgt ++ [lb]) (lptr + 1) lb.toNat then .error .outside
    else jumped msg (lptr + 1 + lb.toNat) hops (copyOctets msg (tgt ++ [lb]) (lptr + 1) lb.toNat)
termination_by (255 - hops) + (DNSNAMEBUFSIZE - tgt.length)
decreasing_by
  · omega
  · simp only [copyOctets, List.length_append, List.length_cons, List.length_nil]
    omega

/-- The loop before the first pointer, with what is left of the data. -/
def decompressFrom (msg : Octets) (lptr newsz : ℕ) (tgt : Octets) : Except Stop (Octets × ℕ) :=
  match msg[lptr]? with
  | none => .error .outside
  | some lb =>
    if 0x3f < lb then
      if lb < 0xc0 then .error (.code .RC_FORMAT)
      else if newsz - 1 = 0 then .error (.code .RC_TRUNC)
      else if msg.length ≤ lptr + 1 then .error (.code .RC_FORMAT)
      else
        match msg[lptr + 1]? with
        | none => .error .outside
        | some low =>
          if msg.length ≤ pointerTarget lb low then .error (.code .RC_FORMAT)
          else (jumped msg (pointerTarget lb low) 1 tgt).map fun tgt ↦ (tgt, newsz - 2)
    else if DNSNAMEBUFSIZE ≤ tgt.length then .error .outside
    else if lb = 0 then .ok (tgt ++ [0], newsz - 1)
    else if newsz - 1 ≤ lb.toNat then .error (.code .RC_TRUNC)
    else if msg.length ≤ lptr + 1 + lb.toNat then .error (.code .RC_FORMAT)
    else if DNSNAMEBUFSIZE - 1 < tgt.length + 1 + lb.toNat then .error (.code .RC_FORMAT)
    else if CopyFaults msg (tgt ++ [lb]) (lptr + 1) lb.toNat then .error .outside
    else
      decompressFrom msg (lptr + 1 + lb.toNat) (newsz - 1 - lb.toNat)
        (copyOctets msg (tgt ++ [lb]) (lptr + 1) lb.toNat)
termination_by DNSNAMEBUFSIZE - tgt.length
decreasing_by
  simp only [copyOctets, List.length_append, List.length_cons, List.length_nil]
  omega

/-- What `decompress_name` returns: the name, its length, and the data after it. -/
structure Decompressed where
  tgt : Octets
  src : ℕ
  sz : ℕ
  deriving DecidableEq

/-- `decompress_name` for a name at the offset `src`, in data of `sz` octets. -/
def decompressName (msg : Octets) (src sz : ℕ) : Except Stop Decompressed :=
  if sz = 0 then .error (.code .RC_TRUNC)
  else if msg.length ≤ src then .error (.code .RC_FORMAT)
  else
    (decompressFrom msg src sz []).map fun result ↦ ⟨result.1, src + (sz - result.2), result.2⟩

/-- The labels that stand at an offset of a message: there are `hops` pointers on the way, and the
name takes `size` octets where it stands. -/
inductive NameAt (msg : Octets) : ℕ → List Octets → ℕ → ℕ → Prop
  | root {lptr : ℕ} (h : msg[lptr]? = some 0) : NameAt msg lptr [] 0 1
  | label {lptr : ℕ} {label : Octets} {labels : List Octets} {hops size : ℕ} (hlabel : IsLabel label)
      (h : encodeLabel label <+: msg.drop lptr)
      (hrest : NameAt msg (lptr + 1 + label.length) labels hops size) :
      NameAt msg lptr (label :: labels) hops (1 + label.length + size)
  | pointer {lptr : ℕ} {lb low : UInt8} {labels : List Octets} {hops size : ℕ} (hlb : 0xc0 ≤ lb)
      (h : [lb, low] <+: msg.drop lptr) (hrest : NameAt msg (pointerTarget lb low) labels hops size) :
      NameAt msg lptr labels (hops + 1) 2

variable {msg tgt : Octets} {lptr hops size newsz : ℕ} {label : Octets} {labels : List Octets}

/-- A label that stands in a message is what is copied from it. -/
theorem drop_take_of_label (h : encodeLabel label <+: msg.drop lptr) :
    msg[lptr]? = some (UInt8.ofNat label.length) ∧
      (msg.drop (lptr + 1)).take label.length = label := by
  obtain ⟨rest, hrest⟩ := h
  have hhead : (msg.drop lptr)[0]? = some (UInt8.ofNat label.length) := by
    rw [← hrest, encodeLabel, List.cons_append, List.getElem?_cons_zero]
  have htail : msg.drop (lptr + 1) = label ++ rest := by
    rw [← List.tail_drop, ← hrest, encodeLabel, List.cons_append, List.tail_cons]
  rw [List.getElem?_drop, Nat.add_zero] at hhead
  exact ⟨hhead, by rw [htail, List.take_left]⟩

theorem label_of_drop_take {lb : UInt8} (hlb : msg[lptr]? = some lb)
    (hroom : lptr + 1 + lb.toNat ≤ msg.length) :
    ((msg.drop (lptr + 1)).take lb.toNat).length = lb.toNat ∧
      encodeLabel ((msg.drop (lptr + 1)).take lb.toNat) <+: msg.drop lptr := by
  have hlength : ((msg.drop (lptr + 1)).take lb.toNat).length = lb.toNat := by
    rw [List.length_take, List.length_drop]
    omega
  obtain ⟨hlt, rfl⟩ := List.getElem?_eq_some_iff.mp hlb
  refine ⟨hlength, ?_⟩
  rw [encodeLabel, hlength, UInt8.ofNat_toNat, List.drop_eq_getElem_cons hlt]
  exact List.cons_prefix_cons.mpr ⟨rfl, List.take_prefix _ _⟩

theorem isLabel_of_lb {lb : UInt8} (hle : ¬0x3f < lb) (hzero : lb ≠ 0)
    (hlength : label.length = lb.toNat) : IsLabel label := by
  have hne : lb.toNat ≠ 0 := fun hnat ↦ hzero (UInt8.toNat_inj.mp hnat)
  rw [UInt8.lt_iff_toNat_lt] at hle
  exact ⟨by omega, by rw [hlength]; exact Nat.not_lt.mp hle⟩

theorem NameAt.isLabel (h : NameAt msg lptr labels hops size) :
    ∀ label ∈ labels, IsLabel label := by
  induction h with
  | root => simp
  | label hlabel _ _ ih => exact List.forall_mem_cons.mpr ⟨hlabel, ih⟩
  | pointer _ _ _ ih => exact ih

theorem NameAt.size_pos (h : NameAt msg lptr labels hops size) : 0 < size := by
  cases h <;> omega

/-- A name lies within its message. -/
theorem NameAt.add_size_le (h : NameAt msg lptr labels hops size) :
    lptr + size ≤ msg.length := by
  induction h with
  | root h =>
    have hlt := (List.getElem?_eq_some_iff.mp h).1
    omega
  | label _ _ _ ih => omega
  | pointer _ h _ _ =>
    have hlength := h.length_le
    simp only [List.length_cons, List.length_nil, List.length_drop] at hlength
    omega

/-- A name stays where it is when the message grows. -/
theorem NameAt.append (h : NameAt msg lptr labels hops size) (more : Octets) :
    NameAt (msg ++ more) lptr labels hops size := by
  have hdrop (i : ℕ) : msg.drop i <+: (msg ++ more).drop i := by
    rw [List.drop_append]
    exact List.prefix_append _ _
  induction h with
  | root h =>
    apply NameAt.root
    rw [List.getElem?_append_left (List.getElem?_eq_some_iff.mp h).1, h]
  | label hlabel h _ ih => exact .label hlabel (h.trans (hdrop _)) ih
  | pointer hlb h _ ih => exact .pointer hlb (h.trans (hdrop _)) ih

/-- The two octets of a pointer. -/
theorem getElem?_of_pointer {lb low : UInt8} (h : [lb, low] <+: msg.drop lptr) :
    msg[lptr]? = some lb ∧ msg[lptr + 1]? = some low := by
  obtain ⟨rest, hrest⟩ := h
  have hfirst : (msg.drop lptr)[0]? = some lb := by rw [← hrest]; rfl
  have hsecond : (msg.drop lptr)[1]? = some low := by rw [← hrest]; rfl
  rw [List.getElem?_drop] at hfirst hsecond
  exact ⟨hfirst, hsecond⟩

theorem pointer_of_getElem? {lb low : UInt8} (hlb : msg[lptr]? = some lb)
    (hlow : msg[lptr + 1]? = some low) : [lb, low] <+: msg.drop lptr := by
  obtain ⟨hlt, rfl⟩ := List.getElem?_eq_some_iff.mp hlb
  obtain ⟨hlt', rfl⟩ := List.getElem?_eq_some_iff.mp hlow
  rw [List.drop_eq_getElem_cons hlt, List.drop_eq_getElem_cons hlt']
  exact ⟨_, rfl⟩

theorem not_lt_0xc0 {lb : UInt8} (h : 0xc0 ≤ lb) : 0x3f < lb ∧ ¬lb < 0xc0 := by
  rw [UInt8.le_iff_toNat_le] at h
  rw [UInt8.lt_iff_toNat_lt, UInt8.lt_iff_toNat_lt]
  exact ⟨Nat.lt_of_lt_of_le (by decide) h, Nat.not_lt.mpr h⟩

/-- A label that both loops copy. -/
theorem exists_copied_label {lb : UInt8} (hlb : msg[lptr]? = some lb) (hle : ¬0x3f < lb)
    (hzero : lb ≠ 0) (h : ¬CopyFaults msg (tgt ++ [lb]) (lptr + 1) lb.toNat) :
    ∃ label, IsLabel label ∧ label.length = lb.toNat ∧ encodeLabel label <+: msg.drop lptr ∧
      copyOctets msg (tgt ++ [lb]) (lptr + 1) lb.toNat = tgt ++ encodeLabel label := by
  rw [CopyFaults, not_or] at h
  obtain ⟨hlength, hlabel⟩ := label_of_drop_take hlb (Nat.not_lt.mp h.1)
  refine ⟨_, isLabel_of_lb hle hzero hlength, hlength, hlabel, ?_⟩
  rw [encodeLabel, hlength, UInt8.ofNat_toNat, copyOctets, List.append_assoc,
    List.singleton_append]

/-- What the loop after a pointer writes is a name that stands at the offset. -/
theorem nameAt_of_jumped {out : Octets} (h : jumped msg lptr hops tgt = .ok out)
    (hhops : hops ≤ 255) :
    ∃ labels more size, NameAt msg lptr labels more size ∧ hops + more ≤ 255 ∧
      tgt.length + (encode labels).length ≤ DNSNAMEBUFSIZE ∧ out = tgt ++ encode labels := by
  fun_induction jumped msg lptr hops tgt with
  | case7 lptr hops tgt lb hlb hhigh hlow hroom hmore low hread hinside ih =>
    obtain ⟨labels, more, size, hname, hle, hlength, rfl⟩ := ih h (by omega)
    have hpointer := pointer_of_getElem? hlb hread
    exact ⟨labels, more + 1, 2, .pointer (UInt8.not_lt.mp hlow) hpointer hname, by omega, hlength,
      rfl⟩
  | case9 lptr hops tgt hroom hread =>
    obtain rfl := Except.ok.inj h
    refine ⟨[], 0, 1, .root hread, hhops, ?_, rfl⟩
    simp only [encode_nil, List.length_cons, List.length_nil]
    omega
  | case13 lptr hops tgt lb hread hle hroom hzero hinside hfits hfault ih =>
    obtain ⟨label, hlabel, hlb, hstart, hcopy⟩ := exists_copied_label hread hle hzero hfault
    rw [hcopy, ← hlb] at ih
    rw [hcopy, ← hlb] at h
    obtain ⟨labels, more, size, hname, hmore, hlength, rfl⟩ := ih h hhops
    refine ⟨label :: labels, more, _, .label hlabel hstart hname, hmore, ?_, ?_⟩
    · simpa [encode_cons, encodeLabel, Nat.add_assoc, Nat.add_comm, Nat.add_left_comm] using hlength
    · simp [encode_cons, encodeLabel]
  | case1 | case2 | case3 | case4 | case5 | case6 | case8 | case10 | case11 | case12 => cases h

/-- Both loops copy a label that stands in the message and fits into the buffer. -/
theorem copied_label (h : encodeLabel label <+: msg.drop lptr)
    (hinside : lptr + 1 + label.length < msg.length)
    (hfits : tgt.length + 1 + label.length < DNSNAMEBUFSIZE) :
    ¬CopyFaults msg (tgt ++ [UInt8.ofNat label.length]) (lptr + 1) label.length ∧
      copyOctets msg (tgt ++ [UInt8.ofNat label.length]) (lptr + 1) label.length =
        tgt ++ encodeLabel label := by
  constructor
  · rw [CopyFaults, List.length_append, List.length_singleton, not_or]
    omega
  · rw [copyOctets, (drop_take_of_label h).2, List.append_assoc, encodeLabel,
      List.singleton_append]

theorem jumped_label (h : encodeLabel label <+: msg.drop lptr) (hlabel : IsLabel label)
    (hinside : lptr + 1 + label.length < msg.length)
    (hfits : tgt.length + 1 + label.length < DNSNAMEBUFSIZE) :
    jumped msg lptr hops tgt =
      jumped msg (lptr + 1 + label.length) hops (tgt ++ encodeLabel label) := by
  have hcopied := copied_label h hinside hfits
  rw [jumped, (drop_take_of_label h).1]
  simp only [if_neg (length_le_0x3f hlabel), if_neg (length_ne_zero hlabel), toNat_length hlabel]
  rw [if_neg (by omega), if_neg (by omega), if_neg (by omega), if_neg hcopied.1, hcopied.2]

theorem jumped_pointer {lb low : UInt8} (hlb : 0xc0 ≤ lb) (h : [lb, low] <+: msg.drop lptr)
    (hinside : pointerTarget lb low < msg.length) (hhops : hops + 1 ≤ 255) :
    jumped msg lptr hops tgt = jumped msg (pointerTarget lb low) (hops + 1) tgt := by
  obtain ⟨hfirst, hsecond⟩ := getElem?_of_pointer h
  have hroom : ¬msg.length ≤ lptr + 1 :=
    Nat.not_le.mpr (List.getElem?_eq_some_iff.mp hsecond).1
  rw [jumped, hfirst]
  simp only [if_pos (not_lt_0xc0 hlb).1, if_neg (not_lt_0xc0 hlb).2, if_neg hroom, hsecond,
    if_neg (Nat.not_le.mpr hinside), if_neg (Nat.not_lt.mpr hhops)]

/-- The loop after a pointer reads a name with few enough pointers that fits into the buffer. -/
theorem jumped_of_nameAt (h : NameAt msg lptr labels hops size) {before : ℕ}
    (hhops : before + hops ≤ 255)
    (hlength : tgt.length + (encode labels).length ≤ DNSNAMEBUFSIZE) :
    jumped msg lptr before tgt = .ok (tgt ++ encode labels) := by
  induction h generalizing before tgt with
  | root h =>
    simp only [encode_nil, List.length_cons, List.length_nil] at hlength
    rw [jumped, h]
    simp only [if_neg (show ¬(0x3f : UInt8) < 0 by decide), if_true, encode_nil]
    rw [if_neg (by omega)]
  | @label lptr label labels hops size hlabel h hrest ih =>
    have hinside := hrest.add_size_le
    have hpos := hrest.size_pos
    simp only [encode_cons, List.length_cons, List.length_append, length_encode] at hlength
    rw [jumped_label h hlabel (by omega) (by omega), ih hhops ?_]
    · simp [encode_cons, encodeLabel]
    · simp only [encodeLabel, List.length_append, List.length_cons, length_encode]
      omega
  | pointer hlb h hrest ih =>
    have hinside := hrest.add_size_le
    have hpos := hrest.size_pos
    rw [jumped_pointer hlb h (by omega) (by omega)]
    exact ih (by omega) hlength

/-- What the loop before a pointer writes is a name that stands at the offset. -/
theorem nameAt_of_decompressFrom {out : Octets} {left : ℕ}
    (h : decompressFrom msg lptr newsz tgt = .ok (out, left)) (hnewsz : 0 < newsz) :
    ∃ labels hops size, NameAt msg lptr labels hops size ∧ hops ≤ 255 ∧ size ≤ newsz ∧
      tgt.length + (encode labels).length ≤ DNSNAMEBUFSIZE ∧ out = tgt ++ encode labels ∧
      left = newsz - size := by
  fun_induction decompressFrom msg lptr newsz tgt with
  | case7 lptr newsz tgt lb hlb hhigh hlow hroom hinside low hread htarget =>
    obtain ⟨out', hjumped, heq⟩ : ∃ out', jumped msg (pointerTarget lb low) 1 tgt = .ok out' ∧
        (out', newsz - 2) = (out, left) := by
      cases hresult : jumped msg (pointerTarget lb low) 1 tgt with
      | error stop => rw [hresult] at h; cases h
      | ok out' => rw [hresult] at h; exact ⟨out', rfl, Except.ok.inj h⟩
    obtain ⟨rfl, rfl⟩ := Prod.mk.inj heq
    obtain ⟨labels, more, size, hname, hmore, hlength, rfl⟩ :=
      nameAt_of_jumped hjumped (by omega)
    have hpointer := pointer_of_getElem? hlb hread
    exact ⟨labels, more + 1, 2, .pointer (UInt8.not_lt.mp hlow) hpointer hname, by omega, by omega,
      hlength, rfl, rfl⟩
  | case9 lptr newsz tgt hroom hread =>
    obtain ⟨rfl, rfl⟩ := Prod.mk.inj (Except.ok.inj h)
    refine ⟨[], 0, 1, .root hread, by omega, hnewsz, ?_, rfl, rfl⟩
    simp only [encode_nil, List.length_cons, List.length_nil]
    omega
  | case14 lptr newsz tgt lb hread hle hroom hzero hdata hinside hfits hfault ih =>
    obtain ⟨label, hlabel, hlb, hstart, hcopy⟩ := exists_copied_label hread hle hzero hfault
    rw [hcopy, ← hlb] at ih
    rw [hcopy, ← hlb] at h
    obtain ⟨labels, more, size, hname, hmore, hsize, hlength, rfl, rfl⟩ := ih h (by omega)
    refine ⟨label :: labels, more, _, .label hlabel hstart hname, hmore, by omega, ?_, ?_, by omega⟩
    · simpa [encode_cons, encodeLabel, Nat.add_assoc, Nat.add_comm, Nat.add_left_comm] using hlength
    · simp [encode_cons, encodeLabel]
  | _ => cases h

theorem decompressFrom_label (h : encodeLabel label <+: msg.drop lptr) (hlabel : IsLabel label)
    (hinside : lptr + 1 + label.length < msg.length)
    (hfits : tgt.length + 1 + label.length < DNSNAMEBUFSIZE) (hdata : label.length < newsz - 1) :
    decompressFrom msg lptr newsz tgt =
      decompressFrom msg (lptr + 1 + label.length) (newsz - 1 - label.length)
        (tgt ++ encodeLabel label) := by
  have hcopied := copied_label h hinside hfits
  rw [decompressFrom, (drop_take_of_label h).1]
  simp only [if_neg (length_le_0x3f hlabel), if_neg (length_ne_zero hlabel), toNat_length hlabel]
  rw [if_neg (by omega), if_neg (by omega), if_neg (by omega), if_neg (by omega),
    if_neg hcopied.1, hcopied.2]

theorem decompressFrom_pointer {lb low : UInt8} (hlb : 0xc0 ≤ lb)
    (h : [lb, low] <+: msg.drop lptr) (hinside : pointerTarget lb low < msg.length)
    (hdata : 2 ≤ newsz) :
    decompressFrom msg lptr newsz tgt =
      (jumped msg (pointerTarget lb low) 1 tgt).map fun tgt ↦ (tgt, newsz - 2) := by
  obtain ⟨hfirst, hsecond⟩ := getElem?_of_pointer h
  have hroom : ¬msg.length ≤ lptr + 1 :=
    Nat.not_le.mpr (List.getElem?_eq_some_iff.mp hsecond).1
  have hleft : ¬newsz - 1 = 0 := by omega
  rw [decompressFrom, hfirst]
  simp only [if_pos (not_lt_0xc0 hlb).1, if_neg (not_lt_0xc0 hlb).2, if_neg hroom, hsecond,
    if_neg (Nat.not_le.mpr hinside), if_neg hleft]

/-- The loop before a pointer reads a name that lies in the data and fits into the buffer. -/
theorem decompressFrom_of_nameAt (h : NameAt msg lptr labels hops size) (hhops : hops ≤ 255)
    (hsize : size ≤ newsz) (hlength : tgt.length + (encode labels).length ≤ DNSNAMEBUFSIZE) :
    decompressFrom msg lptr newsz tgt = .ok (tgt ++ encode labels, newsz - size) := by
  induction h generalizing newsz tgt with
  | root h =>
    simp only [encode_nil, List.length_cons, List.length_nil] at hlength
    rw [decompressFrom, h]
    simp only [if_neg (show ¬(0x3f : UInt8) < 0 by decide), if_true, encode_nil]
    rw [if_neg (by omega)]
  | @label lptr label labels hops size hlabel h hrest ih =>
    have hinside := hrest.add_size_le
    have hpos := hrest.size_pos
    simp only [encode_cons, List.length_cons, List.length_append, length_encode] at hlength
    rw [decompressFrom_label h hlabel (by omega) (by omega) (by omega),
      ih hhops (by omega) ?_]
    · simp [encode_cons, encodeLabel, Nat.sub_sub]
    · simp only [encodeLabel, List.length_append, List.length_cons, length_encode]
      omega
  | pointer hlb h hrest ih =>
    have hinside := hrest.add_size_le
    have hpos := hrest.size_pos
    rw [decompressFrom_pointer hlb h (by omega) hsize,
      jumped_of_nameAt hrest (by omega) hlength]
    rfl

/-- `decompress_name` returns the names that stand in the data, fit into the buffer and have no more
than 255 pointers. -/
theorem decompressName_eq_ok {src sz : ℕ} {result : Decompressed} :
    decompressName msg src sz = .ok result ↔
      ∃ (name : DomainName) (hops size : ℕ), NameAt msg src name.labels hops size ∧ hops ≤ 255 ∧
        size ≤ sz ∧ result = ⟨name.rhn, src + size, sz - size⟩ := by
  constructor
  · intro h
    rw [decompressName] at h
    split at h
    · cases h
    split at h
    · cases h
    next hsz hinside =>
      cases hfrom : decompressFrom msg src sz [] with
      | error stop => rw [hfrom] at h; cases h
      | ok found =>
        obtain ⟨out, left⟩ := found
        obtain ⟨labels, hops, size, hname, hhops, hsize, hlength, rfl, rfl⟩ :=
          nameAt_of_decompressFrom hfrom (Nat.pos_of_ne_zero hsz)
        rw [List.length_nil, Nat.zero_add] at hlength
        refine ⟨⟨labels, hname.isLabel, hlength⟩, hops, size, hname, hhops, hsize, ?_⟩
        rw [hfrom] at h
        rw [← Except.ok.inj h]
        simp [DomainName.rhn, Nat.sub_sub_self hsize]
  · rintro ⟨name, hops, size, hname, hhops, hsize, rfl⟩
    have hinside := hname.add_size_le
    have hpos := hname.size_pos
    have hlength : ([] : Octets).length + (encode name.labels).length ≤ DNSNAMEBUFSIZE := by
      rw [List.length_nil, Nat.zero_add]
      exact name.length_le
    rw [decompressName, if_neg (by omega), if_neg (by omega),
      decompressFrom_of_nameAt hname hhops hsize hlength]
    simp [Except.map, DomainName.rhn, Nat.sub_sub_self hsize]

theorem map_ne_outside {α β : Type} {call : Except Stop α} (h : call ≠ .error .outside)
    (f : α → β) : call.map f ≠ .error .outside := by
  cases call with
  | error stop => simpa [Except.map] using h
  | ok value => simp [Except.map]

/-- The loop after a pointer stays inside the message and the buffer. -/
theorem jumped_ne_outside (hlptr : lptr < msg.length) (htgt : tgt.length < DNSNAMEBUFSIZE) :
    jumped msg lptr hops tgt ≠ .error .outside := by
  fun_induction jumped msg lptr hops tgt with
  | case7 lptr hops tgt lb hlb hhigh hlow hroom hmore low hread hinside ih =>
    exact ih (Nat.not_le.mp hinside) htgt
  | case13 lptr hops tgt lb hread hle hroom hzero hinside hfits hfault ih =>
    refine ih (Nat.not_le.mp hinside) ?_
    rw [CopyFaults, not_or, List.length_append, List.length_singleton] at hfault
    simp only [copyOctets, List.length_append, List.length_take, List.length_drop,
      List.length_singleton]
    omega
  | case1 lptr hops tgt hread =>
    exact absurd (List.getElem?_eq_none_iff.mp hread) (Nat.not_le.mpr hlptr)
  | case5 lptr hops tgt lb hlb hhigh hlow hroom hmore hread =>
    exact absurd (List.getElem?_eq_none_iff.mp hread) hroom
  | case8 lptr hops tgt lb hread hle hroom => exact absurd hroom (Nat.not_le.mpr htgt)
  | case12 lptr hops tgt lb hread hle hroom hzero hinside hfits hfault =>
    rw [CopyFaults, List.length_append, List.length_singleton] at hfault
    omega
  | _ => simp

theorem decompressFrom_ne_outside (hlptr : lptr < msg.length)
    (htgt : tgt.length < DNSNAMEBUFSIZE) :
    decompressFrom msg lptr newsz tgt ≠ .error .outside := by
  fun_induction decompressFrom msg lptr newsz tgt with
  | case7 lptr newsz tgt lb hlb hhigh hlow hdata hroom low hread hinside =>
    exact map_ne_outside (jumped_ne_outside (Nat.not_le.mp hinside) htgt) _
  | case14 lptr newsz tgt lb hread hle hroom hzero hdata hinside hfits hfault ih =>
    refine ih (Nat.not_le.mp hinside) ?_
    rw [CopyFaults, not_or, List.length_append, List.length_singleton] at hfault
    simp only [copyOctets, List.length_append, List.length_take, List.length_drop,
      List.length_singleton]
    omega
  | case1 lptr newsz tgt hread =>
    exact absurd (List.getElem?_eq_none_iff.mp hread) (Nat.not_le.mpr hlptr)
  | case5 lptr newsz tgt lb hlb hhigh hlow hdata hroom hread =>
    exact absurd (List.getElem?_eq_none_iff.mp hread) hroom
  | case8 lptr newsz tgt lb hread hle hroom => exact absurd hroom (Nat.not_le.mpr htgt)
  | case13 lptr newsz tgt lb hread hle hroom hzero hdata hinside hfits hfault =>
    rw [CopyFaults, List.length_append, List.length_singleton] at hfault
    omega
  | _ => simp

theorem decompressName_ne_outside (msg : Octets) (src sz : ℕ) :
    decompressName msg src sz ≠ .error .outside := by
  rw [decompressName]
  split
  · simp
  split
  · simp
  next hinside =>
    exact map_ne_outside (decompressFrom_ne_outside (Nat.not_le.mp hinside) (by decide)) _

/-- No message makes `decompress_name` read outside the message or write outside the buffer. It
returns just the names that stand in the data, fit into the buffer and take no more than 255
pointers, and the data after them. -/
theorem decompressName_correct (msg : Octets) (src sz : ℕ) :
    decompressName msg src sz ≠ .error .outside ∧
      ∀ result, decompressName msg src sz = .ok result ↔
        ∃ (name : DomainName) (hops size : ℕ), NameAt msg src name.labels hops size ∧
          hops ≤ 255 ∧ size ≤ sz ∧ result = ⟨name.rhn, src + size, sz - size⟩ :=
  ⟨decompressName_ne_outside msg src sz, fun _ ↦ decompressName_eq_ok⟩

end Orbot.Pdnsd
