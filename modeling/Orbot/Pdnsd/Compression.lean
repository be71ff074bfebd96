import Orbot.Foundation.CommonSuffix
import Orbot.Pdnsd.Decompression

/-!
# Compression

A response names most domains several times. `compress_name` writes the first labels of a name and
a pointer to the longest suffix that stands in the message already; a list keeps the names that were
written before. A failed assertion, which ends the daemon, is none.
-/

namespace Orbot.Pdnsd

open Orbot.Foundation

/-- The length octets of a name and their number of octets with the labels; there is room for 128
of them. -/
def collectLengths : Octets → ℕ → Option (List UInt8 × ℕ)
  | [], _ => some ([], 0)
  | lb :: rest, ns =>
      if lb = 0 then some ([], 0)
      else if ns < 128 then
        (collectLengths (rest.drop lb.toNat) (ns + 1)).map fun result ↦
          (lb :: result.1, lb.toNat + 1 + result.2)
      else none
termination_by rhn => rhn.length
decreasing_by simp only [List.length_drop, List.length_cons]; omega

/-- A match of two names: the number of labels, and its offset in either name. -/
structure DomainMatch where
  count : ℕ
  offs : ℕ
  offd : ℕ
  deriving DecidableEq

/-- The loop over the labels from the last one on; `i` and `j` are the offsets behind them. -/
def matchBack (ms md : Octets) : ℕ → ℕ → List UInt8 → List UInt8 → DomainMatch
  | i, j, lb :: ls, lb' :: ld =>
      if lb ≠ lb' then ⟨0, i, j⟩
      else if foldCase ((ms.drop (i - lb.toNat)).take lb.toNat) ≠
          foldCase ((md.drop (j - lb.toNat)).take lb.toNat) then ⟨0, i, j⟩
      else
        let later := matchBack ms md (i - lb.toNat - 1) (j - lb.toNat - 1) ls ld
        { later with count := later.count + 1 }
  | i, j, _, _ => ⟨0, i, j⟩

def domainMatch (ms md : Octets) : Option DomainMatch :=
  (collectLengths ms 0).bind fun s ↦
    (collectLengths md 0).map fun d ↦ matchBack ms md s.2 d.2 s.1.reverse d.1.reverse

/-- An element of the compression buffer: a name, and its offset in the message. -/
structure Compel where
  index : ℕ
  s : Octets
  deriving DecidableEq

/-- The longest match so far: its number of labels, the length of what comes before it, and the
offset where it stands. -/
structure LongestMatch where
  longest : ℕ
  lrem : ℕ
  coffs : ℕ
  deriving DecidableEq

/-- The body of the loop of `compress_name`. -/
def betterMatch (input : Octets) (best : LongestMatch) (ci : Compel) : Option LongestMatch :=
  (domainMatch input ci.s).map fun found ↦
    if best.longest < found.count then
      if ci.index + found.offd ≤ 0x3fff then ⟨found.count, found.offs, ci.index + found.offd⟩
      else best
    else best

/-- The two octets of a pointer. -/
def pointerTo (coffs : ℕ) : Octets :=
  [UInt8.ofNat (0xc0 ||| (coffs &&& 0x3f00) >>> 8), UInt8.ofNat (coffs &&& 0xff)]

/-- `compress_name`: what is written at `offs`, and the compression buffer. -/
def compressName (input : Octets) (offs : ℕ) (cb : List Compel) : Option (Octets × List Compel) :=
  let ilen := rhnlen input
  if DNSNAMEBUFSIZE < ilen then none
  else
    (cb.foldlM (betterMatch input) ⟨0, 0, 0⟩).bind fun best ↦
      let entry : Compel := ⟨offs, input.take ilen⟩
      if 0 < best.longest then
        if ilen < best.lrem + 2 then none
        else
          some (input.take best.lrem ++ pointerTo best.coffs,
            if best.lrem ≠ 0 then cb ++ [entry] else cb)
      else some (input.take ilen, cb ++ [entry])

variable {labels labels' : List Octets}

theorem collectLengths_encode (h : ∀ label ∈ labels, IsLabel label) {ns : ℕ}
    (hns : ns + labels.length ≤ 128) (rest : Octets) :
    collectLengths (encode labels ++ rest) ns =
      some (labels.map fun label ↦ UInt8.ofNat label.length, (encodeLabels labels).length) := by
  induction labels generalizing ns with
  | nil => simp [encode_nil, collectLengths]
  | cons label labels ih =>
    have hlabel := h label List.mem_cons_self
    rw [List.length_cons] at hns
    rw [encode_cons, List.cons_append, List.append_assoc, collectLengths,
      if_neg (length_ne_zero hlabel), if_pos (by omega), drop_encode_cons hlabel,
      ih (fun label hmem ↦ h label (List.mem_cons_of_mem _ hmem)) (by omega), Option.map_some,
      toNat_length hlabel]
    simp only [List.map_cons, encodeLabels_cons, encodeLabel, List.length_append,
      List.length_cons]

/-- The number of labels that two names share at their ends. -/
def sharedLabels (labels labels' : List Octets) : ℕ :=
  commonSuffixLength (foldLabels labels) (foldLabels labels')

/-- The offset in a name of its last `k` labels. -/
def suffixOffset (labels : List Octets) (k : ℕ) : ℕ := (encodeLabels (labels.rdrop k)).length

theorem sharedLabels_le (labels labels' : List Octets) :
    sharedLabels labels labels' ≤ labels.length ∧ sharedLabels labels labels' ≤ labels'.length := by
  obtain ⟨h, h', -⟩ := commonSuffixLength_spec (foldLabels labels) (foldLabels labels')
  rw [length_foldLabels] at h h'
  exact ⟨h, h'⟩

/-- A name shares all of its labels with itself. -/
theorem length_le_sharedLabels (labels : List Octets) :
    labels.length ≤ sharedLabels labels labels :=
  le_commonSuffixLength_iff.mpr ⟨by simp, by simp, rfl⟩

@[simp] theorem sharedLabels_nil_left (labels : List Octets) : sharedLabels [] labels = 0 := by
  simp [sharedLabels, foldLabels]

@[simp] theorem sharedLabels_nil_right (labels : List Octets) : sharedLabels labels [] = 0 := by
  simp [sharedLabels, foldLabels]

theorem sharedLabels_concat (labels labels' : List Octets) (label label' : Octets) :
    sharedLabels (labels ++ [label]) (labels' ++ [label']) =
      if foldCase label = foldCase label' then sharedLabels labels labels' + 1 else 0 := by
  rw [sharedLabels, foldLabels_append, foldLabels_append]
  exact commonSuffixLength_concat _ _ _ _

@[simp] theorem suffixOffset_zero (labels : List Octets) :
    suffixOffset labels 0 = (encodeLabels labels).length := by
  rw [suffixOffset, List.rdrop_zero]

@[simp] theorem suffixOffset_concat (labels : List Octets) (label : Octets) (k : ℕ) :
    suffixOffset (labels ++ [label]) (k + 1) = suffixOffset labels k := by
  rw [suffixOffset, List.rdrop_concat_succ, suffixOffset]

theorem length_encodeLabels_concat (labels : List Octets) (label : Octets) :
    (encodeLabels (labels ++ [label])).length = (encodeLabels labels).length + 1 + label.length := by
  simp [encodeLabel, Nat.add_assoc, Nat.add_comm]

/-- The last label of a name is what comes before the offset behind it. -/
theorem take_last_label (labels : List Octets) (label rest : Octets) :
    ((encodeLabels (labels ++ [label]) ++ rest).drop
      ((encodeLabels (labels ++ [label])).length - label.length)).take label.length = label := by
  rw [length_encodeLabels_concat, Nat.add_sub_cancel, encodeLabels_append, List.append_assoc,
    Nat.add_comm, ← List.drop_drop]
  simp [encodeLabel]

theorem matchBack_encode (h : ∀ label ∈ labels, IsLabel label)
    (h' : ∀ label ∈ labels', IsLabel label) (rest rest' : Octets) :
    matchBack (encodeLabels labels ++ rest) (encodeLabels labels' ++ rest')
        (encodeLabels labels).length (encodeLabels labels').length
        (labels.map fun label ↦ UInt8.ofNat label.length).reverse
        (labels'.map fun label ↦ UInt8.ofNat label.length).reverse =
      ⟨sharedLabels labels labels', suffixOffset labels (sharedLabels labels labels'),
        suffixOffset labels' (sharedLabels labels labels')⟩ := by
  induction labels using List.reverseRecOn generalizing labels' rest rest' with
  | nil => simp [matchBack]
  | append_singleton labels label ih =>
    cases labels' using List.reverseRecOn with
    | nil => simp [matchBack]
    | append_singleton labels' label' =>
      have hlabel := h label (by simp)
      have hlabel' := h' label' (by simp)
      have ih' := @ih labels' (fun label hmem ↦ h label (List.mem_append_left _ hmem))
        (fun label hmem ↦ h' label (List.mem_append_left _ hmem))
      have hconcat := sharedLabels_concat labels labels' label label'
      simp only [List.map_append, List.map_cons, List.map_nil, List.reverse_append,
        List.reverse_cons, List.reverse_nil, List.nil_append, List.singleton_append, matchBack]
      by_cases hlength : label.length = label'.length
      · have htake := take_last_label labels' label' rest'
        rw [← hlength] at htake
        simp only [hlength, ne_eq, not_true_eq_false, if_false]
        simp only [← hlength, toNat_length hlabel, take_last_label, htake]
        by_cases hfold : foldCase label = foldCase label'
        · rw [if_pos hfold] at hconcat
          simp only [hfold, not_true_eq_false, if_false, hconcat, suffixOffset_concat]
          have hstep := ih' (encodeLabel label ++ rest) (encodeLabel label' ++ rest')
          have hi := length_encodeLabels_concat labels label
          have hj := length_encodeLabels_concat labels' label'
          rw [show (encodeLabels (labels ++ [label])).length - label.length - 1 =
              (encodeLabels labels).length by omega,
            show (encodeLabels (labels' ++ [label'])).length - label.length - 1 =
              (encodeLabels labels').length by omega]
          simp only [encodeLabels_append, encodeLabels_cons, encodeLabels_nil, List.append_nil,
            List.append_assoc]
          rw [hstep]
        · rw [if_neg hfold] at hconcat
          simp only [hfold, not_false_eq_true, if_true, hconcat, suffixOffset_zero]
      · have hfold : foldCase label ≠ foldCase label' := by
          intro hfold
          apply hlength
          rw [← length_foldCase label, hfold, length_foldCase]
        have hne : UInt8.ofNat label.length ≠ UInt8.ofNat label'.length := by
          intro heq
          apply hlength
          rw [← toNat_length hlabel, heq, toNat_length hlabel']
        rw [if_neg hfold] at hconcat
        simp only [ne_eq, hne, not_false_eq_true, if_true, hconcat, suffixOffset_zero]

/-- `domain_match` finds the longest common suffix up to case, and where it begins. -/
theorem domainMatch_rhn (name name' : DomainName) (rest : Octets) :
    domainMatch (name.rhn ++ rest) name'.rhn =
      some ⟨sharedLabels name.labels name'.labels,
        suffixOffset name.labels (sharedLabels name.labels name'.labels),
        suffixOffset name'.labels (sharedLabels name.labels name'.labels)⟩ := by
  have hlength := name.length_labels_le
  have hlength' := name'.length_labels_le
  have hs := collectLengths_encode name.isLabel (show 0 + _ ≤ 128 by omega) rest
  have hd := collectLengths_encode name'.isLabel (show 0 + _ ≤ 128 by omega) []
  rw [List.append_nil] at hd
  rw [domainMatch, DomainName.rhn, DomainName.rhn, hs, hd, encode, List.append_assoc]
  exact congrArg some (matchBack_encode name.isLabel name'.isLabel _ [0])

/-- The last `k` labels of the name `labels` stand literally in the message at their place in the
name, which was written at `index`, up to case and with at most `k` pointers. -/
def WrittenAt (msg : Octets) (index : ℕ) (labels : List Octets) (k : ℕ) : Prop :=
  ∃ found hops size, NameAt msg (index + suffixOffset labels k) found hops size ∧
    foldLabels found = foldLabels (labels.rtake k) ∧ hops ≤ k

/-- An earlier element of the compression buffer has the last `k` labels of a name, and stands
before `index`. -/
def WrittenBefore (msg : Octets) (index : ℕ) (cb : List Compel) (labels : List Octets) (k : ℕ) :
    Prop :=
  ∃ ci ∈ cb, ∃ name : DomainName, ci.s = name.rhn ∧ k ≤ sharedLabels labels name.labels ∧
    WrittenAt msg ci.index name.labels k ∧ ci.index + suffixOffset name.labels k < index

/-- The names of the compression buffer stand in the message: every suffix of a name stands where the
name was written or, if it is part of what a pointer replaced, where an earlier name was written.
An element that is too far away for a pointer need not stand in the message. -/
inductive Indexed (msg : Octets) : List Compel → Prop
  | nil : Indexed msg []
  | concat {cb : List Compel} {index : ℕ} {name : DomainName} (h : Indexed msg cb)
      (hname : ∀ k, 0 < k → k ≤ name.labels.length →
        WrittenAt msg index name.labels k ∨ WrittenBefore msg index cb name.labels k) :
      Indexed msg (cb ++ [⟨index, name.rhn⟩])
  | far {cb : List Compel} {index : ℕ} {name : DomainName} (h : Indexed msg cb)
      (hindex : 0x3fff < index) (hle : index ≤ msg.length) :
      Indexed msg (cb ++ [⟨index, name.rhn⟩])

variable {msg : Octets} {index k : ℕ} {cb : List Compel}

theorem WrittenAt.append (h : WrittenAt msg index labels k) (more : Octets) :
    WrittenAt (msg ++ more) index labels k := by
  obtain ⟨found, hops, size, hname, hfold, hhops⟩ := h
  exact ⟨found, hops, size, hname.append more, hfold, hhops⟩

theorem Indexed.append (h : Indexed msg cb) (more : Octets) : Indexed (msg ++ more) cb := by
  induction h with
  | nil => exact .nil
  | concat _ hname ih =>
    refine .concat ih fun k hpos hle ↦ (hname k hpos hle).imp (·.append more) ?_
    rintro ⟨ci, hmem, name, hs, hk, hat, hbefore⟩
    exact ⟨ci, hmem, name, hs, hk, hat.append more, hbefore⟩
  | far _ hindex hle ih => exact .far ih hindex (by rw [List.length_append]; omega)

theorem suffixOffset_anti (labels : List Octets) {k k' : ℕ} (h : k ≤ k') :
    suffixOffset labels k' ≤ suffixOffset labels k := by
  have hstart : labels.rdrop k' <+: labels.rdrop k :=
    List.take_prefix_take_left (by omega)
  obtain ⟨between, hbetween⟩ := hstart
  rw [suffixOffset, suffixOffset, ← hbetween, encodeLabels_append, List.length_append]
  omega

theorem DomainName.ext_of_rhn {name name' : DomainName} (h : name.rhn = name'.rhn) :
    name = name' := by
  have hlabels := (encode_append_inj name.isLabel name'.isLabel
    (congrArg (· ++ ([] : Octets)) h)).1
  cases name
  cases name'
  simpa using hlabels

theorem sharedLabels_trans {labels'' : List Octets} (h : k ≤ sharedLabels labels labels')
    (h' : k ≤ sharedLabels labels' labels'') : k ≤ sharedLabels labels labels'' :=
  le_commonSuffixLength_trans h h'

theorem foldLabels_rtake (labels : List Octets) (k : ℕ) :
    foldLabels (labels.rtake k) = (foldLabels labels).rtake k := by
  simp [foldLabels, List.rtake, List.map_drop]

theorem foldLabels_rtake_of_le (h : k ≤ sharedLabels labels labels') :
    foldLabels (labels.rtake k) = foldLabels (labels'.rtake k) := by
  rw [foldLabels_rtake, foldLabels_rtake]
  exact rtake_eq_of_le h

theorem betterMatch_rhn (name name' : DomainName) (rest : Octets) (best : LongestMatch)
    (index : ℕ) :
    betterMatch (name.rhn ++ rest) best ⟨index, name'.rhn⟩ =
      some (if best.longest < sharedLabels name.labels name'.labels then
        if index + suffixOffset name'.labels (sharedLabels name.labels name'.labels) ≤ 0x3fff then
          ⟨sharedLabels name.labels name'.labels,
            suffixOffset name.labels (sharedLabels name.labels name'.labels),
            index + suffixOffset name'.labels (sharedLabels name.labels name'.labels)⟩
        else best
      else best) := by
  rw [betterMatch, domainMatch_rhn, Option.map_some]

/-- What the loop over the compression buffer finds for a name. -/
structure LongestIn (msg : Octets) (cb : List Compel) (name : DomainName) (best : LongestMatch) :
    Prop where
  standsAt : 0 < best.longest → best.longest ≤ name.labels.length ∧
    best.lrem = suffixOffset name.labels best.longest ∧ best.coffs ≤ 0x3fff ∧
    ∃ found hops size, NameAt msg best.coffs found hops size ∧
      foldLabels found = foldLabels (name.labels.rtake best.longest) ∧ hops ≤ best.longest
  writtenBefore : ∀ k, 0 < k → k ≤ best.longest →
    WrittenBefore msg msg.length cb name.labels k
  le_longest : ∀ ci ∈ cb, ∀ other : DomainName, ci.s = other.rhn → ∀ k, 0 < k →
    k ≤ sharedLabels name.labels other.labels → WrittenAt msg ci.index other.labels k →
    ci.index + suffixOffset other.labels k ≤ 0x3fff → k ≤ best.longest

theorem WrittenBefore.concat (h : WrittenBefore msg index cb labels k) (ci : Compel) :
    WrittenBefore msg index (cb ++ [ci]) labels k := by
  obtain ⟨found, hmem, rest⟩ := h
  exact ⟨found, List.mem_append_left _ hmem, rest⟩

theorem WrittenAt.lt_length (h : WrittenAt msg index labels k) :
    index + suffixOffset labels k < msg.length := by
  obtain ⟨found, hops, size, hname, -⟩ := h
  have hle := hname.add_size_le
  have hpos := hname.size_pos
  omega

/-- An element that is not taken leaves the match as it is. -/
theorem LongestIn.keep {name other : DomainName} {best : LongestMatch}
    (h : LongestIn msg cb name best)
    (hle : ∀ k, 0 < k → k ≤ sharedLabels name.labels other.labels →
      index + suffixOffset other.labels k ≤ 0x3fff → k ≤ best.longest) :
    LongestIn msg (cb ++ [⟨index, other.rhn⟩]) name best := by
  refine ⟨h.standsAt, fun k hpos hk ↦ (h.writtenBefore k hpos hk).concat _, ?_⟩
  intro ci hmem name' hs k hpos hk hat hoffset
  rcases List.mem_append.mp hmem with hmem | hmem
  · exact h.le_longest ci hmem name' hs k hpos hk hat hoffset
  · rw [List.mem_singleton.mp hmem] at hs hoffset
    rw [← DomainName.ext_of_rhn hs] at hk hoffset
    exact hle k hpos hk hoffset

/-- The suffixes that a name shares with a new element stand in the message. -/
theorem writtenBefore_of_shared {name other : DomainName}
    (hother : ∀ k, 0 < k → k ≤ other.labels.length →
      WrittenAt msg index other.labels k ∨ WrittenBefore msg index cb other.labels k)
    (hpos : 0 < k) (hk : k ≤ sharedLabels name.labels other.labels) :
    WrittenBefore msg msg.length (cb ++ [⟨index, other.rhn⟩]) name.labels k := by
  cases hother k hpos (hk.trans (sharedLabels_le _ _).2) with
  | inl hat => exact ⟨_, List.mem_append_right _ List.mem_cons_self, other, rfl, hk, hat, hat.lt_length⟩
  | inr hbefore =>
    obtain ⟨ci, hmem, name', hs, hk', hat, -⟩ := hbefore
    exact ⟨ci, List.mem_append_left _ hmem, name', hs, sharedLabels_trans hk hk', hat, hat.lt_length⟩

/-- The loop takes a longer match only where the matching labels stand literally: a suffix that was
replaced by a pointer is part of an earlier name, which the loop has seen. -/
theorem exists_longestIn (h : Indexed msg cb) (name : DomainName) (rest : Octets) :
    ∃ best, cb.foldlM (betterMatch (name.rhn ++ rest)) ⟨0, 0, 0⟩ = some best ∧
      LongestIn msg cb name best := by
  induction h with
  | nil =>
    refine ⟨⟨0, 0, 0⟩, rfl, fun hpos ↦ absurd hpos (lt_irrefl 0),
      fun k hpos hle ↦ absurd (hpos.trans_le hle) (lt_irrefl 0), ?_⟩
    intro ci hmem
    cases hmem
  | @concat cb index other _ hother ih =>
    obtain ⟨best, hfold, hbest⟩ := ih
    rw [List.foldlM_append, hfold]
    simp only [Option.bind_eq_bind, Option.bind_some, List.foldlM_cons, List.foldlM_nil,
      betterMatch_rhn]
    refine ⟨_, rfl, ?_⟩
    have hlast {ci : Compel} (hmem : ci ∈ [(⟨index, other.rhn⟩ : Compel)]) {name' : DomainName}
        (hs : ci.s = name'.rhn) : name' = other := by
      rw [List.mem_singleton.mp hmem] at hs
      exact DomainName.ext_of_rhn hs.symm
    split
    next hlonger =>
      split
      next hoffset =>
        -- the match begins in a part of `other` that was written literally
        have hle := sharedLabels_le name.labels other.labels
        have hat : WrittenAt msg index other.labels (sharedLabels name.labels other.labels) := by
          cases hother _ (by omega) hle.2 with
          | inl hat => exact hat
          | inr hbefore =>
            obtain ⟨ci, hmem, name', hs, hk, hat, hlt⟩ := hbefore
            have hseen := hbest.le_longest ci hmem name' hs _ (by omega)
              (sharedLabels_trans le_rfl hk) hat (by omega)
            omega
        refine ⟨fun _ ↦ ⟨hle.1, rfl, hoffset, ?_⟩,
          fun k hpos hk ↦ writtenBefore_of_shared hother hpos hk, ?_⟩
        · obtain ⟨found, hops, size, hname, hfoldeq, hhops⟩ := hat
          exact ⟨found, hops, size, hname, hfoldeq.trans (foldLabels_rtake_of_le le_rfl).symm, hhops⟩
        · intro ci hmem name' hs k hpos hk hat hoffset
          rcases List.mem_append.mp hmem with hmem | hmem
          · exact (hbest.le_longest ci hmem name' hs k hpos hk hat hoffset).trans hlonger.le
          · rw [hlast hmem hs] at hk
            exact hk
      next hoffset =>
        refine hbest.keep fun k hpos hk hkoffset ↦ ?_
        have hanti := suffixOffset_anti other.labels hk
        omega
    next hlonger => exact hbest.keep fun k hpos hk _ ↦ by omega
  | @far cb index other _ hindex _ ih =>
    obtain ⟨best, hfold, hbest⟩ := ih
    rw [List.foldlM_append, hfold]
    simp only [Option.bind_eq_bind, Option.bind_some, List.foldlM_cons, List.foldlM_nil,
      betterMatch_rhn]
    refine ⟨best, ?_, hbest.keep fun k hpos hk hoffset ↦ by omega⟩
    have hfar (k : ℕ) : ¬index + suffixOffset other.labels k ≤ 0x3fff := by omega
    simp only [if_neg (hfar _), ite_self]
    rfl

/-- A name of the compression buffer ends with all labels of a name. -/
def Registered (cb : List Compel) (name : DomainName) : Prop :=
  ∃ ci ∈ cb, ∃ other : DomainName, ci.s = other.rhn ∧
    name.labels.length ≤ sharedLabels name.labels other.labels

theorem Registered.mono {cb' : List Compel} {name : DomainName} (h : Registered cb name)
    (hstart : cb <+: cb') : Registered cb' name := by
  obtain ⟨ci, hmem, rest⟩ := h
  exact ⟨ci, hstart.subset hmem, rest⟩

/-- A suffix of a name of the buffer stands literally at some name of the buffer, unless the message
is too long for new pointers. -/
theorem Indexed.exists_writtenAt (h : Indexed msg cb) {ci : Compel} (hmem : ci ∈ cb)
    {other : DomainName} (hs : ci.s = other.rhn) (hpos : 0 < k) (hk : k ≤ other.labels.length) :
    (∃ ci' ∈ cb, ∃ name : DomainName, ci'.s = name.rhn ∧
      k ≤ sharedLabels other.labels name.labels ∧ WrittenAt msg ci'.index name.labels k) ∨
      0x3fff < msg.length := by
  induction h with
  | nil => cases hmem
  | @concat cb index name _ hname ih =>
    rcases List.mem_append.mp hmem with hmem | hmem
    · refine (ih hmem).imp_left ?_
      rintro ⟨ci', hmem', rest⟩
      exact ⟨ci', List.mem_append_left _ hmem', rest⟩
    · rw [List.mem_singleton.mp hmem] at hs
      obtain rfl := DomainName.ext_of_rhn hs
      cases hname k hpos hk with
      | inl hat =>
        exact .inl ⟨_, List.mem_append_right _ List.mem_cons_self, name, rfl,
          hk.trans (length_le_sharedLabels _), hat⟩
      | inr hbefore =>
        obtain ⟨ci', hmem', name', hs', hk', hat, -⟩ := hbefore
        exact .inl ⟨ci', List.mem_append_left _ hmem', name', hs', hk', hat⟩
  | @far cb index name _ hindex hle ih =>
    rcases List.mem_append.mp hmem with hmem | hmem
    · refine (ih hmem).imp_left ?_
      rintro ⟨ci', hmem', rest⟩
      exact ⟨ci', List.mem_append_left _ hmem', rest⟩
    · exact .inr (hindex.trans_le hle)

/-- A name that was written before is matched as a whole. -/
theorem LongestIn.of_registered {name : DomainName} {best : LongestMatch} (h : Indexed msg cb)
    (hbest : LongestIn msg cb name best) (hname : Registered cb name) :
    name.labels.length ≤ best.longest ∨ 0x3fff < msg.length := by
  obtain ⟨ci, hmem, other, hs, hk⟩ := hname
  cases Nat.eq_zero_or_pos name.labels.length with
  | inl hzero => exact .inl (by omega)
  | inr hpos =>
    cases h.exists_writtenAt hmem hs hpos (hk.trans (sharedLabels_le _ _).2) with
    | inr hlong => exact .inr hlong
    | inl hwritten =>
      obtain ⟨ci', hmem', name', hs', hk', hat⟩ := hwritten
      have hlt := hat.lt_length
      by_cases hoffset : ci'.index + suffixOffset name'.labels name.labels.length ≤ 0x3fff
      · exact .inl
          (hbest.le_longest ci' hmem' name' hs' _ hpos (sharedLabels_trans hk hk') hat hoffset)
      · exact .inr (by omega)

/-- A pointer leads to the offset that it was made for. -/
theorem pointerTarget_pointerTo {coffs : ℕ} (h : coffs ≤ 0x3fff) :
    ∃ lb low, pointerTo coffs = [lb, low] ∧ 0xc0 ≤ lb ∧ pointerTarget lb low = coffs := by
  have hhigh : (coffs &&& 0x3f00) >>> 8 = coffs / 256 := by
    rw [Nat.shiftRight_and_distrib, Nat.shiftRight_eq_div_pow,
      show 0x3f00 >>> 8 = 2 ^ 6 - 1 from rfl, Nat.and_two_pow_sub_one_eq_mod]
    omega
  have hlow : coffs &&& 0xff = coffs % 256 := Nat.and_two_pow_sub_one_eq_mod coffs 8
  have hbits : ∀ x < 64, 0xc0 ||| x = 192 + x ∧ (192 + x) &&& 0x3f = x := by decide
  obtain ⟨hor, hand⟩ := hbits (coffs / 256) (by omega)
  refine ⟨_, _, rfl, ?_, ?_⟩
  · rw [UInt8.le_iff_toNat_le, hhigh, hor, UInt8.toNat_ofNat']
    change 192 ≤ _
    omega
  · rw [pointerTarget, hhigh, hor, hlow, UInt8.toNat_ofNat', UInt8.toNat_ofNat',
      Nat.mod_eq_of_lt (show 192 + coffs / 256 < 2 ^ 8 by omega), hand,
      Nat.mod_mod, ← Nat.shiftLeft_add_eq_or_of_lt (Nat.mod_lt _ (by decide)),
      Nat.shiftLeft_eq]
    omega

/-- Labels before a name that stands in the message. -/
theorem NameAt.encodeLabels {before found : List Octets} {lptr hops size : ℕ}
    (hbefore : ∀ label ∈ before, IsLabel label) (h : encodeLabels before <+: msg.drop lptr)
    (hrest : NameAt msg (lptr + (encodeLabels before).length) found hops size) :
    NameAt msg lptr (before ++ found) hops ((Pdnsd.encodeLabels before).length + size) := by
  induction before generalizing lptr with
  | nil => simpa using hrest
  | cons label before ih =>
    have hlabel := hbefore label List.mem_cons_self
    rw [encodeLabels_cons] at h
    have hfirst := (List.prefix_append _ _).trans h
    have hlength : (encodeLabel label).length = 1 + label.length := Nat.add_comm _ _
    have hlater : Pdnsd.encodeLabels before <+: msg.drop (lptr + 1 + label.length) := by
      obtain ⟨rest, hrest⟩ := h
      rw [Nat.add_assoc, ← hlength, ← List.drop_drop, ← hrest, List.append_assoc, List.drop_left]
      exact List.prefix_append _ _
    rw [encodeLabels_cons, List.length_append, hlength, ← Nat.add_assoc, ← Nat.add_assoc] at hrest
    rw [encodeLabels_cons, List.length_append, hlength, Nat.add_assoc]
    exact .label hlabel hfirst
      (ih (fun label hmem ↦ hbefore label (List.mem_cons_of_mem _ hmem)) hlater hrest)

/-- What a name is once the labels before its last `m` ones are written literally at `index`. -/
theorem nameAt_literal {name : DomainName} {m hops size : ℕ} {found : List Octets}
    (hm : m ≤ k) (hwritten : encodeLabels (name.labels.rdrop m) <+: msg.drop index)
    (hfound : NameAt msg (index + suffixOffset name.labels m) found hops size)
    (hfold : foldLabels found = foldLabels (name.labels.rtake m)) :
    ∃ labels, NameAt msg (index + suffixOffset name.labels k) labels hops
        (suffixOffset name.labels m - suffixOffset name.labels k + size) ∧
      foldLabels labels = foldLabels (name.labels.rtake k) := by
  have hstart : name.labels.rdrop k <+: name.labels.rdrop m :=
    List.take_prefix_take_left (by omega)
  obtain ⟨middle, hmiddle⟩ := hstart
  have hsplit : name.labels = name.labels.rdrop k ++ (middle ++ name.labels.rtake m) := by
    rw [← List.append_assoc, hmiddle]
    exact (List.take_append_drop _ _).symm
  have hrtake : name.labels.rtake k = middle ++ name.labels.rtake m := by
    have hboth : name.labels.rdrop k ++ name.labels.rtake k = name.labels :=
      List.take_append_drop _ _
    exact List.append_cancel_left (hboth.trans hsplit)
  have hoffset : suffixOffset name.labels m =
      suffixOffset name.labels k + (encodeLabels middle).length := by
    rw [suffixOffset, suffixOffset, ← hmiddle, encodeLabels_append, List.length_append]
  have hlabels : ∀ label ∈ middle, IsLabel label := by
    intro label hmem
    refine name.isLabel label ?_
    rw [hsplit]
    exact List.mem_append_right _ (List.mem_append_left _ hmem)
  have hat : encodeLabels middle <+: msg.drop (index + suffixOffset name.labels k) := by
    obtain ⟨rest, hrest⟩ := hwritten
    rw [← List.drop_drop, ← hrest, ← hmiddle, encodeLabels_append, suffixOffset,
      List.append_assoc, List.drop_left]
    exact List.prefix_append _ _
  rw [hoffset, ← Nat.add_assoc] at hfound
  refine ⟨middle ++ found, ?_, ?_⟩
  · rw [hoffset, Nat.add_sub_cancel_left]
    exact NameAt.encodeLabels hlabels hat hfound
  · rw [hrtake, foldLabels_append, foldLabels_append, hfold]

theorem suffixOffset_length (name : DomainName) :
    suffixOffset name.labels name.labels.length = 0 := by
  simp [suffixOffset, List.rdrop]

/-- All labels of a name are before its offset 0. -/
theorem length_le_of_suffixOffset (h : suffixOffset labels k = 0) : labels.length ≤ k := by
  by_contra hlt
  cases hfirst : labels.rdrop k with
  | nil =>
    have hlength := congrArg List.length hfirst
    rw [List.rdrop, List.length_take, List.length_nil] at hlength
    omega
  | cons label rest =>
    rw [suffixOffset, hfirst, encodeLabels_cons, encodeLabel, List.cons_append,
      List.length_cons] at h
    omega

theorem lt_of_suffixOffset_ne_zero (h : suffixOffset labels k ≠ 0) : k < labels.length := by
  by_contra hle
  apply h
  rw [suffixOffset, List.rdrop, Nat.sub_eq_zero_of_le (Nat.le_of_not_lt hle)]
  rfl

theorem rhnlen_rhn (name : DomainName) (rest : Octets) :
    rhnlen (name.rhn ++ rest) = name.rhn.length := rhnlen_encode name.isLabel rest

/-- A name begins with the labels before its last `m` ones, and at least two octets follow if `m` is
not zero. -/
theorem rhn_eq_append (name : DomainName) (m : ℕ) :
    name.rhn = encodeLabels (name.labels.rdrop m) ++ encode (name.labels.rtake m) := by
  rw [← encode_append]
  exact congrArg encode (List.take_append_drop _ _).symm

theorem two_le_length_encode {m : ℕ} {name : DomainName} (hpos : 0 < m)
    (hle : m ≤ name.labels.length) : 2 ≤ (encode (name.labels.rtake m)).length := by
  have hlabels : ∀ label ∈ name.labels.rtake m, IsLabel label := fun label hmem ↦
    name.isLabel label (List.mem_of_mem_drop hmem)
  have htwo := two_mul_length_le hlabels
  have hlength : (name.labels.rtake m).length = m := by
    rw [List.rtake, List.length_drop]
    omega
  rw [length_encode]
  omega

/-- What one call adds to the message and to the compression buffer. -/
structure Compressed (msg : Octets) (cb : List Compel) (name : DomainName) (out : Octets)
    (cb' : List Compel) : Prop where
  indexed : Indexed (msg ++ out) cb'
  length_le : out.length ≤ name.rhn.length
  nameAt : ∃ found hops, NameAt (msg ++ out) msg.length found hops out.length ∧ hops ≤ 128 ∧
    foldLabels found = foldLabels name.labels
  grows : cb <+: cb'
  registered : Registered cb' name
  keeps : Registered cb name → Indexed msg cb'

theorem foldLabels_rtake_length (name : DomainName) :
    foldLabels (name.labels.rtake name.labels.length) = foldLabels name.labels := by
  simp [List.rtake]

/-- A name of which all but the last `m` labels are written literally. -/
theorem compressed_of_literal {name : DomainName} {m hops size : ℕ} {out : Octets}
    {found : List Octets} (h : Indexed msg cb) (hm : m ≤ name.labels.length)
    (hout : out = encodeLabels (name.labels.rdrop m) ++ out.drop (suffixOffset name.labels m))
    (hlength : out.length = suffixOffset name.labels m + size)
    (hle : out.length ≤ name.rhn.length)
    (hfound : NameAt (msg ++ out) (msg.length + suffixOffset name.labels m) found hops size)
    (hfold : foldLabels found = foldLabels (name.labels.rtake m)) (hhops : hops ≤ m + 1)
    (hbefore : ∀ k, 0 < k → k ≤ m → WrittenBefore msg msg.length cb name.labels k)
    (hwhole : Registered cb name → name.labels.length ≤ m ∨ 0x3fff < msg.length)
    {cb' : List Compel}
    (hcb : cb' = cb ++ [⟨msg.length, name.rhn⟩] ∧ (0 < m → m < name.labels.length) ∨
      cb' = cb ∧ 0 < m ∧ name.labels.length ≤ m) :
    Compressed msg cb name out cb' := by
  have hwritten : encodeLabels (name.labels.rdrop m) <+: (msg ++ out).drop msg.length := by
    rw [List.drop_left, hout]
    exact List.prefix_append _ _
  have hcount := name.length_labels_le
  constructor
  · cases hcb with
    | inr hcb => rw [hcb.1]; exact h.append out
    | inl hcb =>
      rw [hcb.1]
      refine .concat (h.append out) fun k hpos hk ↦ ?_
      by_cases hkm : k ≤ m
      · obtain ⟨ci, hmem, other, hs, hshared, hat, hlt⟩ := hbefore k hpos hkm
        exact .inr ⟨ci, hmem, other, hs, hshared, hat.append out, hlt⟩
      · obtain ⟨labels, hname, hlabels⟩ :=
          nameAt_literal (Nat.le_of_not_le hkm) hwritten hfound hfold
        exact .inl ⟨labels, hops, _, hname, hlabels, by omega⟩
  · exact hle
  · obtain ⟨labels, hname, hlabels⟩ := nameAt_literal hm hwritten hfound hfold
    rw [suffixOffset_length, Nat.add_zero, Nat.sub_zero, ← hlength] at hname
    rw [foldLabels_rtake_length] at hlabels
    exact ⟨labels, hops, hname, by omega, hlabels⟩
  · cases hcb with
    | inr hcb => exact hcb.1 ▸ List.prefix_rfl
    | inl hcb => rw [hcb.1]; exact List.prefix_append _ _
  · cases hcb with
    | inr hcb =>
      obtain ⟨ci, hmem, other, hs, hk, -⟩ := hbefore m hcb.2.1 le_rfl
      rw [hcb.1]
      exact ⟨ci, hmem, other, hs, hcb.2.2.trans hk⟩
    | inl hcb =>
      rw [hcb.1]
      exact ⟨_, List.mem_append_right _ List.mem_cons_self, name, rfl, length_le_sharedLabels _⟩
  · intro hregistered
    cases hcb with
    | inr hcb => rw [hcb.1]; exact h
    | inl hcb =>
      rw [hcb.1]
      cases hwhole hregistered with
      | inr hfar => exact .far h hfar le_rfl
      | inl hm => exact .concat h fun k hpos hk ↦ by omega

/-- `compress_name` on a message whose names are indexed: no assertion fails, the output is no longer
than the name, and the name stands in the message, up to case. -/
theorem compressName_rhn (h : Indexed msg cb) (name : DomainName) (rest : Octets) :
    ∃ out cb', compressName (name.rhn ++ rest) msg.length cb = some (out, cb') ∧
      Compressed msg cb name out cb' := by
  obtain ⟨best, hfold, hbest⟩ := exists_longestIn h name rest
  have hilen : ¬DNSNAMEBUFSIZE < rhnlen (name.rhn ++ rest) := by
    rw [rhnlen_rhn]
    exact Nat.not_lt.mpr name.length_le
  have htake : (name.rhn ++ rest).take (rhnlen (name.rhn ++ rest)) = name.rhn := by
    rw [rhnlen_rhn, List.take_left]
  rw [compressName]
  simp only [if_neg hilen, hfold, Option.bind_some, htake]
  split
  next hpos =>
    obtain ⟨hle, hlrem, hcoffs, found, hops, size, hname, hfound, hhops⟩ := hbest.standsAt hpos
    obtain ⟨lb, low, hpointer, hlb, htarget⟩ := pointerTarget_pointerTo hcoffs
    have hsplit := rhn_eq_append name best.longest
    have htwo := two_le_length_encode hpos hle
    have hlength : name.rhn.length =
        best.lrem + (encode (name.labels.rtake best.longest)).length := by
      rw [hlrem, suffixOffset, ← List.length_append, ← hsplit]
    have hliteral : (name.rhn ++ rest).take best.lrem =
        encodeLabels (name.labels.rdrop best.longest) := by
      rw [hsplit, hlrem, suffixOffset, List.append_assoc, List.take_left]
    rw [rhnlen_rhn, if_neg (by omega)]
    refine ⟨_, _, rfl, ?_⟩
    rw [hliteral, hpointer]
    have hat : NameAt (msg ++ (encodeLabels (name.labels.rdrop best.longest) ++ [lb, low]))
        (msg.length + suffixOffset name.labels best.longest) found (hops + 1) 2 := by
      refine .pointer hlb ?_ (htarget ▸ hname.append _)
      have hdrop : (msg ++ (encodeLabels (name.labels.rdrop best.longest) ++ [lb, low])).drop
          (msg.length + suffixOffset name.labels best.longest) = [lb, low] := by
        rw [suffixOffset, ← List.drop_drop, List.drop_left, List.drop_left]
      exact ⟨[], (List.append_nil _).trans hdrop.symm⟩
    refine compressed_of_literal (m := best.longest) h hle ?_ ?_ ?_ hat hfound (by omega)
      hbest.writtenBefore (hbest.of_registered h) ?_
    · rw [suffixOffset, List.drop_left]
    · rw [List.length_append, suffixOffset]
      rfl
    · rw [List.length_append, hlength, hlrem, suffixOffset]
      simp only [List.length_cons, List.length_nil]
      omega
    · split
      next hlrem' => exact .inl ⟨rfl, fun _ ↦ lt_of_suffixOffset_ne_zero (hlrem ▸ hlrem')⟩
      next hlrem' =>
        rw [not_not, hlrem] at hlrem'
        exact .inr ⟨rfl, hpos, length_le_of_suffixOffset hlrem'⟩
  next hpos =>
    refine ⟨_, _, rfl, ?_⟩
    have hnone : name.rhn = encodeLabels (name.labels.rdrop 0) ++ [0] := by
      rw [List.rdrop_zero]
      rfl
    have hat : NameAt (msg ++ name.rhn) (msg.length + suffixOffset name.labels 0) [] 0 1 := by
      apply NameAt.root
      rw [hnone, suffixOffset, List.getElem?_append_right (by omega),
        List.getElem?_append_right (by omega)]
      simp
    have hzero : best.longest = 0 := by omega
    refine compressed_of_literal (m := 0) h (Nat.zero_le _) ?_ ?_ le_rfl hat ?_ (by omega) ?_
      (hzero ▸ hbest.of_registered h) (.inl ⟨rfl, fun hlt ↦ absurd hlt (lt_irrefl 0)⟩)
    · rw [hnone, suffixOffset, List.drop_left]
    · rw [hnone, List.length_append, suffixOffset]
      rfl
    · rw [List.rtake_zero]
    · intro k hk hle
      omega

/-- A part of a message: a name that is compressed, or other octets. -/
inductive Piece where
  | name (name : DomainName)
  | octets (octets : Octets)

/-- A message under construction. -/
structure Packet where
  msg : Octets
  cb : List Compel

def Packet.add (packet : Packet) : Piece → Option Packet
  | .name name =>
      (compressName name.rhn packet.msg.length packet.cb).map fun result ↦
        ⟨packet.msg ++ result.1, result.2⟩
  | .octets octets => some { packet with msg := packet.msg ++ octets }

def Packet.addAll (packet : Packet) (pieces : List Piece) : Option Packet :=
  pieces.foldlM Packet.add packet

/-- Each part leaves the message before it as it is, and the names indexed. -/
theorem exists_add {packet : Packet} (h : Indexed packet.msg packet.cb) (piece : Piece) :
    ∃ packet', packet.add piece = some packet' ∧ Indexed packet'.msg packet'.cb ∧
      packet.msg <+: packet'.msg := by
  cases piece with
  | octets octets => exact ⟨_, rfl, h.append octets, List.prefix_append _ _⟩
  | name name =>
    obtain ⟨out, cb', hout, hcompressed⟩ := compressName_rhn h name []
    rw [List.append_nil] at hout
    exact ⟨⟨packet.msg ++ out, cb'⟩, by rw [Packet.add, hout, Option.map_some], hcompressed.indexed,
      List.prefix_append _ _⟩

theorem exists_addAll {packet : Packet} (h : Indexed packet.msg packet.cb)
    (pieces : List Piece) :
    ∃ packet', packet.addAll pieces = some packet' ∧ Indexed packet'.msg packet'.cb ∧
      packet.msg <+: packet'.msg := by
  induction pieces generalizing packet with
  | nil => exact ⟨packet, rfl, h, List.prefix_rfl⟩
  | cons piece pieces ih =>
    obtain ⟨next, hnext, hindexed, hstart⟩ := exists_add h piece
    obtain ⟨packet', hall, hindexed', hstart'⟩ := ih hindexed
    refine ⟨packet', ?_, hindexed', hstart.trans hstart'⟩
    rw [Packet.addAll, List.foldlM_cons, hnext]
    exact hall

theorem foldCase_encode (h : ∀ label ∈ labels, IsLabel label) :
    foldCase (encode labels) = encode (foldLabels labels) := by
  have hlow : ∀ n ≤ 63, tolower (UInt8.ofNat n) = UInt8.ofNat n := by decide
  induction labels with
  | nil => rfl
  | cons label labels ih =>
    have ih' := ih fun label hmem ↦ h label (List.mem_cons_of_mem _ hmem)
    have hlength := hlow label.length (h label List.mem_cons_self).2
    rw [foldCase] at ih'
    rw [encode_cons, foldCase, List.map_cons, List.map_append, ih', hlength]
    simp [foldLabels, encode_cons, foldCase]

/-- A name of a message is read back by `decompress_name`, up to case. -/
theorem exists_decompressed {name : DomainName} {found : List Octets} {src hops size sz : ℕ}
    (hname : NameAt msg src found hops size) (hhops : hops ≤ 128)
    (hfold : foldLabels found = foldLabels name.labels) (hsz : size ≤ sz) :
    ∃ result : DomainName, decompressName msg src sz = .ok ⟨result.rhn, src + size, sz - size⟩ ∧
      foldCase result.rhn = foldCase name.rhn := by
  have hlength : (encode found).length ≤ DNSNAMEBUFSIZE := by
    have hle := name.length_le
    rw [length_encode, ← length_encodeLabels_foldLabels] at hle ⊢
    rwa [hfold]
  refine ⟨⟨found, hname.isLabel, hlength⟩, ?_, ?_⟩
  · exact decompressName_eq_ok.mpr ⟨_, hops, size, hname, by omega, hsz, rfl⟩
  · rw [DomainName.rhn, DomainName.rhn, foldCase_encode hname.isLabel, hfold,
      foldCase_encode name.isLabel]

/-- Whatever names and other octets a message is made of, no assertion of `compress_name` fails, no
name gets longer, and `decompress_name` reads each of them back from the finished message where it
was written, up to case. -/
theorem compressed_names_decompress (start : Octets) (before after : List Piece)
    (name : DomainName) :
    ∃ first second last : Packet,
      (⟨start, []⟩ : Packet).addAll before = some first ∧
      (⟨start, []⟩ : Packet).addAll (before ++ [.name name]) = some second ∧
      (⟨start, []⟩ : Packet).addAll (before ++ .name name :: after) = some last ∧
      second.msg.length ≤ first.msg.length + name.rhn.length ∧
      ∃ result : DomainName, foldCase result.rhn = foldCase name.rhn ∧
        decompressName last.msg first.msg.length (last.msg.length - first.msg.length) =
          .ok ⟨result.rhn, second.msg.length, last.msg.length - second.msg.length⟩ := by
  obtain ⟨first, hfirst, hindexed, -⟩ :=
    @exists_addAll ⟨start, []⟩ .nil before
  obtain ⟨out, cb', hout, hcompressed⟩ := compressName_rhn hindexed name []
  rw [List.append_nil] at hout
  let second : Packet := ⟨first.msg ++ out, cb'⟩
  have hadd : first.add (.name name) = some second := by
    rw [Packet.add, hout, Option.map_some]
  obtain ⟨last, hlast, -, hstart⟩ :=
    @exists_addAll second hcompressed.indexed after
  obtain ⟨found, hops, hname, hhops, hfold⟩ := hcompressed.nameAt
  obtain ⟨more, hmore⟩ := hstart
  have hlength : last.msg.length = first.msg.length + out.length + more.length := by
    rw [← hmore]
    simp [second, Nat.add_assoc]
  have hsecond : second.msg.length = first.msg.length + out.length := List.length_append
  have hlater : NameAt last.msg first.msg.length found hops out.length := by
    rw [← hmore]
    exact hname.append more
  have hroom : out.length ≤ last.msg.length - first.msg.length := by omega
  obtain ⟨result, hresult, hcase⟩ := exists_decompressed hlater hhops hfold hroom
  refine ⟨first, second, last, hfirst, ?_, ?_, ?_, result, hcase, ?_⟩
  · rw [Packet.addAll] at hfirst ⊢
    rw [List.foldlM_append, hfirst]
    simp [hadd]
  · rw [Packet.addAll] at hfirst hlast ⊢
    rw [List.foldlM_append, hfirst]
    simp [hadd, hlast]
  · have hle := hcompressed.length_le
    omega
  · rw [hresult, hsecond, Nat.sub_sub]

end Orbot.Pdnsd
