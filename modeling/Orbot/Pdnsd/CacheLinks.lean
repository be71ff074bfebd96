import Orbot.Pdnsd.CacheOperations

/-!
# The list of the cache

An element of the list is there exactly if its set, or its negative entry, points to it, and the local
sets are the ones that have no element. The functions that remove sets and entries keep this, and they
never follow a pointer to what has been freed.
-/

namespace Orbot.Pdnsd.DnsCache

/-- The pointer to the list of a set, or of a negative entry. -/
def DnsCent.lentAt (cent : DnsCent) : Option RrIndex → Bool
  | some i => (cent.get i).any RrSet.lent
  | none =>
      match cent.domain with
      | .neg lent _ _ => lent
      | .rr _ => false

/-- Whether there is a set, or whether the entry is negative. -/
def DnsCent.hasAt (cent : DnsCent) : Option RrIndex → Bool
  | some i => (cent.get i).isSome
  | none => cent.isNegative

/-- What is not local is in the list. -/
def DnsCent.FiledAt (cent : DnsCent) (idx : Option RrIndex) : Prop :=
  cent.lentAt idx = (cent.hasAt idx && !cent.isLocalAt idx)

abbrev Heap := Key → Option DnsCent

section Links

variable (z : Sizes)

/-- The list and the entries point to each other, and the entries count right. -/
structure Linked (heap : Heap) (l : List Lent) : Prop where
  nodup : l.Nodup
  mem_iff : ∀ le, le ∈ l ↔ ∃ cent, heap le.cent = some cent ∧ cent.lentAt le.idx = true
  key : ∀ {key cent}, heap key = some cent → cent.qname.key = key
  accounted : ∀ {key cent}, heap key = some cent → cent.Accounted z

/-- Everything in the cache is in the list unless it is local. -/
def Filed (heap : Heap) : Prop := ∀ key cent, heap key = some cent → ∀ idx, cent.FiledAt idx

end Links

section Entries

variable {z : Sizes} {heap : Heap} {l l' : List Lent} {key : Key} {cent cent' : DnsCent}

theorem Linked.mem_iff_lentAt (h : Linked z heap l) (hcent : heap key = some cent)
    (idx : Option RrIndex) : ⟨key, idx⟩ ∈ l ↔ cent.lentAt idx = true := by
  rw [h.mem_iff]
  constructor
  · rintro ⟨cent', hcent', hlent⟩
    obtain rfl := Option.some.inj (hcent.symm.trans hcent')
    exact hlent
  · exact fun hlent ↦ ⟨cent, hcent, hlent⟩

/-- An entry is changed or made, and the list is changed for it only. -/
theorem Linked.edit (h : Linked z heap l) (hkey : cent'.qname.key = key)
    (haccounted : cent'.Accounted z) (hnodup : l'.Nodup)
    (hothers : ∀ le : Lent, le.cent ≠ key → (le ∈ l' ↔ le ∈ l))
    (hown : ∀ idx, ⟨key, idx⟩ ∈ l' ↔ cent'.lentAt idx = true) :
    Linked z (Function.update heap key (some cent')) l' := by
  refine ⟨hnodup, fun le ↦ ?_, fun {k cent} hcent ↦ ?_, fun {k cent} hcent ↦ ?_⟩
  · by_cases hle : le.cent = key
    · obtain ⟨cent, idx⟩ := le
      obtain rfl : cent = key := hle
      rw [hown idx, Function.update_self]
      constructor
      · exact fun hlent ↦ ⟨cent', rfl, hlent⟩
      · rintro ⟨cent'', hcent'', hlent⟩
        obtain rfl := Option.some.inj hcent''
        exact hlent
    · rw [hothers le hle, Function.update_of_ne hle]
      exact h.mem_iff le
  · by_cases hk : k = key
    · rw [hk, Function.update_self] at hcent
      obtain rfl := Option.some.inj hcent
      rw [hk, hkey]
    · rw [Function.update_of_ne hk] at hcent
      exact h.key hcent
  · by_cases hk : k = key
    · rw [hk, Function.update_self] at hcent
      obtain rfl := Option.some.inj hcent
      exact haccounted
    · rw [Function.update_of_ne hk] at hcent
      exact h.accounted hcent

/-- An entry changes, but not the pointers to the list. -/
theorem Linked.write (h : Linked z heap l) (hcent : heap key = some cent)
    (hkey : cent'.qname.key = key) (haccounted : cent'.Accounted z)
    (hlent : ∀ idx, cent'.lentAt idx = cent.lentAt idx) :
    Linked z (Function.update heap key (some cent')) l := by
  refine h.edit hkey haccounted h.nodup (fun _ _ ↦ Iff.rfl) fun idx ↦ ?_
  rw [h.mem_iff_lentAt hcent, hlent]

/-- An element leaves the list, and an entry loses its pointer to it. -/
theorem Linked.unlink (h : Linked z heap l) (hcent : heap key = some cent)
    (hkey : cent'.qname.key = key) (haccounted : cent'.Accounted z) (idx : Option RrIndex)
    (hgone : cent'.lentAt idx = false)
    (hlent : ∀ idx', idx' ≠ idx → cent'.lentAt idx' = cent.lentAt idx') :
    Linked z (Function.update heap key (some cent')) (l.erase ⟨key, idx⟩) := by
  refine h.edit hkey haccounted (h.nodup.erase _) (fun le hle ↦ ?_) fun idx' ↦ ?_
  · rw [h.nodup.mem_erase_iff]
    exact ⟨fun hmem ↦ hmem.2, fun hmem ↦ ⟨fun heq ↦ hle (congrArg Lent.cent heq), hmem⟩⟩
  · rw [h.nodup.mem_erase_iff]
    by_cases hidx : idx' = idx
    · rw [hidx, hgone]
      simp
    · rw [hlent idx' hidx, h.mem_iff_lentAt hcent]
      simp [hidx]

/-- An entry is freed with its elements of the list. -/
theorem Linked.free (h : Linked z heap l) :
    Linked z (Function.update heap key none) (l.filter fun le ↦ le.cent ≠ key) := by
  refine ⟨h.nodup.filter _, fun le ↦ ?_, fun {k cent} hcent ↦ ?_, fun {k cent} hcent ↦ ?_⟩
  · rw [List.mem_filter, decide_eq_true_eq]
    by_cases hle : le.cent = key
    · simp [hle]
    · rw [Function.update_of_ne hle, h.mem_iff]
      exact and_iff_left hle
  · by_cases hk : k = key
    · rw [hk, Function.update_self] at hcent
      exact absurd hcent (Option.some_ne_none cent).symm
    · rw [Function.update_of_ne hk] at hcent
      exact h.key hcent
  · by_cases hk : k = key
    · rw [hk, Function.update_self] at hcent
      exact absurd hcent (Option.some_ne_none cent).symm
    · rw [Function.update_of_ne hk] at hcent
      exact h.accounted hcent

theorem Filed.update (h : Filed heap) (hfiled : ∀ idx, cent'.FiledAt idx) :
    Filed (Function.update heap key (some cent')) := by
  intro k cent hcent
  by_cases hk : k = key
  · rw [hk, Function.update_self] at hcent
    obtain rfl := Option.some.inj hcent
    exact hfiled
  · rw [Function.update_of_ne hk] at hcent
    exact h k cent hcent

theorem Filed.free (h : Filed heap) : Filed (Function.update heap key none) := by
  intro k cent hcent
  by_cases hk : k = key
  · rw [hk, Function.update_self] at hcent
    exact absurd hcent (Option.some_ne_none cent).symm
  · rw [Function.update_of_ne hk] at hcent
    exact h k cent hcent

end Entries

section Remove

variable {env : Env} {c : Cache} {key : Key} {cent : DnsCent} {i : RrIndex} {rrset : RrSet}

theorem Linked.removeLent (h : Linked env.sizes c.heap c.rrset_l) (hcent : c.heap key = some cent)
    (idx : Option RrIndex) : c.removeLent (cent.lentAt idx) ⟨key, idx⟩ =
      some { c with rrset_l := c.rrset_l.erase ⟨key, idx⟩ } := by
  have hmem := h.mem_iff_lentAt hcent idx
  cases hlent : cent.lentAt idx with
  | true =>
    rw [hlent] at hmem
    rw [Cache.removeLent, if_pos rfl, Cache.removeRrl, if_pos (hmem.mpr rfl)]
  | false =>
    rw [hlent] at hmem
    rw [Cache.removeLent, if_neg Bool.false_ne_true,
      List.erase_of_not_mem fun hin ↦ Bool.false_ne_true (hmem.mp hin)]

theorem DnsCent.lentAt_of_get (hget : cent.get i = some rrset) :
    cent.lentAt (some i) = rrset.lent := by
  rw [lentAt, hget, Option.any_some]

theorem DnsCent.domain_of_get (hget : cent.get i = some rrset) : ∃ a, cent.domain = .rr a := by
  cases hdomain : cent.domain with
  | neg lent ttl ts =>
    rw [get_neg hdomain] at hget
    exact absurd hget (Option.some_ne_none rrset).symm
  | rr a => exact ⟨a, rfl⟩

theorem DnsCent.get_dropRrset (hget : cent.get i = some rrset) :
    (cent.dropRrset env i rrset).get = Function.update cent.get i none := by
  obtain ⟨a, hdomain⟩ := domain_of_get hget
  have hplace : a.HasPlace i := by
    rw [get_rr hdomain] at hget
    exact RrArrays.hasPlace_of_get hget
  have hdrop : (cent.dropRrset env i rrset).domain = .rr (a.put i none) := by
    rw [dropRrset, arrays, hdomain]
  rw [get_rr hdrop, get_rr hdomain, RrArrays.get_put a i none hplace]

theorem DnsCent.Accounted.dropRrset (h : cent.Accounted env.sizes)
    (hget : cent.get i = some rrset) : (cent.dropRrset env i rrset).Accounted env.sizes := by
  refine h.update (i := i) rfl (get_dropRrset hget) ?_ ?_
  · have hext : (cent.dropRrset env i rrset).arrays.extSize env.sizes =
        cent.arrays.extSize env.sizes := rfl
    rw [hext, hget]
    simp [RrSet.sizeAt, DnsCent.dropRrset]
  · rw [hget]
    simp [DnsCent.dropRrset]

theorem DnsCent.lentAt_dropRrset (hget : cent.get i = some rrset) {idx : Option RrIndex}
    (hidx : idx ≠ some i) : (cent.dropRrset env i rrset).lentAt idx = cent.lentAt idx := by
  obtain ⟨a, hdomain⟩ := domain_of_get hget
  cases idx with
  | none => simp [lentAt, dropRrset, hdomain]
  | some j =>
    have hj : j ≠ i := fun hj ↦ hidx (congrArg some hj)
    rw [lentAt, get_dropRrset hget, Function.update_of_ne hj, lentAt]

theorem DnsCent.filedAt_dropRrset (h : ∀ idx, cent.FiledAt idx) (hget : cent.get i = some rrset)
    (idx : Option RrIndex) : (cent.dropRrset env i rrset).FiledAt idx := by
  cases idx with
  | none => rfl
  | some j =>
    by_cases hj : j = i
    · rw [FiledAt, lentAt, hasAt, get_dropRrset hget, hj, Function.update_self]
      rfl
    · have hfiled := h (some j)
      rw [FiledAt, lentAt, hasAt, isLocalAt, Option.bind_some] at hfiled ⊢
      rw [get_dropRrset hget, Function.update_of_ne hj]
      exact hfiled

/-- `del_cent_rrset_by_index` where there is a set. -/
theorem Linked.delCentRrset (h : Linked env.sizes c.heap c.rrset_l) (hcent : c.heap key = some cent)
    (hget : cent.get i = some rrset) :
    c.delCentRrset env key i =
      some ({ c with
        heap := Function.update c.heap key (some (cent.dropRrset env i rrset))
        rrset_l := c.rrset_l.erase ⟨key, some i⟩ }, rrset.size env.sizes) ∧
      Linked env.sizes (Function.update c.heap key (some (cent.dropRrset env i rrset)))
        (c.rrset_l.erase ⟨key, some i⟩) := by
  have hkey : (cent.dropRrset env i rrset).qname.key = key :=
    show cent.qname.key = key from h.key hcent
  constructor
  · have hremove := h.removeLent hcent (some i)
    rw [DnsCent.lentAt_of_get hget] at hremove
    rw [Cache.delCentRrset, hcent, Option.bind_some, hget]
    simp only [hremove, Option.map_some, Cache.write, hkey]
  · refine h.unlink hcent hkey ((h.accounted hcent).dropRrset hget) (some i) ?_ ?_
    · rw [DnsCent.lentAt, DnsCent.get_dropRrset hget, Function.update_self, Option.any_none]
    · exact fun idx hidx ↦ DnsCent.lentAt_dropRrset hget hidx

end Remove

section Free

variable {env : Env} {c : Cache} {key : Key} {cent : DnsCent}

/-- The loop of `free_cent` takes the elements of the sets from the list. -/
theorem foldlM_removeLent {a : RrArrays} {is : List RrIndex} (his : is.Nodup) {l : List Lent}
    (hl : l.Nodup)
    (hlent : ∀ i ∈ is, ⟨key, some i⟩ ∈ l ↔ (a.get i).any RrSet.lent = true) :
    is.foldlM (fun (c : Cache) i ↦
        match a.get i with
        | none => some c
        | some rrset => c.removeLent rrset.lent ⟨key, some i⟩) { c with rrset_l := l } =
      some { c with rrset_l := l.filter fun le ↦ le ∉ is.map fun i ↦ ⟨key, some i⟩ } := by
  induction is generalizing l with
  | nil => simp
  | cons i is ih =>
    obtain ⟨hi, his⟩ := List.nodup_cons.mp his
    have hmem := hlent i List.mem_cons_self
    have hstep : (match a.get i with
        | none => some { c with rrset_l := l }
        | some rrset => Cache.removeLent { c with rrset_l := l } rrset.lent ⟨key, some i⟩) =
        some { c with rrset_l := l.erase ⟨key, some i⟩ } := by
      cases hget : a.get i with
      | none =>
        rw [hget] at hmem
        rw [List.erase_of_not_mem fun hin ↦ Bool.false_ne_true (hmem.mp hin)]
      | some rrset =>
        rw [hget, Option.any_some] at hmem
        simp only [Cache.removeLent, Cache.removeRrl]
        split
        next hl => rw [if_pos (hmem.mpr hl)]
        next hl => rw [List.erase_of_not_mem fun hin ↦ hl (hmem.mp hin)]
    have hrest := ih his (hl.erase ⟨key, some i⟩) fun j hj ↦ by
      rw [hl.mem_erase_iff, ← hlent j (List.mem_cons_of_mem i hj)]
      refine and_iff_right fun heq ↦ hi ?_
      rw [← Option.some.inj (congrArg Lent.idx heq)]
      exact hj
    rw [List.foldlM_cons, hstep]
    refine hrest.trans ?_
    rw [hl.erase_eq_filter, List.filter_filter]
    congr 2
    refine List.filter_congr fun le _ ↦ ?_
    simp only [List.map_cons, List.mem_cons, not_or, bne, Bool.decide_and, beq_eq_decide, decide_not]
    exact Bool.and_comm _ _

/-- `free_cent` for an entry of the cache. -/
theorem Linked.freeCent (h : Linked env.sizes c.heap c.rrset_l) (hcent : c.heap key = some cent) :
    c.freeCent key = some { c with rrset_l := c.rrset_l.filter fun le ↦ le.cent ≠ key } := by
  rw [Cache.freeCent, hcent, Option.bind_some]
  cases hdomain : cent.domain with
  | neg lent ttl ts =>
    have hlent : cent.lentAt none = lent := by
      rw [DnsCent.lentAt, hdomain]
    have hremove := h.removeLent hcent none
    rw [hlent] at hremove
    refine hremove.trans ?_
    rw [h.nodup.erase_eq_filter]
    congr 2
    refine List.filter_congr fun le hle ↦ ?_
    rw [bne, beq_eq_decide, ← decide_not, decide_eq_decide, not_iff_not]
    constructor
    · exact fun heq ↦ congrArg Lent.cent heq
    · obtain ⟨k, idx⟩ := le
      rintro rfl
      rw [h.mem_iff_lentAt hcent] at hle
      cases idx with
      | none => rfl
      | some i =>
        rw [DnsCent.lentAt, DnsCent.get_neg hdomain] at hle
        exact absurd hle Bool.false_ne_true
  | rr a =>
    have hget : cent.get = a.get := DnsCent.get_rr hdomain
    have hfold := @foldlM_removeLent c key a a.indices RrArrays.nodup_indices c.rrset_l h.nodup
      fun i _ ↦ by rw [h.mem_iff_lentAt hcent, DnsCent.lentAt, hget]
    refine hfold.trans ?_
    congr 2
    refine List.filter_congr fun le hle ↦ ?_
    rw [decide_eq_decide, not_iff_not, List.mem_map]
    constructor
    · rintro ⟨i, -, rfl⟩
      rfl
    · obtain ⟨k, idx⟩ := le
      rintro rfl
      rw [h.mem_iff_lentAt hcent] at hle
      cases idx with
      | none =>
        rw [DnsCent.lentAt, hdomain] at hle
        exact absurd hle Bool.false_ne_true
      | some i =>
        rw [DnsCent.lentAt, hget] at hle
        obtain ⟨rrset, hrrset, -⟩ := (Option.any_eq_true ..).mp hle
        exact ⟨i, RrArrays.mem_indices.mpr (RrArrays.hasPlace_of_get hrrset), rfl⟩

/-- `del_cent`. -/
theorem Linked.delCent (h : Linked env.sizes c.heap c.rrset_l) (hcent : c.heap key = some cent) :
    c.delCent key =
      some { c with
        heap := Function.update c.heap key none
        rrset_l := c.rrset_l.filter fun le ↦ le.cent ≠ key
        cache_size := c.cache_size - cent.cs
        ent_num := c.ent_num - 1 } := by
  have hfree := @Linked.freeCent env { c with cache_size := c.cache_size - cent.cs } key cent h hcent
  rw [Cache.delCent, hcent, Option.bind_some, hfree, Option.map_some]

end Free

end Orbot.Pdnsd.DnsCache
