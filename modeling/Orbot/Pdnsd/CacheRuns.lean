import Orbot.Pdnsd.CacheMerging

/-!
# Runs of the cache

Threads make entries, add them to the cache and get copies of entries from it, in any order and at any
times. In every run no operation follows a pointer to freed memory, the list has exactly the sets that
are not local, and the counters are exact, so the cache stays within its limit.
-/

namespace Orbot.Pdnsd.DnsCache

open Foundation

section Operations

variable {env : Env} {c : Cache}

/-- `del_cache`. -/
theorem Cache.Sound.delCache (h : c.Sound env) (name : DomainName) :
    ∃ c', c.delCache env name = some c' ∧ c'.Sound env ∧
      c'.memory - c'.cache_size = c.memory - c.cache_size ∧ c'.cache_size ≤ c.cache_size ∧
      c'.rrset_l.length ≤ c.rrset_l.length := by
  obtain ⟨hwf, hkeys, hfound⟩ := h.delDnsHash name
  rw [Cache.delCache]
  generalize hdel : Pdnsd.delDnsHash env.longBits id c.hash name.rhn = deleted at hwf hkeys hfound ⊢
  obtain ⟨hash, found⟩ := deleted
  cases found with
  | none => exact ⟨c, rfl, h, rfl, le_rfl, le_rfl⟩
  | some qname =>
    cases hcent : c.heap name.key with
    | none =>
      rw [hcent] at hfound
      exact absurd hfound (Option.some_ne_none _)
    | some cent =>
      rw [hcent] at hfound
      have hqname : qname.key = name.key := Option.some.inj hfound
      obtain ⟨c', hdelCent, hsound, hfreed⟩ := h.delCent hcent hwf hkeys
      have hmemory := Cache.memory_free hfreed.keys hfreed.heap (h.mem_of_heap hcent) hcent
      have hcs := (h.linked.accounted hcent).cs_nonneg
      have hsize := hfreed.cache_size
      refine ⟨c', ?_, hsound, ?_, ?_, ?_⟩
      · simp only [hqname, hdelCent]
      · omega
      · omega
      · rw [hfreed.rrset_l]
        exact List.length_filter_le _ _

/-- A change of an entry that keeps the pointers to the list, the sizes of its sets, and what is
local. -/
theorem Cache.Sound.modifyCent (h : c.Sound env) (name : DomainName) {f : DnsCent → DnsCent}
    (hf : ∀ cent : DnsCent, cent.Accounted env.sizes → (f cent).Accounted env.sizes ∧
      (f cent).qname = cent.qname ∧ (f cent).cs = cent.cs ∧
      ∀ idx, (f cent).lentAt idx = cent.lentAt idx ∧
        (cent.FiledAt idx → (f cent).FiledAt idx)) :
    ∃ c', c.modifyCent env name f = some c' ∧ c'.Sound env ∧
      c'.memory - c'.cache_size = c.memory - c.cache_size ∧ c'.cache_size ≤ c.cache_size ∧
      c'.rrset_l.length ≤ c.rrset_l.length := by
  rw [Cache.modifyCent, h.lookup_rhn]
  cases hcent : c.heap name.key with
  | none => exact ⟨c, rfl, h, rfl, le_rfl, le_rfl⟩
  | some cent =>
    obtain ⟨haccounted, hqname, hcs, hidx⟩ := hf cent (h.linked.accounted hcent)
    have hkey : (f cent).qname.key = name.key := by
      rw [hqname, h.linked.key hcent]
    have hedit : Edited name.key (f cent) c (c.write (f cent)) :=
      ⟨by rw [← hkey, Cache.write], rfl, rfl, rfl⟩
    have hlinked := h.linked.write hcent hkey haccounted fun idx ↦ (hidx idx).1
    rw [← hedit.heap] at hlinked
    have hmemory := Cache.memory_update hedit.keys hedit.heap (h.mem_of_heap hcent) hcent
    refine ⟨c.write (f cent), ?_, h.edited hcent hedit hlinked fun idx ↦
      (hidx idx).2 (h.filed _ cent hcent idx), ?_, le_rfl, le_rfl⟩
    · simp only [Option.map_some, hcent]
    · rw [hmemory, hcs]
      change c.memory - cent.cs + cent.cs - c.cache_size = _
      omega

theorem DnsCent.get_invalidate (cent : DnsCent) : cent.invalidate.get = fun i ↦
    (cent.get i).map fun rrs ↦ { rrs with ts := 0, flags := { rrs.flags with auth := false } } := by
  cases hdomain : cent.domain with
  | neg lent ttl ts =>
    have hinvalidate : cent.invalidate.domain = .neg lent ttl 0 := by
      rw [invalidate, hdomain]
    rw [get_neg hinvalidate, get_neg hdomain]
    rfl
  | rr a =>
    have hinvalidate : cent.invalidate.domain = .rr { a with
        sets := fun i ↦ (a.get i).map fun rrs ↦
          { rrs with ts := 0, flags := { rrs.flags with auth := false } } } := by
      rw [invalidate, hdomain]
    rw [get_rr hinvalidate, get_rr hdomain]
    funext i
    by_cases hplace : a.HasPlace i
    · exact if_pos hplace
    · rw [RrArrays.get_of_not_hasPlace hplace]
      exact if_neg hplace

/-- `invalidate_record`. -/
theorem Cache.Sound.invalidateRecord (h : c.Sound env) (name : DomainName) :
    ∃ c', c.invalidateRecord env name = some c' ∧ c'.Sound env ∧
      c'.memory - c'.cache_size = c.memory - c.cache_size ∧ c'.cache_size ≤ c.cache_size ∧
      c'.rrset_l.length ≤ c.rrset_l.length := by
  refine h.modifyCent name fun cent haccounted ↦ ⟨⟨?_, ?_⟩, rfl, rfl, fun idx ↦ ?_⟩
  · have hsize : ∀ i, RrSet.sizeAt env.sizes (cent.invalidate.get i) =
        RrSet.sizeAt env.sizes (cent.get i) := by
      intro i
      rw [congrFun cent.get_invalidate i]
      cases cent.get i <;> rfl
    have hext : cent.invalidate.arrays.extSize env.sizes = cent.arrays.extSize env.sizes := by
      cases hdomain : cent.domain <;>
        simp [DnsCent.invalidate, DnsCent.arrays, hdomain, RrArrays.extSize]
    have hcs := haccounted.cs
    rw [DnsCent.size] at hcs ⊢
    rw [hext, Finset.sum_congr rfl fun i _ ↦ hsize i]
    exact hcs
  · have hnum := haccounted.num_rrs
    rw [cent.get_invalidate]
    simp only [countOf, Option.isSome_map] at hnum ⊢
    exact hnum
  · have hlent : cent.invalidate.lentAt idx = cent.lentAt idx := by
      cases idx with
      | none => cases hdomain : cent.domain <;> simp [DnsCent.lentAt, DnsCent.invalidate, hdomain]
      | some i =>
        rw [DnsCent.lentAt, congrFun cent.get_invalidate i, DnsCent.lentAt]
        cases cent.get i <;> rfl
    refine ⟨hlent, fun hfiled ↦ ?_⟩
    rw [DnsCent.FiledAt, hlent, hfiled]
    cases idx with
    | none =>
      cases hdomain : cent.domain <;>
        simp [DnsCent.hasAt, DnsCent.isNegative, DnsCent.isLocalAt, DnsCent.invalidate, hdomain]
    | some i =>
      rw [DnsCent.hasAt, DnsCent.isLocalAt, DnsCent.hasAt, DnsCent.isLocalAt, Option.bind_some,
        Option.bind_some, congrFun cent.get_invalidate i]
      cases cent.get i <;> rfl

/-- `set_cent_flags`. -/
theorem Cache.Sound.setCentWild (h : c.Sound env) (name : DomainName) :
    ∃ c', c.setCentWild env name = some c' ∧ c'.Sound env ∧
      c'.memory - c'.cache_size = c.memory - c.cache_size ∧ c'.cache_size ≤ c.cache_size ∧
      c'.rrset_l.length ≤ c.rrset_l.length :=
  h.modifyCent name fun _ haccounted ↦
    ⟨⟨haccounted.cs, haccounted.num_rrs⟩, rfl, rfl, fun _ ↦ ⟨rfl, fun hfiled ↦ hfiled⟩⟩

/-- The loop of `free_dns_hash_bucket`, when the entries are not in the hash table any more. -/
theorem freeEnts {ents : List (HashEnt DomainName)} (hlinked : Linked env.sizes c.heap c.rrset_l)
    (hfiled : Filed c.heap) (hwf : c.hash.WellFormed env.longBits id)
    (hnodup : (ents.map fun he ↦ he.data.key).Nodup) (hkeys : ∀ he ∈ ents, he.data.key ∉ c.keys)
    (hheap : ∀ k, (c.heap k).isSome = true ↔ k ∈ c.keys ∨ k ∈ ents.map fun he ↦ he.data.key)
    (hnum : c.ent_num = c.keys.card + ents.length) :
    ∃ c', ents.foldlM (fun c he ↦ c.delCent he.data.key) c = some c' ∧ c'.Sound env ∧
      c'.memory - c'.cache_size =
        c.memory + (ents.map fun he ↦ memoryOf (c.heap he.data.key)).sum - c.cache_size ∧
      c'.cache_size ≤ c.cache_size ∧ c'.rrset_l.length ≤ c.rrset_l.length := by
  induction ents generalizing c with
  | nil =>
    refine ⟨c, rfl, ⟨hlinked, hfiled, hwf, fun k ↦ ?_, ?_⟩, ?_, le_rfl, le_rfl⟩
    · rw [hheap]
      simp
    · rwa [List.length_nil, Nat.cast_zero, add_zero] at hnum
    · simp
  | cons he ents ih =>
    rw [List.map_cons, List.nodup_cons] at hnodup
    obtain ⟨cent, hcent⟩ := Option.isSome_iff_exists.mp
      ((hheap he.data.key).mpr (.inr List.mem_cons_self))
    have hdel := hlinked.delCent hcent
    generalize hc₁ : ({ c with
        heap := Function.update c.heap he.data.key none
        rrset_l := c.rrset_l.filter fun le ↦ le.cent ≠ he.data.key
        cache_size := c.cache_size - cent.cs
        ent_num := c.ent_num - 1 } : Cache) = c₁ at hdel
    have hheap₁ : c₁.heap = Function.update c.heap he.data.key none := by rw [← hc₁]
    have hlist₁ : c₁.rrset_l = c.rrset_l.filter fun le ↦ le.cent ≠ he.data.key := by rw [← hc₁]
    have hhash₁ : c₁.hash = c.hash := by rw [← hc₁]
    have hsize₁ : c₁.cache_size = c.cache_size - cent.cs := by rw [← hc₁]
    have hnum₁ : c₁.ent_num = c.ent_num - 1 := by rw [← hc₁]
    have hkeys₁ : c₁.keys = c.keys := by rw [Cache.keys, hhash₁, Cache.keys]
    have hne : ∀ {k}, k ∈ ents.map (fun he ↦ he.data.key) → k ≠ he.data.key :=
      fun hk heq ↦ hnodup.1 (heq ▸ hk)
    have hnot := hkeys he List.mem_cons_self
    obtain ⟨c', hfold, hsound, hslack, hsize, hlength⟩ := @ih c₁
      (by rw [hheap₁, hlist₁]; exact hlinked.free) (by rw [hheap₁]; exact hfiled.free)
      (by rw [hhash₁]; exact hwf) hnodup.2
      (fun he' hmem ↦ by rw [hkeys₁]; exact hkeys he' (List.mem_cons_of_mem he hmem))
      (fun k ↦ by
        rw [hheap₁, hkeys₁]
        by_cases hk : k = he.data.key
        · rw [hk, Function.update_self]
          simp only [Option.isSome_none, Bool.false_eq_true, false_iff, not_or]
          exact ⟨hnot, hnodup.1⟩
        · rw [Function.update_of_ne hk, hheap, List.map_cons, List.mem_cons]
          simp only [hk, false_or])
      (by rw [hnum₁, hkeys₁, hnum, List.length_cons]; omega)
    have hmemory : c₁.memory = c.memory := by
      rw [Cache.memory, Cache.memory, hkeys₁, hheap₁]
      refine Finset.sum_congr rfl fun k hk ↦ ?_
      rw [Function.update_of_ne (ne_of_mem_of_not_mem hk hnot)]
    have hsum : (ents.map fun he ↦ memoryOf (c₁.heap he.data.key)).sum =
        (ents.map fun he ↦ memoryOf (c.heap he.data.key)).sum := by
      refine congrArg List.sum (List.map_congr_left fun he' hmem ↦ ?_)
      rw [hheap₁, Function.update_of_ne (hne (List.mem_map_of_mem hmem))]
    have hcs := (hlinked.accounted hcent).cs_nonneg
    refine ⟨c', ?_, hsound, ?_, by omega, ?_⟩
    · rw [List.foldlM_cons, hdel]
      exact hfold
    · rw [hslack, hmemory, hsum, hsize₁, List.map_cons, List.sum_cons, hcent]
      simp only [memoryOf, Option.map_some, Option.getD_some]
      omega
    · refine hlength.trans ?_
      rw [hlist₁]
      exact List.length_filter_le _ _

theorem Cache.Sound.freeChain (h : c.Sound env) (i : Fin HASH_NUM_BUCKETS)
    (select : DomainName → Bool) :
    ∃ c', c.freeChain i select = some c' ∧ c'.Sound env ∧
      c'.memory - c'.cache_size = c.memory - c.cache_size ∧ c'.cache_size ≤ c.cache_size ∧
      c'.rrset_l.length ≤ c.rrset_l.length := by
  have hparts : ((c.hash i).map HashEnt.data).Perm
      (((c.hash i).filter fun he ↦ select he.data).map HashEnt.data ++
        ((c.hash i).filter fun he ↦ !select he.data).map HashEnt.data) := by
    rw [← List.map_append]
    exact (List.filter_append_perm _ _).symm.map _
  have hperm := Buckets.entries_update_append hparts
  have hnodup := h.hash.nodup_entries
  rw [(hperm.map _).nodup_iff, List.map_append] at hnodup
  obtain ⟨hfreed, -, hapart⟩ := List.nodup_append.mp hnodup
  have hsub : ((c.hash i).filter fun he ↦ !select he.data).Sublist (c.hash i) := List.filter_sublist
  have hwf : HashBuckets.WellFormed env.longBits id
      (Function.update c.hash i ((c.hash i).filter fun he ↦ !select he.data)) :=
    h.hash.update ((h.hash.sorted i).sublist hsub) (fun he hmem ↦ h.hash.placed i he (hsub.subset hmem))
      ((h.hash.nodup i).sublist (hsub.map _))
  have hkeys : c.keys = (((c.hash i).filter fun he ↦ select he.data).map
      fun he ↦ he.data.key).toFinset ∪
        ((Buckets.entries (Function.update c.hash i
          ((c.hash i).filter fun he ↦ !select he.data))).map DomainName.key).toFinset := by
    rw [Cache.keys, List.toFinset_eq_of_perm _ _ (hperm.map DomainName.key), List.map_append,
      List.toFinset_append, List.map_map]
    rfl
  rw [List.map_map] at hfreed
  have hfreed : (((c.hash i).filter fun he ↦ select he.data).map fun he ↦ he.data.key).Nodup := hfreed
  have hdisjoint : Disjoint (((c.hash i).filter fun he ↦ select he.data).map
      fun he ↦ he.data.key).toFinset
        ((Buckets.entries (Function.update c.hash i
          ((c.hash i).filter fun he ↦ !select he.data))).map DomainName.key).toFinset := by
    refine Finset.disjoint_left.mpr fun k hk hk' ↦ ?_
    rw [List.mem_toFinset] at hk hk'
    rw [List.map_map] at hapart
    exact hapart k hk k hk' rfl
  obtain ⟨c', hfold, hsound, hslack, hsize, hlength⟩ := @freeEnts env
    { c with hash := Function.update c.hash i ((c.hash i).filter fun he ↦ !select he.data) }
    ((c.hash i).filter fun he ↦ select he.data) h.linked h.filed hwf hfreed
    (fun he hmem hin ↦ Finset.disjoint_left.mp hdisjoint
      (List.mem_toFinset.mpr (List.mem_map_of_mem hmem)) hin)
    (fun k ↦ by
      rw [← h.mem_keys, hkeys, Finset.mem_union, List.mem_toFinset, or_comm]
      rfl)
    (by
      change c.ent_num = _
      rw [h.ent_num, hkeys, Finset.card_union_of_disjoint hdisjoint,
        List.toFinset_card_of_nodup hfreed, List.length_map, Nat.cast_add, add_comm]
      rfl)
  refine ⟨c', hfold, hsound, ?_, hsize, hlength⟩
  have hmemory : c.memory = Cache.memory
      { c with hash := Function.update c.hash i ((c.hash i).filter fun he ↦ !select he.data) } +
        (((c.hash i).filter fun he ↦ select he.data).map fun he ↦ memoryOf (c.heap he.data.key)).sum := by
    rw [Cache.memory, hkeys, Finset.sum_union hdisjoint, List.sum_toFinset _ hfreed, List.map_map,
      add_comm]
    rfl
  rw [hslack, hmemory]

/-- `empty_cache` for one chain. -/
theorem Cache.Sound.freeDnsHash (h : c.Sound env) (i : Fin HASH_NUM_BUCKETS)
    (sla : Option (List SlistElem)) :
    ∃ c', c.freeDnsHash i sla = some c' ∧ c'.Sound env ∧
      c'.memory - c'.cache_size = c.memory - c.cache_size ∧ c'.cache_size ≤ c.cache_size ∧
      c'.rrset_l.length ≤ c.rrset_l.length :=
  h.freeChain i _

end Operations

section Lookups

variable {env : Env} {c : Cache}

theorem Cache.Sound.searchAbove (h : c.Sound env) (labels : List Octets) :
    ∃ found w, c.searchAbove env labels = some (found, w) ∧
      ∀ key, found = some key → ∃ cent, c.heap key = some cent := by
  induction labels with
  | nil => exact ⟨none, .no, rfl, fun key hkey ↦ absurd hkey (Option.some_ne_none key).symm⟩
  | cons label labels ih =>
    rw [Cache.searchAbove]
    cases hlookup : c.lookup env (encode (label :: labels)) with
    | none => exact ih
    | some key =>
      obtain ⟨ret, hret⟩ := h.lookup_heap hlookup
      have hnothing : ∀ key, (none : Option Key) = some key → ∃ cent, c.heap key = some cent :=
        fun key hkey ↦ absurd hkey (Option.some_ne_none key).symm
      have hthis : ∀ key', some key = some key' → ∃ cent, c.heap key' = some cent := by
        intro key' hkey
        exact ⟨ret, Option.some.inj hkey ▸ hret⟩
      simp only [hret, Option.map_some]
      split
      next => exact ⟨_, _, rfl, hthis⟩
      next =>
        split
        next =>
          split
          next => exact ⟨_, _, rfl, hnothing⟩
          next wild hwild =>
            refine ⟨_, _, rfl, fun key' hkey ↦ ?_⟩
            obtain rfl := Option.some.inj hkey
            exact h.lookup_heap hwild
        next =>
          split
          next => exact ⟨_, _, rfl, hthis⟩
          next => exact ⟨_, _, rfl, hnothing⟩

theorem Cache.Sound.findCent (h : c.Sound env) (name : DomainName) (wild : Bool) :
    ∃ found w, c.findCent env name wild = some (found, w) ∧
      ∀ key, found = some key → ∃ cent, c.heap key = some cent := by
  rw [Cache.findCent]
  cases hlookup : c.lookup env name.rhn with
  | some key =>
    refine ⟨_, _, rfl, fun key' hkey ↦ ?_⟩
    obtain rfl := Option.some.inj hkey
    exact h.lookup_heap hlookup
  | none =>
    cases wild with
    | true => exact h.searchAbove _
    | false =>
      exact ⟨none, .no, rfl, fun key hkey ↦ absurd hkey (Option.some_ne_none key).symm⟩

/-- `lookup_cache` with read access. -/
theorem Cache.Sound.lookupCacheR (h : c.Sound env) (now : ℤ) (name : DomainName) (wild : Bool) :
    ∃ found, c.lookupCacheR env now name wild = some found ∧
      ∀ cent w, found = some (some cent, w) → cent.Accounted env.sizes := by
  obtain ⟨found, w, hfind, hheap⟩ := h.findCent name wild
  rw [Cache.lookupCacheR, hfind, Option.bind_some]
  cases found with
  | none =>
    refine ⟨_, rfl, fun cent w' hcent ↦ ?_⟩
    exact absurd (congrArg Prod.fst (Option.some.inj hcent)) (Option.some_ne_none cent).symm
  | some key =>
    obtain ⟨cent, hcent⟩ := hheap key rfl
    obtain ⟨c', npurge, hpurge, -, -, -, hsame⟩ := h.purgeCent hcent now true true
    simp only [hpurge, Option.bind_some, hsame rfl, hcent, Option.map_some]
    split
    next =>
      refine ⟨_, rfl, fun cent' w' hcent' ↦ ?_⟩
      obtain rfl := Option.some.inj (congrArg Prod.fst (Option.some.inj hcent'))
      exact (h.linked.accounted hcent).copy
    next => exact ⟨_, rfl, fun cent' w' hcent' ↦ absurd hcent' (Option.some_ne_none _).symm⟩

/-- `lookup_cache` with read and write access. -/
theorem Cache.Sound.lookupCacheRw (h : c.Sound env) (now : ℤ) (name : DomainName) (wild : Bool) :
    ∃ c' ret w, c.lookupCacheRw env now name wild = some (c', ret, w) ∧ c'.Sound env ∧
      Shrinks c c' ∧ ∀ cent, ret = some cent → cent.Accounted env.sizes := by
  obtain ⟨found, w, hfind, hheap⟩ := h.findCent name wild
  rw [Cache.lookupCacheRw, hfind, Option.bind_some]
  cases found with
  | none =>
    exact ⟨c, none, w, rfl, h, .refl c, fun cent hcent ↦ absurd hcent (Option.some_ne_none cent).symm⟩
  | some key =>
    obtain ⟨cent, hcent⟩ := hheap key rfl
    obtain ⟨c', npurge, hpurge, hsound, hshrinks, hleft, -⟩ := h.purgeCent hcent now true false
    simp only [hpurge, Option.bind_some]
    by_cases hgone : npurge < 0
    · rw [if_pos hgone]
      exact ⟨c', none, w, rfl, hsound, hshrinks,
        fun cent hcent ↦ absurd hcent (Option.some_ne_none cent).symm⟩
    · obtain ⟨cent', hcent'⟩ := hleft.resolve_left fun hdeleted ↦ hgone hdeleted.2
      rw [if_neg hgone, hcent', Option.map_some]
      refine ⟨c', _, w, rfl, hsound, hshrinks, fun cent'' hcent'' ↦ ?_⟩
      obtain rfl := Option.some.inj hcent''
      exact (hsound.linked.accounted hcent').copy

theorem Cache.Sound.lookupCacheLocalRrset (h : c.Sound env) (name : DomainName) (type : ℕ) :
    ∃ found, c.lookupCacheLocalRrset env name type = some found := by
  rw [Cache.lookupCacheLocalRrset]
  cases hlookup : c.lookup env name.rhn with
  | none => exact ⟨_, rfl⟩
  | some key =>
    obtain ⟨cent, hcent⟩ := h.lookup_heap hlookup
    simp only [hcent, Option.map_some]
    exact ⟨_, rfl⟩

end Lookups

section Size

variable {env : Env} {c : Cache} {key : Key}

/-- The elements of the list for an entry are no more than its memory has room for. -/
theorem Cache.Sound.mul_card_le (h : c.Sound env)
    (hsizes : env.sizes.rr_set_t ≤ env.sizes.dns_cent_t) (hkey : key ∈ c.keys) :
    (env.sizes.rr_set_t : ℤ) * (c.rrset_l.toFinset.filter fun le ↦ le.cent = key).card ≤
      memoryOf (c.heap key) := by
  obtain ⟨cent, hcent⟩ := Option.isSome_iff_exists.mp ((h.mem_keys key).mp hkey)
  have hcs := (h.linked.accounted hcent).le_cs
  have hlent : ∀ idx, (⟨key, idx⟩ : Lent) ∈ c.rrset_l.toFinset.filter (fun le ↦ le.cent = key) →
      cent.hasAt idx = true := by
    intro idx hmem
    rw [Finset.mem_filter, List.mem_toFinset] at hmem
    exact DnsCent.hasAt_of_lentAt ((h.linked.mem_iff_lentAt hcent idx).mp hmem.1)
  have hcent' : ∀ le ∈ c.rrset_l.toFinset.filter (fun le ↦ le.cent = key), le = ⟨key, le.idx⟩ := by
    rintro ⟨k, idx⟩ hmem
    obtain rfl : k = key := (Finset.mem_filter.mp hmem).2
    rfl
  have hmemory : memoryOf (c.heap key) = cent.cs := by
    rw [hcent]
    rfl
  rw [hmemory]
  cases hneg : cent.isNegative with
  | true =>
    have hcard : (c.rrset_l.toFinset.filter fun le ↦ le.cent = key).card ≤ 1 := by
      refine Finset.card_le_one.mpr fun le hle le' hle' ↦ ?_
      have hidx : ∀ le ∈ c.rrset_l.toFinset.filter (fun le ↦ le.cent = key), le.idx = none := by
        intro le hle
        have hhas := hlent le.idx (hcent' le hle ▸ hle)
        cases hidx : le.idx with
        | none => rfl
        | some i =>
          rw [hidx, DnsCent.hasAt] at hhas
          obtain ⟨rrset, hget⟩ := Option.isSome_iff_exists.mp hhas
          exact absurd (hneg.symm.trans (DnsCent.isNegative_of_get hget)) Bool.true_eq_false.mp
      rw [hcent' le hle, hcent' le' hle', hidx le hle, hidx le' hle']
    have hmul : (env.sizes.rr_set_t : ℤ) *
        (c.rrset_l.toFinset.filter fun le ↦ le.cent = key).card ≤ env.sizes.rr_set_t * 1 :=
      Int.mul_le_mul_of_nonneg_left (by exact_mod_cast hcard) (Int.natCast_nonneg _)
    have hrrsets : (0 : ℤ) ≤ env.sizes.rr_set_t * countOf Option.isSome cent.get :=
      Int.mul_nonneg (Int.natCast_nonneg _) (Int.natCast_nonneg _)
    omega
  | false =>
    have hsub : (c.rrset_l.toFinset.filter fun le ↦ le.cent = key) ⊆
        (Finset.univ.filter fun i ↦ (cent.get i).isSome = true).image fun i ↦ ⟨key, some i⟩ := by
      intro le hle
      have hhas := hlent le.idx (hcent' le hle ▸ hle)
      cases hidx : le.idx with
      | none =>
        rw [hidx, DnsCent.hasAt, hneg] at hhas
        exact absurd hhas Bool.false_ne_true
      | some i =>
        rw [hidx] at hhas
        refine Finset.mem_image.mpr ⟨i, Finset.mem_filter.mpr ⟨Finset.mem_univ i, hhas⟩, ?_⟩
        rw [hcent' le hle, hidx]
    have hcard : (c.rrset_l.toFinset.filter fun le ↦ le.cent = key).card ≤
        countOf Option.isSome cent.get :=
      (Finset.card_le_card hsub).trans Finset.card_image_le
    have hmul : (env.sizes.rr_set_t : ℤ) *
        (c.rrset_l.toFinset.filter fun le ↦ le.cent = key).card ≤
          env.sizes.rr_set_t * countOf Option.isSome cent.get :=
      Int.mul_le_mul_of_nonneg_left (by exact_mod_cast hcard) (Int.natCast_nonneg _)
    omega

/-- The list is no longer than the memory of the cache has room for. -/
theorem Cache.Sound.mul_length_le (h : c.Sound env)
    (hsizes : env.sizes.rr_set_t ≤ env.sizes.dns_cent_t) :
    (env.sizes.rr_set_t : ℤ) * c.rrset_l.length ≤ c.memory := by
  have hcard : c.rrset_l.length =
      ∑ key ∈ c.keys, (c.rrset_l.toFinset.filter fun le ↦ le.cent = key).card := by
    rw [← List.toFinset_card_of_nodup h.linked.nodup]
    refine Finset.card_eq_sum_card_fiberwise fun le hle ↦ ?_
    obtain ⟨cent, hcent, -⟩ := h.of_mem (List.mem_toFinset.mp hle)
    exact h.mem_of_heap hcent
  rw [hcard, Nat.cast_sum, Finset.mul_sum]
  exact Finset.sum_le_sum fun key hkey ↦ h.mul_card_le hsizes hkey

end Size

section Runs

variable (env : Env)

/-- The memory limit is so small that the array of `sort_rrl` suffices. -/
structure Env.Roomy : Prop where
  rr_set_t_pos : 0 < env.sizes.rr_set_t
  rr_set_t_le : env.sizes.rr_set_t ≤ env.sizes.dns_cent_t
  limit : env.limit + env.sizes.rr_set_t * NRRTOT < env.sizes.rr_set_t * 2 ^ 32

/-- A consistent state: the counters are exact, and the cache is small enough or has only local
sets. -/
structure Cache.Consistent (c : Cache) : Prop where
  sound : c.Sound env
  cache_size : c.cache_size = c.memory
  bounded : c.cache_size ≤ env.limit ∨ c.rrset_l = []

/-- The cache, and the entries that threads have made or have got from it. -/
structure World where
  cache : Cache
  held : List DnsCent

def World.start : World := ⟨.start, []⟩

/-- What threads do. An entry that they have is changed by making another one. -/
inductive Action where
  | init (qname : DomainName) (ttl ts : ℤ) (negative : Bool) (flags : DomFlags)
  | addRrset (k type : ℕ) (ttl ts : ℤ) (flags : SetFlags)
  | addRr (k type : ℕ) (ttl ts : ℤ) (flags : SetFlags) (data : Octets)
  | negate (k : ℕ) (ttl ts : ℤ)
  | mark (k : ℕ) (flags : DomFlags) (c_ns c_soa : ℕ)
  | add (k : ℕ)
  | del (name : DomainName)
  | invalidate (name : DomainName)
  | setWild (name : DomainName)
  | lookupR (name : DomainName) (wild : Bool)
  | lookupRw (name : DomainName) (wild : Bool)
  | lookupLocal (name : DomainName) (type : ℕ)
  | empty (i : Fin HASH_NUM_BUCKETS) (sla : Option (List SlistElem))
  | beginReading
  | endReading
  | purgeToFile

/-- An entry that a thread has is changed, if the change is possible. -/
def World.edit (w : World) (k : ℕ) (f : DnsCent → Option DnsCent) : World :=
  { w with held := ((w.held[k]?).bind f).toList ++ w.held }

/-- An action at a time; sets are added only where there is none. -/
def World.act (now : ℤ) (w : World) : Action → Option World
  | .init qname ttl ts negative flags =>
      some { w with held := initCent env.sizes qname ttl ts negative flags :: w.held }
  | .addRrset k type ttl ts flags =>
      some (w.edit k fun cent ↦
        if (rrIndex type).bind cent.get = none then cent.addRrsetByType env.sizes type ttl ts flags
        else none)
  | .addRr k type ttl ts flags data =>
      some (w.edit k fun cent ↦ cent.addRr env.sizes type ttl ts flags data)
  | .negate k ttl ts => some (w.edit k fun cent ↦ some (cent.negate env.sizes ttl ts))
  | .mark k flags c_ns c_soa =>
      some (w.edit k fun cent ↦ some { cent with flags := flags, c_ns := c_ns, c_soa := c_soa })
  | .add k =>
      match w.held[k]? with
      | none => some w
      | some cent => (w.cache.addCache env now cent).map fun c ↦ { w with cache := c }
  | .del name => (w.cache.delCache env name).map fun c ↦ { w with cache := c }
  | .invalidate name => (w.cache.invalidateRecord env name).map fun c ↦ { w with cache := c }
  | .setWild name => (w.cache.setCentWild env name).map fun c ↦ { w with cache := c }
  | .lookupR name wild => (w.cache.lookupCacheR env now name wild).map fun found ↦
      { w with held := (found.bind Prod.fst).toList ++ w.held }
  | .lookupRw name wild => (w.cache.lookupCacheRw env now name wild).map fun (c, ret, _) ↦
      ⟨c, ret.toList ++ w.held⟩
  | .lookupLocal name type => (w.cache.lookupCacheLocalRrset env name type).map fun _ ↦ w
  | .empty i sla => (w.cache.freeDnsHash i sla).map fun c ↦ { w with cache := c }
  | .beginReading => some { w with cache := w.cache.beginReading }
  | .endReading => w.cache.endReading.map fun c ↦ { w with cache := c }
  | .purgeToFile => (w.cache.purgeToFile env now).map fun c ↦ { w with cache := c }

def World.run (steps : List (ℤ × Action)) : Option World :=
  steps.foldlM (fun w (now, action) ↦ w.act env now action) .start

variable {env}

/-- The state of the cache is consistent, and the entries of threads count right. -/
structure World.Invariant (env : Env) (w : World) : Prop where
  cache : w.cache.Consistent env
  held : ∀ cent ∈ w.held, cent.Accounted env.sizes

theorem Cache.Consistent.length_lt {c : Cache} (henv : env.Roomy) (h : c.Consistent env) :
    c.rrset_l.length + NRRTOT < 2 ^ 32 := by
  rcases h.bounded with hsize | hlist
  · have hmul := h.sound.mul_length_le henv.rr_set_t_le
    rw [← h.cache_size] at hmul
    have hlt : (env.sizes.rr_set_t : ℤ) * (c.rrset_l.length + NRRTOT : ℕ) <
        env.sizes.rr_set_t * 2 ^ 32 := by
      rw [Nat.cast_add, mul_add]
      have hlimit := henv.limit
      omega
    have hlt' := lt_of_mul_lt_mul_left hlt (Int.natCast_nonneg _)
    exact_mod_cast hlt'
  · rw [hlist, List.length_nil, Nat.zero_add]
    decide

/-- What keeps the cache consistent where nothing is added. -/
theorem Cache.Consistent.of_le {c c' : Cache} (h : c.Consistent env) (hsound : c'.Sound env)
    (hslack : c'.memory - c'.cache_size = c.memory - c.cache_size)
    (hsize : c'.cache_size ≤ c.cache_size) (hlength : c'.rrset_l.length ≤ c.rrset_l.length) :
    c'.Consistent env := by
  have hcache := h.cache_size
  refine ⟨hsound, by omega, ?_⟩
  rcases h.bounded with hbounded | hlist
  · exact .inl (hsize.trans hbounded)
  · rw [hlist] at hlength
    exact .inr (List.eq_nil_of_length_eq_zero (Nat.le_zero.mp hlength))

theorem World.Invariant.edit {w : World} (h : w.Invariant env) (k : ℕ)
    {f : DnsCent → Option DnsCent}
    (hf : ∀ cent cent', cent.Accounted env.sizes → f cent = some cent' →
      cent'.Accounted env.sizes) : (w.edit k f).Invariant env := by
  refine ⟨h.cache, fun cent hcent ↦ ?_⟩
  rcases List.mem_append.mp hcent with hnew | hold
  · obtain ⟨cent₀, hcent₀, hedit⟩ := Option.bind_eq_some_iff.mp (Option.mem_toList.mp hnew)
    exact hf cent₀ cent (h.held cent₀ (List.mem_of_getElem? hcent₀)) hedit
  · exact h.held cent hold

theorem keys_start : Cache.start.keys = ∅ := by
  simp [Cache.keys, Cache.start, mkDnsHash, Buckets.entries]

variable (env) in
theorem consistent_start : Cache.Consistent env .start := by
  refine ⟨⟨⟨List.nodup_nil, fun le ↦ ?_, fun hcent ↦ ?_, fun hcent ↦ ?_⟩, fun _ _ hcent ↦ ?_,
    wellFormed_mkDnsHash, fun key ↦ ?_, ?_⟩, ?_, .inr rfl⟩
  · constructor
    · exact fun hle ↦ absurd hle List.not_mem_nil
    · rintro ⟨cent, hcent, -⟩
      exact absurd hcent (Option.some_ne_none cent).symm
  · exact absurd hcent (Option.some_ne_none _).symm
  · exact absurd hcent (Option.some_ne_none _).symm
  · exact absurd hcent (Option.some_ne_none _).symm
  · rw [keys_start]
    exact ⟨fun h ↦ absurd h (Finset.notMem_empty key), fun h ↦ absurd h Bool.false_ne_true⟩
  · rw [keys_start]
    rfl
  · rw [Cache.memory, keys_start]
    rfl

/-- Whatever a thread does keeps the invariant. -/
theorem World.Invariant.act {w : World} (henv : env.Roomy) (h : w.Invariant env) (now : ℤ)
    (action : Action) : ∃ w', w.act env now action = some w' ∧ w'.Invariant env := by
  have hcache := h.cache
  have hsound := hcache.sound
  have hlength := hcache.length_lt henv
  have hkeep : ∀ {c : Cache}, c.Consistent env → World.Invariant env { w with cache := c } :=
    fun hc ↦ ⟨hc, h.held⟩
  have hless : ∀ {op : Option Cache}, (∃ c', op = some c' ∧ c'.Sound env ∧
      c'.memory - c'.cache_size = w.cache.memory - w.cache.cache_size ∧
      c'.cache_size ≤ w.cache.cache_size ∧ c'.rrset_l.length ≤ w.cache.rrset_l.length) →
      ∃ w', (op.map fun c ↦ { w with cache := c }) = some w' ∧ w'.Invariant env := by
    rintro op ⟨c', rfl, hsound', hslack, hsize, hlength'⟩
    exact ⟨_, rfl, hkeep (hcache.of_le hsound' hslack hsize hlength')⟩
  cases action with
  | init qname ttl ts negative flags =>
    refine ⟨_, rfl, hcache, fun cent hcent ↦ ?_⟩
    rcases List.mem_cons.mp hcent with rfl | hold
    · exact accounted_initCent qname ttl ts negative flags
    · exact h.held cent hold
  | addRrset k type ttl ts flags =>
    refine ⟨_, rfl, h.edit k fun cent cent' haccounted hadd ↦ ?_⟩
    split at hadd
    next hnone => exact haccounted.addRrsetByType hnone hadd
    next => exact absurd hadd (Option.some_ne_none cent').symm
  | addRr k type ttl ts flags data =>
    exact ⟨_, rfl, h.edit k fun _ _ haccounted hadd ↦ haccounted.addRr hadd⟩
  | negate k ttl ts =>
    refine ⟨_, rfl, h.edit k fun cent cent' haccounted hadd ↦ ?_⟩
    obtain rfl := Option.some.inj hadd
    exact haccounted.negate ttl ts
  | mark k flags c_ns c_soa =>
    refine ⟨_, rfl, h.edit k fun cent cent' haccounted hadd ↦ ?_⟩
    obtain rfl := Option.some.inj hadd
    exact ⟨haccounted.cs, haccounted.num_rrs⟩
  | add k =>
    rw [World.act]
    cases hcent : w.held[k]? with
    | none => exact ⟨w, rfl, h⟩
    | some cent =>
      obtain ⟨c', hadd, hsound', hslack, hend⟩ :=
        hsound.addCache (h.held cent (List.mem_of_getElem? hcent)) now hlength
      have hexact := hcache.cache_size
      refine ⟨{ w with cache := c' }, by simp only [hadd, Option.map_some],
        hkeep ⟨hsound', by omega, ?_⟩⟩
      rcases hend with hsize | hlist | rfl
      · exact .inl hsize
      · exact .inr hlist
      · exact hcache.bounded
  | del name => exact hless (hsound.delCache name)
  | invalidate name => exact hless (hsound.invalidateRecord name)
  | setWild name => exact hless (hsound.setCentWild name)
  | lookupR name wild =>
    obtain ⟨found, hfound, haccounted⟩ := hsound.lookupCacheR now name wild
    refine ⟨{ w with held := (found.bind Prod.fst).toList ++ w.held },
      by rw [World.act, hfound, Option.map_some], hcache, fun cent hcent ↦ ?_⟩
    rcases List.mem_append.mp hcent with hnew | hold
    · obtain ⟨⟨ret, wildcard⟩, hret, hcent'⟩ :=
        Option.bind_eq_some_iff.mp (Option.mem_toList.mp hnew)
      obtain rfl : ret = some cent := hcent'
      exact haccounted cent wildcard hret
    · exact h.held cent hold
  | lookupRw name wild =>
    obtain ⟨c', ret, wildcard, hlookup, hsound', hshrinks, haccounted⟩ :=
      hsound.lookupCacheRw now name wild
    refine ⟨⟨c', ret.toList ++ w.held⟩, by rw [World.act, hlookup, Option.map_some],
      hcache.of_le hsound' hshrinks.slack hshrinks.size_le hshrinks.subperm.length_le,
      fun cent hcent ↦ ?_⟩
    rcases List.mem_append.mp hcent with hnew | hold
    · exact haccounted cent (Option.mem_toList.mp hnew)
    · exact h.held cent hold
  | lookupLocal name type =>
    obtain ⟨found, hfound⟩ := hsound.lookupCacheLocalRrset name type
    exact ⟨w, by rw [World.act, hfound, Option.map_some], h⟩
  | empty i sla => exact hless (hsound.freeDnsHash i sla)
  | beginReading =>
    refine ⟨_, rfl, hkeep ⟨?_, hcache.cache_size, hcache.bounded⟩⟩
    exact hsound.perm (.refl _) false
  | endReading =>
    obtain ⟨c', hend, hsound', hshrinks, -⟩ :=
      hsound.endReading (Nat.lt_of_le_of_lt (Nat.le_add_right _ _) hlength)
    exact hless ⟨c', hend, hsound', hshrinks.slack, hshrinks.size_le, hshrinks.subperm.length_le⟩
  | purgeToFile =>
    obtain ⟨c', hpurge, hsound', hshrinks, -⟩ :=
      hsound.purgeCache (Nat.lt_of_le_of_lt (Nat.le_add_right _ _) hlength) now
        (env.perm_cache * 1024) false
    exact hless ⟨c', hpurge, hsound', hshrinks.slack, hshrinks.size_le, hshrinks.subperm.length_le⟩

/-- In every run every operation succeeds, and the cache is consistent after it. -/
theorem cache_consistent (henv : env.Roomy) (steps : List (ℤ × Action)) :
    ∃ w, World.run env steps = some w ∧ w.cache.Consistent env := by
  have hstart : World.start.Invariant env :=
    ⟨consistent_start env, fun cent hcent ↦ absurd hcent List.not_mem_nil⟩
  obtain ⟨w, hrun, hinvariant⟩ := exists_foldlM hstart
    fun (step : ℤ × Action) (_ : step ∈ steps) w hw ↦ hw.act henv step.1 step.2
  exact ⟨w, hrun, hinvariant.cache⟩

/-- The sizes on a platform with pointers of four octets, and a cache of two megaoctets. -/
def smallEnv : Env := ⟨⟨60, 20, 8, 4⟩, 32, 2048, 120, 604800, 900⟩

theorem cache_consistent_two_names :
    ∃ w, World.run smallEnv
      [(5, .init ⟨[[97]], List.forall_mem_singleton.mpr ⟨by decide, by decide⟩, by decide⟩ 0 0 false
          ⟨false, false, false, false⟩),
        (5, .addRr 0 1 300 5 ⟨false, false, false, false, false, false, false⟩ [127, 0, 0, 1]),
        (6, .add 0),
        (7, .init ⟨[[98]], List.forall_mem_singleton.mpr ⟨by decide, by decide⟩, by decide⟩ 60 7 true
          ⟨false, false, false, false⟩),
        (7, .add 0),
        (9000, .lookupRw ⟨[[97]], List.forall_mem_singleton.mpr ⟨by decide, by decide⟩, by decide⟩
          false),
        (9001, .purgeToFile)] =
      some w ∧ w.cache.Consistent smallEnv :=
  cache_consistent ⟨by decide, by decide, by decide⟩ _

end Runs

end Orbot.Pdnsd.DnsCache
