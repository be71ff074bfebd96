import Orbot.Pdnsd.CachePurging

/-!
# Purging an entry

An entry is purged when it is looked up and when sets are added to it. The array of the less used sets
is freed only when it is empty.
-/

namespace Orbot.Pdnsd.DnsCache

open Foundation

section Rewrite

variable {env : Env} {c : Cache} {key : Key} {cent cent' : DnsCent}

theorem DnsCent.lentAt_congr (hget : cent'.get = cent.get)
    (hneg : ∀ lent ttl ts, cent'.domain = .neg lent ttl ts ↔ cent.domain = .neg lent ttl ts)
    (idx : Option RrIndex) : cent'.lentAt idx = cent.lentAt idx := by
  cases idx with
  | some i => rw [lentAt, hget, lentAt]
  | none =>
    cases hdomain : cent.domain with
    | neg lent ttl ts => rw [lentAt, (hneg lent ttl ts).mpr hdomain, lentAt, hdomain]
    | rr a =>
      cases hdomain' : cent'.domain with
      | neg lent ttl ts =>
        have hdomain'' := (hneg lent ttl ts).mp hdomain'
        rw [hdomain] at hdomain''
        exact Domain.noConfusion hdomain''
      | rr a' => rw [lentAt, hdomain', lentAt, hdomain]

theorem DnsCent.hasAt_congr (hget : cent'.get = cent.get)
    (hneg : ∀ lent ttl ts, cent'.domain = .neg lent ttl ts ↔ cent.domain = .neg lent ttl ts)
    (idx : Option RrIndex) : cent'.hasAt idx = cent.hasAt idx := by
  cases idx with
  | some i => rw [hasAt, hget, hasAt]
  | none =>
    cases hdomain : cent.domain with
    | neg lent ttl ts =>
      rw [hasAt, isNegative, (hneg lent ttl ts).mpr hdomain, hasAt, isNegative, hdomain]
    | rr a =>
      cases hdomain' : cent'.domain with
      | neg lent ttl ts =>
        have hdomain'' := (hneg lent ttl ts).mp hdomain'
        rw [hdomain] at hdomain''
        exact Domain.noConfusion hdomain''
      | rr a' => rw [hasAt, isNegative, hdomain', hasAt, isNegative, hdomain]

/-- An entry keeps its sets, and `cache_size` follows its size. -/
theorem Cache.Sound.rewrite (h : c.Sound env) (hcent : c.heap key = some cent)
    (haccounted : cent'.Accounted env.sizes) (hqname : cent'.qname = cent.qname)
    (hlocal : cent'.flags.isLocal = cent.flags.isLocal) (hget : cent'.get = cent.get)
    (hneg : ∀ lent ttl ts, cent'.domain = .neg lent ttl ts ↔ cent.domain = .neg lent ttl ts)
    (hle : cent'.cs ≤ cent.cs) {size : ℤ} (hsize : size = c.cache_size - cent.cs + cent'.cs) :
    Cache.Sound env { c.write cent' with cache_size := size } ∧
      Edited key cent' c { c.write cent' with cache_size := size } ∧
      Shrinks c { c.write cent' with cache_size := size } := by
  have hkey : cent'.qname.key = key := by
    rw [hqname, h.linked.key hcent]
  have hedit : Edited key cent' c { c.write cent' with cache_size := size } :=
    ⟨by rw [← hkey, Cache.write], rfl, rfl, rfl⟩
  have hlinked := h.linked.write hcent hkey haccounted (DnsCent.lentAt_congr hget hneg)
  have hfrom : cent'.From cent := ⟨hqname, hlocal, hneg, fun hget' ↦ hget ▸ hget'⟩
  refine ⟨h.edited hcent hedit ?_ fun idx ↦ ?_, hedit, ?_, ?_, List.Subperm.refl _, ?_, ?_⟩
  · rw [hedit.heap]
    exact hlinked
  · have hfiled := h.filed key cent hcent idx
    have hlocalAt : cent'.isLocalAt idx = cent.isLocalAt idx := by
      rw [DnsCent.isLocalAt, hget, hlocal, DnsCent.isLocalAt]
    rw [DnsCent.FiledAt, DnsCent.lentAt_congr hget hneg, DnsCent.hasAt_congr hget hneg, hlocalAt]
    exact hfiled
  · have hmemory := Cache.memory_update hedit.keys hedit.heap (h.mem_of_heap hcent) hcent
    rw [hmemory]
    change c.memory - cent.cs + cent'.cs - size = _
    omega
  · change size ≤ c.cache_size
    omega
  · intro k cent'' hcent''
    by_cases hk : k = key
    · rw [hk, hedit.heap_self] at hcent''
      obtain rfl := Option.some.inj hcent''
      exact ⟨cent, hk ▸ hcent, hfrom⟩
    · rw [hedit.heap_of_ne hk] at hcent''
      exact ⟨cent'', hcent'', .refl cent''⟩
  · intro k cent'' i rrset hcent'' hget'' _
    by_cases hk : k = key
    · rw [hk] at hcent''
      obtain rfl := Option.some.inj (hcent.symm.trans hcent'')
      exact ⟨cent', hk ▸ hedit.heap_self, hget ▸ hget''⟩
    · exact ⟨cent'', by rw [hedit.heap_of_ne hk, hcent''], hget''⟩

/-- A change of an entry that leaves its sets and counters as they are. -/
theorem Cache.Sound.mark (h : c.Sound env) (hcent : c.heap key = some cent)
    (hqname : cent'.qname = cent.qname) (hlocal : cent'.flags.isLocal = cent.flags.isLocal)
    (hdomain : cent'.domain = cent.domain) (hcs : cent'.cs = cent.cs)
    (hnum : cent'.num_rrs = cent.num_rrs) :
    (c.write cent').Sound env ∧ Edited key cent' c (c.write cent') ∧ Shrinks c (c.write cent') := by
  have harrays : cent'.arrays = cent.arrays := by
    rw [DnsCent.arrays, hdomain, DnsCent.arrays]
  have hget : cent'.get = cent.get := by
    funext i
    rw [DnsCent.get, harrays, DnsCent.get]
  have haccounted := h.linked.accounted hcent
  have haccounted' : cent'.Accounted env.sizes := by
    refine ⟨?_, by rw [hnum, hget, haccounted.num_rrs]⟩
    rw [hcs, haccounted.cs, DnsCent.size, DnsCent.size, hqname, harrays, hget]
  exact h.rewrite hcent haccounted' hqname hlocal hget (fun _ _ _ ↦ by rw [hdomain]) hcs.le
    (show c.cache_size = _ by rw [hcs, sub_add_cancel])

end Rewrite

section Sets

variable {env : Env} {now : ℤ} {c : Cache} {key : Key} {cent : DnsCent}

/-- What is left of an entry in the loop of `purge_all_rrsets` was counted. -/
def Purged.Counted (key : Key) (i : RrIndex) (p : Purged) : Prop :=
  ∀ cent rrset, p.cache.heap key = some cent → cent.get i = some rrset →
    0 < p.numrrs ∧ (NRRMU ≤ i.val → 0 < p.numrrext)

theorem Purged.visit_sound {p : Purged} (h : p.cache.Sound env)
    (hcent : p.cache.heap key = some cent) (i : RrIndex) :
    ∃ p', p.visit env now false key i = some p' ∧ p'.cache.Sound env ∧
      Shrinks p.cache p'.cache ∧ (∃ cent', p'.cache.heap key = some cent') ∧
      p'.Counted key i ∧ ∀ j, p.Counted key j → p'.Counted key j := by
  have hkeep : ∀ {p' : Purged}, Shrinks p.cache p'.cache → p.numrrs ≤ p'.numrrs →
      p.numrrext ≤ p'.numrrext → ∀ j, p.Counted key j → p'.Counted key j := by
    intro p' hshrinks hnum hext j hj cent' rrset hcent' hget'
    obtain ⟨cent, hcent, hfrom⟩ := hshrinks.entry hcent'
    obtain ⟨hpos, hpos'⟩ := hj cent rrset hcent (hfrom.get hget')
    exact ⟨hpos.trans_le hnum, fun hi ↦ (hpos' hi).trans_le hext⟩
  rw [visit, hcent, Option.bind_some]
  cases hget : cent.get i with
  | none =>
    refine ⟨p, rfl, h, .refl _, ⟨cent, hcent⟩, fun cent' rrset hcent' hget' ↦ ?_, fun _ hj ↦ hj⟩
    obtain rfl := Option.some.inj (hcent.symm.trans hcent')
    exact absurd (hget.symm.trans hget') (Option.some_ne_none rrset).symm
  | some rrset =>
    by_cases hexpired : rrset.expired now = true
    · obtain ⟨c', hdiscard, hsound, hedit, hshrinks, -⟩ :=
        h.discardRrset hcent hget (RrSet.isLocal_of_expired hexpired)
      refine ⟨{ p with cache := c', rv := p.rv + 1 }, ?_, hsound, hshrinks, ⟨_, hedit.heap_self⟩, ?_,
        hkeep hshrinks le_rfl le_rfl⟩
      · simp only [hexpired, if_true, Bool.false_eq_true, if_false, hdiscard, Option.map_some]
      · intro cent' rrset' hcent' hget'
        obtain rfl := Option.some.inj (hedit.heap_self.symm.trans hcent')
        rw [DnsCent.get_dropRrset hget, Function.update_self] at hget'
        exact absurd hget' (Option.some_ne_none rrset').symm
    · refine ⟨{ p with
          numrrs := p.numrrs + 1
          numrrext := p.numrrext + if NRRMU ≤ i.val then 1 else 0 }, ?_, h, .refl _,
        ⟨cent, hcent⟩, fun _ _ _ _ ↦ ⟨Nat.succ_pos _, fun hi ↦ ?_⟩,
        hkeep (.refl _) (Nat.le_succ _) (Nat.le_add_right _ _)⟩
      · simp only [hexpired, if_false, Bool.false_eq_true]
      · simp only [if_pos hi]
        exact Nat.succ_pos _

variable (now) in
/-- `purge_all_rrsets` that deletes. -/
theorem Cache.Sound.purgeAllRrsets (h : c.Sound env) (hcent : c.heap key = some cent) :
    ∃ p, c.purgeAllRrsets env now key false = some p ∧ p.cache.Sound env ∧ Shrinks c p.cache ∧
      ∃ cent', p.cache.heap key = some cent' ∧ (p.numrrs = 0 → ∀ i, cent'.get i = none) := by
  obtain ⟨p, hfold, ⟨hsound, hshrinks, cent', hcent'⟩, hcounted⟩ :=
    @exists_foldlM_each _ _ (Purged.visit env now false key)
      (fun p ↦ p.cache.Sound env ∧ Shrinks c p.cache ∧ ∃ cent', p.cache.heap key = some cent')
      (Purged.Counted key) cent.indices ⟨c, 0, 0, 0⟩ ⟨h, .refl c, cent, hcent⟩
      fun i _ p hp ↦ by
        obtain ⟨hsound, hshrinks, cent', hcent'⟩ := hp
        obtain ⟨p', hvisit, hsound', hshrinks', hcent'', hown, hkeep⟩ :=
          @Purged.visit_sound env now key cent' p hsound hcent' i
        exact ⟨p', hvisit, ⟨hsound', hshrinks.trans hshrinks', hcent''⟩, hown, fun j _ hj ↦ hkeep j hj⟩
  obtain ⟨cent₀, hcent₀, hfrom⟩ := hshrinks.entry hcent'
  obtain rfl := Option.some.inj (hcent.symm.trans hcent₀)
  have hindices : ∀ {i rrset}, cent'.get i = some rrset → i ∈ cent.indices := by
    intro i rrset hget
    have hget := hfrom.get hget
    obtain ⟨a, hdomain⟩ := DnsCent.domain_of_get hget
    rw [DnsCent.get_rr hdomain] at hget
    rw [DnsCent.indices, hdomain]
    exact RrArrays.mem_indices.mpr (RrArrays.hasPlace_of_get hget)
  have hnone : p.numrrs = 0 → ∀ i, cent'.get i = none := by
    intro hnum i
    by_contra hne
    obtain ⟨rrset, hget⟩ := Option.ne_none_iff_exists'.mp hne
    have hpos := (hcounted i (hindices hget) cent' rrset hcent' hget).1
    omega
  rw [Cache.purgeAllRrsets, hcent, Option.bind_some, hfold, Option.bind_some, hcent',
    Option.map_some]
  split
  next hext =>
    have hempty : ∀ i, NRRMU ≤ i.val → cent'.get i = none := by
      intro i hi
      by_contra hne
      obtain ⟨rrset, hget⟩ := Option.ne_none_iff_exists'.mp hne
      have hpos := (hcounted i (hindices hget) cent' rrset hcent' hget).2 hi
      omega
    obtain ⟨a, hdomain⟩ : ∃ a, cent'.domain = .rr a := by
      cases hdomain : cent'.domain with
      | neg lent ttl ts =>
        have hrrext := hext.1
        rw [DnsCent.arrays, hdomain] at hrrext
        exact absurd hrrext Bool.false_ne_true
      | rr a => exact ⟨a, rfl⟩
    have harrays : cent'.arrays = a := by
      rw [DnsCent.arrays, hdomain]
    have hget : DnsCent.get { cent' with
        domain := .rr { cent'.arrays with rrext := false }
        cs := cent'.cs - cent'.arrays.extSize env.sizes } = cent'.get := by
      funext i
      rw [DnsCent.get_rr rfl]
      by_cases hi : NRRMU ≤ i.val
      · rw [hempty i hi]
        exact RrArrays.get_of_not_hasPlace fun hplace ↦
          hplace.elim (fun hlt ↦ Nat.not_lt.mpr hi hlt) Bool.false_ne_true
      · have hlt : i.val < NRRMU := Nat.lt_of_not_le hi
        rw [DnsCent.get_rr hdomain, RrArrays.get_of_hasPlace (.inl hlt),
          RrArrays.get_of_hasPlace (.inl hlt), harrays]
    have haccounted := hsound.linked.accounted hcent'
    have haccounted' : DnsCent.Accounted env.sizes { cent' with
        domain := .rr { cent'.arrays with rrext := false }
        cs := cent'.cs - cent'.arrays.extSize env.sizes } := by
      refine ⟨?_, by rw [hget]; exact haccounted.num_rrs⟩
      have hcs := haccounted.cs
      rw [DnsCent.size] at hcs ⊢
      rw [hget]
      have hzero : RrArrays.extSize env.sizes { cent'.arrays with rrext := false } = 0 := rfl
      simp only [DnsCent.arrays] at hcs hzero ⊢
      omega
    obtain ⟨hsound', hedit, hshrinks'⟩ := hsound.rewrite hcent' haccounted' rfl rfl hget
      (fun lent ttl ts ↦ by
        rw [hdomain]
        exact ⟨fun h ↦ Domain.noConfusion h, fun h ↦ Domain.noConfusion h⟩)
      (by
        have hext : 0 ≤ cent'.arrays.extSize env.sizes := RrArrays.extSize_nonneg _
        simp only
        omega)
      (show p.cache.cache_size - cent'.arrays.extSize env.sizes = _ by simp only; omega)
    refine ⟨_, rfl, hsound', hshrinks.trans hshrinks', _, hedit.heap_self, fun hnum i ↦ ?_⟩
    rw [hget]
    exact hnone hnum i
  next => exact ⟨p, rfl, hsound, hshrinks, cent', hcent', hnone⟩

end Sets

section Entries

variable {env : Env} {now : ℤ} {c : Cache} {key : Key} {cent : DnsCent}

/-- The end of `purge_cent`: one of the references. -/
theorem Cache.Sound.purgeRef (h : c.Sound env) (hcent : c.heap key = some cent)
    (ref : DnsCent → ℕ) {clear : DnsCent → DnsCent}
    (hclear : ∀ cent, (clear cent).qname = cent.qname ∧ (clear cent).flags = cent.flags ∧
      (clear cent).domain = cent.domain ∧ (clear cent).cs = cent.cs ∧
      (clear cent).num_rrs = cent.num_rrs)
    (i : RrIndex) (test : Bool) (npurge : ℤ) :
    ∃ c' npurge', c.purgeRef env now key ref clear i test npurge = some (c', npurge') ∧
      c'.Sound env ∧ Shrinks c c' ∧ (∃ cent', c'.heap key = some cent') ∧ (test = true → c' = c) := by
  rw [Cache.purgeRef, hcent, Option.bind_some]
  split
  next => exact ⟨c, npurge, rfl, h, .refl c, ⟨cent, hcent⟩, fun _ ↦ rfl⟩
  next =>
    have hstale : ∃ stale, c.staleRef env now cent (ref cent) i = some stale := by
      rw [Cache.staleRef]
      simp only [Option.map_eq_some_iff]
      split
      next => exact ⟨_, _, rfl, rfl⟩
      next =>
        split
        next =>
          split
          next => exact ⟨_, _, rfl, rfl⟩
          next k hlookup =>
            obtain ⟨ce, hce⟩ := h.lookup_heap hlookup
            exact ⟨_, ce.get i, by rw [hce, Option.map_some], rfl⟩
        next => exact ⟨_, _, rfl, rfl⟩
    obtain ⟨stale, hstale⟩ := hstale
    rw [hstale, Option.map_some]
    by_cases hst : stale = true
    · rw [if_pos hst]
      cases test with
      | true => exact ⟨c, _, rfl, h, .refl c, ⟨cent, hcent⟩, fun _ ↦ rfl⟩
      | false =>
        obtain ⟨hqname, hflags, hdomain, hcs, hnum⟩ := hclear cent
        obtain ⟨hsound, hedit, hshrinks⟩ := h.mark hcent hqname (by rw [hflags]) hdomain hcs hnum
        exact ⟨_, _, rfl, hsound, hshrinks, ⟨_, hedit.heap_self⟩, fun htest ↦
          absurd htest Bool.false_ne_true⟩
    · rw [if_neg hst]
      exact ⟨c, npurge, rfl, h, .refl c, ⟨cent, hcent⟩, fun _ ↦ rfl⟩

/-- Nothing is deleted for a test. -/
theorem Cache.purgeAllRrsets_test (hcent : c.heap key = some cent) :
    ∃ p, c.purgeAllRrsets env now key true = some p ∧ p.cache = c := by
  obtain ⟨p, hfold, hcache⟩ := @exists_foldlM _ _ (Purged.visit env now true key)
    (fun p ↦ p.cache = c) cent.indices ⟨c, 0, 0, 0⟩ rfl fun i _ p hp ↦ by
      rw [Purged.visit, hp, hcent, Option.bind_some]
      cases cent.get i with
      | none => exact ⟨p, rfl, hp⟩
      | some rrset =>
        by_cases hexpired : rrset.expired now = true
        · simp only [hexpired, if_true, Option.map_some]
          exact ⟨_, rfl, rfl⟩
        · simp only [hexpired, if_false, Bool.false_eq_true]
          exact ⟨_, rfl, rfl⟩
  rw [Cache.purgeAllRrsets, hcent, Option.bind_some, hfold, Option.bind_some, hcache, hcent,
    Option.map_some]
  split
  next => exact ⟨_, rfl, rfl⟩
  next => exact ⟨p, rfl, hcache⟩

/-- `purge_cent`: unless the entry was deleted it is there, and nothing changes for a test. -/
theorem Cache.Sound.purgeCent (h : c.Sound env) (hcent : c.heap key = some cent) (now : ℤ)
    (delete test : Bool) :
    ∃ c' npurge, c.purgeCent env now key delete test = some (c', npurge) ∧ c'.Sound env ∧
      Shrinks c c' ∧ (delete = true ∧ npurge < 0 ∨ ∃ cent', c'.heap key = some cent') ∧
      (test = true → c' = c) := by
  have hall : ∃ p, c.purgeAllRrsets env now key test = some p ∧ p.cache.Sound env ∧
      Shrinks c p.cache ∧ (test = true → p.cache = c) ∧ ∃ cent', p.cache.heap key = some cent' ∧
        (test = false → p.numrrs = 0 → ∀ i, cent'.get i = none) := by
    cases test with
    | true =>
      obtain ⟨p, hp, hcache⟩ := @Cache.purgeAllRrsets_test env now c key cent hcent
      exact ⟨p, hp, hcache ▸ h, hcache ▸ .refl c, fun _ ↦ hcache, cent, hcache ▸ hcent,
        fun htest ↦ absurd htest Bool.true_eq_false.mp⟩
    | false =>
      obtain ⟨p, hp, hsound, hshrinks, cent', hcent', hnone⟩ := h.purgeAllRrsets now hcent
      exact ⟨p, hp, hsound, hshrinks, fun htest ↦ absurd htest Bool.false_ne_true, cent', hcent',
        fun _ ↦ hnone⟩
  obtain ⟨p, hp, hsound, hshrinks, htest, cent', hcent', hnone⟩ := hall
  rw [Cache.purgeCent, hp, Option.bind_some, hcent', Option.bind_some]
  split
  next hdead =>
    cases test with
    | true =>
      exact ⟨p.cache, -1, rfl, hsound, hshrinks, .inl ⟨hdead.1, by decide⟩, htest⟩
    | false =>
      obtain ⟨c', hdel, hsound', hfreed⟩ := hsound.delCacheEnt hcent'
      refine ⟨c', -1, ?_, hsound', ?_, .inl ⟨hdead.1, by decide⟩,
        fun htest ↦ absurd htest Bool.false_ne_true⟩
      · rw [if_neg Bool.false_ne_true, hdel, Option.map_some]
      · refine hshrinks.trans (hfreed.shrinks hsound hcent' fun {i rrset} hget ↦ ?_)
        exact absurd ((hnone rfl hdead.2.1 i).symm.trans hget) (Option.some_ne_none rrset).symm
  next =>
    split
    next => exact ⟨p.cache, p.rv, rfl, hsound, hshrinks, .inr ⟨cent', hcent'⟩, htest⟩
    next =>
      obtain ⟨c₁, n₁, hns, hsound₁, hshrinks₁, ⟨cent₁, hcent₁⟩, htest₁⟩ :=
        @Cache.Sound.purgeRef env now p.cache key cent' hsound hcent' DnsCent.c_ns
          (fun cent ↦ { cent with c_ns := cundef }) (fun _ ↦ ⟨rfl, rfl, rfl, rfl, rfl⟩) RRMUINDEX_NS
          test p.rv
      obtain ⟨c₂, n₂, hsoa, hsound₂, hshrinks₂, hcent₂, htest₂⟩ :=
        @Cache.Sound.purgeRef env now c₁ key cent₁ hsound₁ hcent₁ DnsCent.c_soa
          (fun cent ↦ { cent with c_soa := cundef }) (fun _ ↦ ⟨rfl, rfl, rfl, rfl, rfl⟩)
          RRMUINDEX_SOA test n₁
      refine ⟨c₂, n₂, ?_, hsound₂, (hshrinks.trans hshrinks₁).trans hshrinks₂, .inr hcent₂,
        fun ht ↦ ?_⟩
      · rw [hns, Option.bind_some]
        exact hsoa
      · rw [htest₂ ht, htest₁ ht, htest ht]

end Entries

end Orbot.Pdnsd.DnsCache
