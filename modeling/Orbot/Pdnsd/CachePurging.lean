import Orbot.Foundation.PartialFolds
import Orbot.Pdnsd.CacheState

/-!
# Purging the cache

The functions that purge keep a state consistent and only shrink it. Where they go through the list, the
element that they visit is the only one that they remove, so the next one is still there.
-/

namespace Orbot.Pdnsd.DnsCache

open Foundation

section Remove

variable {env : Env} {c c' : Cache} {key : Key} {cent cent' : DnsCent} {i : RrIndex}
  {rrset : RrSet}

/-- An entry and its elements of the list are gone. -/
structure Freed (key : Key) (cent : DnsCent) (c c' : Cache) : Prop where
  heap : c'.heap = Function.update c.heap key none
  rrset_l : c'.rrset_l = c.rrset_l.filter fun le ↦ le.cent ≠ key
  keys : c'.keys = c.keys.erase key
  cache_size : c'.cache_size = c.cache_size - cent.cs
  insert_sort : c'.insert_sort = c.insert_sort

/-- An entry is changed, and the list for it. -/
structure Edited (key : Key) (cent' : DnsCent) (c c' : Cache) : Prop where
  heap : c'.heap = Function.update c.heap key (some cent')
  hash : c'.hash = c.hash
  ent_num : c'.ent_num = c.ent_num
  insert_sort : c'.insert_sort = c.insert_sort

theorem Cache.Sound.mem_of_heap (h : c.Sound env) (hcent : c.heap key = some cent) :
    key ∈ c.keys := by
  rw [h.mem_keys, hcent]
  rfl

theorem Edited.keys (h : Edited key cent' c c') : c'.keys = c.keys := by
  rw [Cache.keys, h.hash, Cache.keys]

theorem Edited.heap_self (h : Edited key cent' c c') : c'.heap key = some cent' := by
  rw [h.heap, Function.update_self]

theorem Edited.heap_of_ne (h : Edited key cent' c c') {k : Key} (hk : k ≠ key) :
    c'.heap k = c.heap k := by
  rw [h.heap, Function.update_of_ne hk]

theorem Edited.trans {cent'' : DnsCent} {c'' : Cache} (h : Edited key cent' c c')
    (h' : Edited key cent'' c' c'') : Edited key cent'' c c'' :=
  ⟨by rw [h'.heap, h.heap, Function.update_idem], h'.hash.trans h.hash, h'.ent_num.trans h.ent_num,
    h'.insert_sort.trans h.insert_sort⟩

theorem Cache.Sound.edited (h : c.Sound env) (hcent : c.heap key = some cent)
    (hedit : Edited key cent' c c') (hlinked : Linked env.sizes c'.heap c'.rrset_l)
    (hfiled : ∀ idx, cent'.FiledAt idx) : c'.Sound env := by
  refine ⟨hlinked, ?_, ?_, fun k ↦ ?_, ?_⟩
  · rw [hedit.heap]
    exact h.filed.update hfiled
  · rw [hedit.hash]
    exact h.hash
  · rw [hedit.keys, h.mem_keys]
    by_cases hk : k = key
    · rw [hk, hedit.heap_self, hcent]
      simp
    · rw [hedit.heap_of_ne hk]
  · rw [hedit.ent_num, hedit.keys]
    exact h.ent_num

theorem Cache.Sound.delCent {hash : HashBuckets DomainName} (h : c.Sound env)
    (hcent : c.heap key = some cent) (hwf : hash.WellFormed env.longBits id)
    (hkeys : (hash.entries.map DomainName.key).toFinset = c.keys.erase key) :
    ∃ c', Cache.delCent { c with hash := hash } key = some c' ∧ c'.Sound env ∧
      Freed key cent c c' := by
  have hmem := h.mem_of_heap hcent
  refine ⟨_, @Linked.delCent env { c with hash := hash } key cent h.linked hcent,
    ⟨h.linked.free, h.filed.free, hwf, fun k ↦ ?_, ?_⟩, ⟨rfl, rfl, hkeys, rfl, rfl⟩⟩
  · change k ∈ (hash.entries.map DomainName.key).toFinset ↔ _
    rw [hkeys, Finset.mem_erase, h.mem_keys]
    by_cases hk : k = key
    · simp [hk]
    · simp [hk]
  · change c.ent_num - 1 = ((hash.entries.map DomainName.key).toFinset.card : ℤ)
    have hcard := Finset.card_erase_add_one hmem
    rw [hkeys, h.ent_num]
    omega

/-- `del_cache_ent`. -/
theorem Cache.Sound.delCacheEnt (h : c.Sound env) (hcent : c.heap key = some cent) :
    ∃ c', c.delCacheEnt env key = some c' ∧ c'.Sound env ∧ Freed key cent c c' := by
  obtain ⟨hwf, hkeys, -⟩ := h.delDnsHash cent.qname
  rw [h.linked.key hcent] at hkeys
  rw [Cache.delCacheEnt, hcent, Option.bind_some]
  exact h.delCent hcent hwf hkeys

theorem Freed.shrinks (hfreed : Freed key cent c c') (h : c.Sound env)
    (hcent : c.heap key = some cent)
    (hlocal : ∀ {i rrset}, cent.get i = some rrset → rrset.flags.isLocal = false) :
    Shrinks c c' := by
  have hne : ∀ {k} {cent' : DnsCent}, c'.heap k = some cent' → k ≠ key := by
    rintro k cent' hcent' rfl
    rw [hfreed.heap, Function.update_self] at hcent'
    exact Option.some_ne_none cent' hcent'.symm
  refine ⟨?_, ?_, ?_, fun {k cent'} hcent' ↦ ?_, fun {k cent'} _ _ hcent' hget hl ↦ ?_⟩
  · have hmemory := Cache.memory_free hfreed.keys hfreed.heap (h.mem_of_heap hcent) hcent
    rw [hfreed.cache_size, hmemory]
    omega
  · have hcs := (h.linked.accounted hcent).cs_nonneg
    rw [hfreed.cache_size]
    omega
  · rw [hfreed.rrset_l]
    exact List.filter_sublist.subperm
  · have hk := hne hcent'
    refine ⟨cent', ?_, .refl cent'⟩
    rwa [hfreed.heap, Function.update_of_ne hk] at hcent'
  · refine ⟨cent', ?_, hget⟩
    rw [hfreed.heap, Function.update_of_ne, hcent']
    rintro rfl
    obtain rfl := Option.some.inj (hcent.symm.trans hcent')
    exact Bool.false_ne_true ((hlocal hget).symm.trans hl)

/-- `del_cent_rrset_by_index`. -/
theorem Cache.Sound.delCentRrset (h : c.Sound env) (hcent : c.heap key = some cent)
    (hget : cent.get i = some rrset) :
    ∃ c', c.delCentRrset env key i = some (c', rrset.size env.sizes) ∧ c'.Sound env ∧
      Edited key (cent.dropRrset env i rrset) c c' ∧ c'.cache_size = c.cache_size ∧
      c'.rrset_l = c.rrset_l.erase ⟨key, some i⟩ := by
  obtain ⟨hdel, hlinked⟩ := h.linked.delCentRrset hcent hget
  refine ⟨_, hdel, ?_, ⟨rfl, rfl, rfl, rfl⟩, rfl, rfl⟩
  exact h.edited hcent ⟨rfl, rfl, rfl, rfl⟩ hlinked fun idx ↦
    DnsCent.filedAt_dropRrset (h.filed key cent hcent) hget idx

theorem Cache.delCentRrset_of_none (hcent : c.heap key = some cent) (hget : cent.get i = none) :
    c.delCentRrset env key i = some (c, 0) := by
  rw [Cache.delCentRrset, hcent, Option.bind_some, hget]

theorem DnsCent.from_dropRrset (hget : cent.get i = some rrset) :
    (cent.dropRrset env i rrset).From cent := by
  obtain ⟨a, hdomain⟩ := domain_of_get hget
  refine ⟨rfl, rfl, fun lent ttl ts ↦ ?_, fun {j rrset'} hget' ↦ ?_⟩
  · rw [hdomain]
    exact ⟨fun h ↦ Domain.noConfusion h, fun h ↦ Domain.noConfusion h⟩
  · rw [get_dropRrset hget] at hget'
    by_cases hj : j = i
    · rw [hj, Function.update_self] at hget'
      exact absurd hget' (Option.some_ne_none rrset').symm
    · rwa [Function.update_of_ne hj] at hget'

/-- `cache_size -= del_cent_rrset_by_index(cent, i)`, for a set that is not local. -/
theorem Cache.Sound.discardRrset (h : c.Sound env) (hcent : c.heap key = some cent)
    (hget : cent.get i = some rrset) (hlocal : rrset.flags.isLocal = false) :
    ∃ c', c.discardRrset env key i = some c' ∧ c'.Sound env ∧
      Edited key (cent.dropRrset env i rrset) c c' ∧ Shrinks c c' ∧
      c'.rrset_l = c.rrset_l.erase ⟨key, some i⟩ := by
  obtain ⟨c', hdel, hsound, hedit, hsize, hlist⟩ := h.delCentRrset hcent hget
  have hedit' : Edited key (cent.dropRrset env i rrset) c
      { c' with cache_size := c'.cache_size - rrset.size env.sizes } :=
    ⟨hedit.heap, hedit.hash, hedit.ent_num, hedit.insert_sort⟩
  refine ⟨{ c' with cache_size := c'.cache_size - rrset.size env.sizes },
    by rw [Cache.discardRrset, hdel, Option.map_some],
    ⟨hsound.linked, hsound.filed, hsound.hash, hsound.mem_keys, hsound.ent_num⟩, hedit', ?_, hlist⟩
  refine ⟨?_, ?_, ?_, fun {k cent'} hcent' ↦ ?_, fun {k cent' j _} hcent' hget' hl ↦ ?_⟩
  · have hmemory := Cache.memory_update hedit'.keys hedit'.heap (h.mem_of_heap hcent) hcent
    rw [hmemory]
    simp only [DnsCent.dropRrset, hsize]
    omega
  · have hrrset := @RrSet.size_le env.sizes rrset
    simp only [hsize]
    omega
  · exact hlist ▸ List.erase_sublist.subperm
  · by_cases hk : k = key
    · rw [hk, hedit'.heap_self] at hcent'
      obtain rfl := Option.some.inj hcent'
      exact ⟨cent, hk ▸ hcent, DnsCent.from_dropRrset hget⟩
    · rw [hedit'.heap_of_ne hk] at hcent'
      exact ⟨cent', hcent', .refl cent'⟩
  · by_cases hk : k = key
    · rw [hk] at hcent'
      obtain rfl := Option.some.inj (hcent.symm.trans hcent')
      refine ⟨_, hk ▸ hedit'.heap_self, ?_⟩
      rw [DnsCent.get_dropRrset hget, Function.update_of_ne]
      · exact hget'
      · rintro rfl
        obtain rfl := Option.some.inj (hget.symm.trans hget')
        exact Bool.false_ne_true (hlocal.symm.trans hl)
    · exact ⟨cent', by rw [hedit'.heap_of_ne hk, hcent'], hget'⟩

end Remove

section Visits

variable {env : Env} {now : ℤ} {c c' : Cache} {key : Key} {cent : DnsCent} {i : RrIndex}
  {rrset : RrSet}

theorem RrSet.isLocal_of_expired (h : rrset.expired now = true) : rrset.flags.isLocal = false := by
  rw [expired, Bool.and_eq_true, Bool.not_eq_true', Bool.or_eq_false_iff] at h
  exact h.1.2

variable (now) in
/-- `purge_rrset`. -/
theorem Cache.Sound.purgeRrset (h : c.Sound env) (hcent : c.heap key = some cent) (i : RrIndex) :
    ∃ c', c.purgeRrset env now key i = some c' ∧ c'.Sound env ∧ Shrinks c c' ∧
      (∃ cent', c'.heap key = some cent') ∧
      (c'.rrset_l = c.rrset_l ∨ c'.rrset_l = c.rrset_l.erase ⟨key, some i⟩) := by
  rw [Cache.purgeRrset, hcent, Option.bind_some]
  split
  next hexpired =>
    obtain ⟨rrset, hget, hrrset⟩ := (Option.any_eq_true ..).mp hexpired
    obtain ⟨c', hdiscard, hsound, hedit, hshrinks, hlist⟩ :=
      h.discardRrset hcent hget (RrSet.isLocal_of_expired hrrset)
    exact ⟨c', hdiscard, hsound, hshrinks, ⟨_, hedit.heap_self⟩, .inr hlist⟩
  next => exact ⟨c, rfl, h, .refl c, ⟨cent, hcent⟩, .inl rfl⟩

theorem DnsCent.Accounted.get_eq_none {z : Sizes} (h : cent.Accounted z) (hempty : cent.num_rrs = 0)
    (i : RrIndex) : cent.get i = none := by
  have hnum := h.num_rrs
  rw [hempty] at hnum
  by_contra hne
  have hpos : 0 < countOf Option.isSome cent.get :=
    countOf_pos.mpr ⟨i, Option.isSome_iff_ne_none.mpr hne⟩
  omega

/-- An entry without sets is deleted. -/
theorem Cache.Sound.delEmptied (h : c.Sound env) (hcent : c.heap key = some cent)
    (hempty : cent.num_rrs = 0) :
    ∃ c', c.delCacheEnt env key = some c' ∧ c'.Sound env ∧ Shrinks c c' ∧
      c'.rrset_l = c.rrset_l.erase ⟨key, none⟩ := by
  have hnone := (h.linked.accounted hcent).get_eq_none hempty
  obtain ⟨c', hdel, hsound, hfreed⟩ := h.delCacheEnt hcent
  refine ⟨c', hdel, hsound, hfreed.shrinks h hcent fun {i rrset} hget ↦ ?_, ?_⟩
  · exact absurd ((hnone i).symm.trans hget) (Option.some_ne_none rrset).symm
  · rw [hfreed.rrset_l, h.linked.nodup.erase_eq_filter]
    refine List.filter_congr fun le hle ↦ ?_
    rw [bne, beq_eq_decide, ← decide_not, decide_eq_decide, not_iff_not]
    constructor
    · obtain ⟨k, idx⟩ := le
      rintro rfl
      rw [h.linked.mem_iff_lentAt hcent] at hle
      cases idx with
      | none => rfl
      | some i =>
        rw [DnsCent.lentAt, hnone i] at hle
        exact absurd hle Bool.false_ne_true
    · exact fun heq ↦ congrArg Lent.cent heq

/-- The element of a set is not the one of a negative entry. -/
theorem Shrinks.erase_none (hshrinks : Shrinks c c') (h' : c'.Sound env)
    (hcent : c.heap key = some cent) (hget : cent.get i = some rrset) :
    c'.rrset_l.erase ⟨key, none⟩ = c'.rrset_l := by
  refine List.erase_of_not_mem fun hmem ↦ ?_
  obtain ⟨cent', hcent', hlent⟩ := (h'.linked.mem_iff _).mp hmem
  obtain ⟨cent'', hcent'', hfrom⟩ := hshrinks.entry hcent'
  obtain rfl := Option.some.inj (hcent.symm.trans hcent'')
  obtain ⟨a, hdomain⟩ := DnsCent.domain_of_get hget
  cases hdomain' : cent'.domain with
  | neg lent ttl ts =>
    have hneg := (hfrom.neg lent ttl ts).mp hdomain'
    rw [hdomain] at hneg
    exact Domain.noConfusion hneg
  | rr a' =>
    rw [DnsCent.lentAt, hdomain'] at hlent
    exact Bool.false_ne_true hlent

/-- What an element of the list stands for is not local. -/
theorem Cache.Sound.of_mem (h : c.Sound env) {le : Lent} (hle : le ∈ c.rrset_l) :
    ∃ cent, c.heap le.cent = some cent ∧ cent.lentAt le.idx = true ∧
      cent.isLocalAt le.idx = false := by
  obtain ⟨cent, hcent, hlent⟩ := (h.linked.mem_iff le).mp hle
  have hfiled := h.filed _ cent hcent le.idx
  rw [DnsCent.FiledAt, hlent] at hfiled
  exact ⟨cent, hcent, hlent, by simpa using (Bool.and_eq_true_iff.mp hfiled.symm).2⟩

variable (now) in
/-- A step of the walk that deletes what has timed out. -/
theorem Cache.Sound.purgeVisit (h : c.Sound env) {le : Lent} (hle : le ∈ c.rrset_l) :
    ∃ c', c.purgeVisit env now le = some c' ∧ c'.Sound env ∧ Shrinks c c' ∧
      (c'.rrset_l = c.rrset_l ∨ c'.rrset_l = c.rrset_l.erase le) := by
  obtain ⟨cent, hcent, hlent, hlocal⟩ := h.of_mem hle
  obtain ⟨key, idx⟩ := le
  have hcent : c.heap key = some cent := hcent
  have hlocal : cent.isLocalAt idx = false := hlocal
  rw [Cache.purgeVisit]
  simp only [hcent, Option.bind_some, hlocal, Bool.false_eq_true, if_false]
  cases idx with
  | none =>
    simp only [Option.bind_some, hcent]
    split
    next hdead =>
      obtain ⟨c', hdel, hsound, hshrinks, hlist⟩ := h.delEmptied hcent hdead.1
      exact ⟨c', hdel, hsound, hshrinks, .inr hlist⟩
    next => exact ⟨c, rfl, h, .refl c, .inl rfl⟩
  | some i =>
    obtain ⟨rrset, hget, -⟩ := (Option.any_eq_true ..).mp hlent
    obtain ⟨c₁, hpurge, hsound₁, hshrinks₁, ⟨ce, hce⟩, hlist₁⟩ := h.purgeRrset now hcent i
    simp only [hpurge, Option.bind_some, hce]
    split
    next hdead =>
      obtain ⟨c', hdel, hsound, hshrinks, hlist⟩ := hsound₁.delEmptied hce hdead.1
      rw [hshrinks₁.erase_none hsound₁ hcent hget] at hlist
      rw [← hlist] at hlist₁
      exact ⟨c', hdel, hsound, hshrinks₁.trans hshrinks, hlist₁⟩
    next => exact ⟨c₁, rfl, hsound₁, hshrinks₁, hlist₁⟩

/-- A step of the walk that deletes the oldest sets. -/
theorem Cache.Sound.evictVisit (h : c.Sound env) {le : Lent} (hle : le ∈ c.rrset_l) :
    ∃ c', c.evictVisit env le = some c' ∧ c'.Sound env ∧ Shrinks c c' ∧
      c'.rrset_l = c.rrset_l.erase le := by
  obtain ⟨cent, hcent, hlent, hlocal⟩ := h.of_mem hle
  obtain ⟨key, idx⟩ := le
  have hcent : c.heap key = some cent := hcent
  have hlocal : cent.isLocalAt idx = false := hlocal
  rw [Cache.evictVisit]
  simp only [hcent, Option.bind_some, hlocal, Bool.false_eq_true, if_false]
  cases idx with
  | none =>
    have hempty : cent.num_rrs = 0 := by
      have hnum := (h.linked.accounted hcent).num_rrs
      cases hdomain : cent.domain with
      | neg lent ttl ts =>
        rw [DnsCent.get_neg hdomain] at hnum
        simpa [countOf] using hnum
      | rr a =>
        have hlent : cent.lentAt none = true := hlent
        rw [DnsCent.lentAt, hdomain] at hlent
        exact absurd hlent Bool.false_ne_true
    simp only [Option.bind_some, hcent, hempty, if_true]
    exact h.delEmptied hcent hempty
  | some i =>
    obtain ⟨rrset, hget, -⟩ := (Option.any_eq_true ..).mp hlent
    have hrrset : rrset.flags.isLocal = false := by
      rw [DnsCent.isLocalAt, Option.bind_some, hget, Option.any_some, Bool.or_eq_false_iff] at hlocal
      exact hlocal.1
    obtain ⟨c₁, hdiscard, hsound₁, hedit, hshrinks₁, hlist₁⟩ := h.discardRrset hcent hget hrrset
    simp only [hdiscard, Option.bind_some, hedit.heap_self]
    split
    next hdead =>
      obtain ⟨c', hdel, hsound, hshrinks, hlist⟩ := hsound₁.delEmptied hedit.heap_self hdead
      rw [hshrinks₁.erase_none hsound₁ hcent hget, hlist₁] at hlist
      exact ⟨c', hdel, hsound, hshrinks₁.trans hshrinks, hlist⟩
    next => exact ⟨c₁, rfl, hsound₁, hshrinks₁, hlist₁⟩

end Visits

section Walks

variable {env : Env} {c : Cache} {stop : Cache → Bool} {visit : Lent → Cache → Option Cache}

/-- A walk whose steps remove at most the element that they visit never meets a freed one. -/
theorem walkRrl_sound
    (hvisit : ∀ {c : Cache} {le : Lent}, c.Sound env → le ∈ c.rrset_l →
      ∃ c', visit le c = some c' ∧ c'.Sound env ∧ Shrinks c c' ∧
        (c'.rrset_l = c.rrset_l ∨ c'.rrset_l = c.rrset_l.erase le))
    {l : List Lent} (h : c.Sound env) (hl : l <:+ c.rrset_l) :
    ∃ c', walkRrl stop visit l c = some c' ∧ c'.Sound env ∧ Shrinks c c' := by
  induction l generalizing c with
  | nil => exact ⟨c, rfl, h, .refl c⟩
  | cons le next ih =>
    by_cases hstop : stop c = true
    · exact ⟨c, by rw [walkRrl, if_pos hstop], h, .refl c⟩
    · obtain ⟨before, hbefore⟩ := hl
      have hmem : le ∈ c.rrset_l := by
        rw [← hbefore]
        exact List.mem_append_right _ List.mem_cons_self
      obtain ⟨c₁, hstep, hsound₁, hshrinks₁, hlist⟩ := hvisit h hmem
      have hnext : next <:+ c₁.rrset_l := by
        rcases hlist with hlist | hlist
        · rw [hlist, ← hbefore]
          exact ⟨before ++ [le], by rw [List.append_assoc, List.singleton_append]⟩
        · have hnodup := h.linked.nodup
          rw [← hbefore] at hnodup
          have hnot : le ∉ before := fun hin ↦
            (List.nodup_append.mp hnodup).2.2 le hin le List.mem_cons_self rfl
          rw [hlist, ← hbefore, List.erase_append_right _ hnot, List.erase_cons_head]
          exact List.suffix_append before next
      obtain ⟨c', hwalk, hsound, hshrinks⟩ := ih hsound₁ hnext
      refine ⟨c', ?_, hsound, hshrinks₁.trans hshrinks⟩
      rw [walkRrl, if_neg hstop, if_pos (show le :: next <:+ c.rrset_l from ⟨before, hbefore⟩), hstep,
        Option.bind_some, hwalk]

/-- A walk whose steps remove the element that they visit empties the list unless it is stopped. -/
theorem walkRrl_evict
    (hvisit : ∀ {c : Cache} {le : Lent}, c.Sound env → le ∈ c.rrset_l →
      ∃ c', visit le c = some c' ∧ c'.Sound env ∧ Shrinks c c' ∧ c'.rrset_l = c.rrset_l.erase le)
    (h : c.Sound env) :
    ∃ c', walkRrl stop visit c.rrset_l c = some c' ∧ c'.Sound env ∧ Shrinks c c' ∧
      c'.rrset_l <:+ c.rrset_l ∧ (stop c' = true ∨ c'.rrset_l = []) := by
  generalize hl : c.rrset_l = l
  induction l generalizing c with
  | nil => exact ⟨c, rfl, h, .refl c, hl ▸ List.suffix_rfl, .inr hl⟩
  | cons le next ih =>
    by_cases hstop : stop c = true
    · exact ⟨c, by rw [walkRrl, if_pos hstop], h, .refl c, hl ▸ List.suffix_rfl, .inl hstop⟩
    · have hmem : le ∈ c.rrset_l := hl ▸ List.mem_cons_self
      obtain ⟨c₁, hstep, hsound₁, hshrinks₁, hlist⟩ := hvisit h hmem
      rw [hl, List.erase_cons_head] at hlist
      obtain ⟨c', hwalk, hsound, hshrinks, hsuffix, hend⟩ := ih hsound₁ hlist
      refine ⟨c', ?_, hsound, hshrinks₁.trans hshrinks, ?_, hend⟩
      · rw [walkRrl, if_neg hstop, if_pos (show le :: next <:+ c.rrset_l from hl ▸ List.suffix_rfl),
          hstep, Option.bind_some, hwalk]
      · exact hsuffix.trans (List.suffix_cons le next)

/-- Every element of the list has a time stamp. -/
theorem Cache.Sound.lentTs (h : c.Sound env) {le : Lent} (hle : le ∈ c.rrset_l) :
    ∃ ts, c.lentTs le = some ts := by
  obtain ⟨cent, hcent, hlent, -⟩ := h.of_mem hle
  rw [Cache.lentTs, hcent, Option.bind_some]
  obtain ⟨key, idx⟩ := le
  cases idx with
  | none =>
    cases hdomain : cent.domain with
    | neg lent ttl ts => exact ⟨ts, rfl⟩
    | rr a =>
      have hlent : cent.lentAt none = true := hlent
      rw [DnsCent.lentAt, hdomain] at hlent
      exact absurd hlent Bool.false_ne_true
  | some i =>
    obtain ⟨rrset, hget, -⟩ := (Option.any_eq_true ..).mp hlent
    exact ⟨rrset.ts, by simp only [hget, Option.map_some]⟩

/-- The list in another order. -/
theorem Cache.Sound.perm (h : c.Sound env) {l : List Lent} (hl : l.Perm c.rrset_l)
    (insert_sort : Bool) :
    Cache.Sound env { c with rrset_l := l, insert_sort := insert_sort } := by
  refine ⟨⟨?_, fun le ↦ ?_, h.linked.key, h.linked.accounted⟩, h.filed, h.hash, h.mem_keys, h.ent_num⟩
  · exact hl.nodup_iff.mpr h.linked.nodup
  · rw [← h.linked.mem_iff]
    exact hl.mem_iff

theorem mapM_stamped {l : List Lent} {tsOf : Lent → Option ℤ}
    (h : ∀ le ∈ l, ∃ ts, tsOf le = some ts) :
    ∃ stamped, l.mapM (fun le ↦ (tsOf le).map fun ts ↦ (ts, le)) = some stamped ∧
      stamped.map Prod.snd = l ∧ ∀ p ∈ stamped, tsOf p.2 = some p.1 := by
  induction l with
  | nil => exact ⟨[], rfl, rfl, fun p hp ↦ absurd hp List.not_mem_nil⟩
  | cons le l ih =>
    obtain ⟨ts, hts⟩ := h le List.mem_cons_self
    obtain ⟨stamped, hmap, hl, hstamped⟩ := ih fun le' hle' ↦ h le' (List.mem_cons_of_mem le hle')
    refine ⟨(ts, le) :: stamped, ?_, by rw [List.map_cons, hl], List.forall_mem_cons.mpr ⟨hts, hstamped⟩⟩
    rw [List.mapM_cons, hts, Option.map_some, hmap]
    rfl

/-- `sort_rrl` orders the list by the time stamps, if it is short enough for the array. -/
theorem Cache.Sound.sortRrl (h : c.Sound env) (hlength : c.rrset_l.length < 2 ^ 32) :
    ∃ l, c.sortRrl = some { c with rrset_l := l } ∧ l.Perm c.rrset_l ∧
      l.Pairwise fun le le' ↦ ∀ ts ts', c.lentTs le = some ts → c.lentTs le' = some ts' → ts ≤ ts' := by
  obtain ⟨stamped, hmap, hl, hstamped⟩ := mapM_stamped fun le hle ↦ h.lentTs hle
  have hlength' : stamped.length < 2 ^ 32 := by
    rwa [← List.length_map Prod.snd, hl]
  obtain ⟨sorted, hsort, hsorted, hstable⟩ := @slotSort_spec _ Prod.fst _ _ hlength'
  refine ⟨sorted.map Prod.snd, ?_, ?_, ?_⟩
  · rw [Cache.sortRrl, hmap, Option.bind_some, hsort, Option.map_some]
  · rw [← hl]
    exact hstable.perm.map _
  · rw [List.pairwise_map]
    refine hsorted.imp_of_mem fun {p p'} hp hp' hle ts ts' hts hts' ↦ ?_
    have hp := hstamped p (hstable.perm.mem_iff.mp hp)
    have hp' := hstamped p' (hstable.perm.mem_iff.mp hp')
    rw [hp] at hts
    rw [hp'] at hts'
    rwa [← Option.some.inj hts, ← Option.some.inj hts']

theorem Shrinks.of_perm {l : List Lent} (hl : l.Perm c.rrset_l) (insert_sort : Bool) :
    Shrinks c { c with rrset_l := l, insert_sort := insert_sort } :=
  ⟨rfl, le_rfl, hl.subperm, fun {_ cent} hcent ↦ ⟨cent, hcent, .refl cent⟩,
    fun {_ cent _ _} hcent hget _ ↦ ⟨cent, hcent, hget⟩⟩

/-- The end of `read_disk_cache`, and the sort in `purge_cache`. -/
theorem Cache.Sound.endReading (h : c.Sound env) (hlength : c.rrset_l.length < 2 ^ 32) :
    ∃ c', c.endReading = some c' ∧ c'.Sound env ∧ Shrinks c c' ∧ c'.cache_size = c.cache_size := by
  rw [Cache.endReading]
  split
  next => exact ⟨c, rfl, h, .refl c, rfl⟩
  next =>
    obtain ⟨l, hsort, hl, -⟩ := h.sortRrl hlength
    exact ⟨_, by rw [hsort, Option.map_some], h.perm hl true, .of_perm hl true, rfl⟩

/-- `purge_cache` does not fail, and after it the cache is small enough or has only local sets. -/
theorem Cache.Sound.purgeCache (h : c.Sound env) (hlength : c.rrset_l.length < 2 ^ 32) (now sz : ℤ)
    (lazy : Bool) :
    ∃ c', c.purgeCache env now sz lazy = some c' ∧ c'.Sound env ∧ Shrinks c c' ∧
      (c'.cache_size ≤ sz ∨ c'.rrset_l = []) := by
  obtain ⟨c₁, hwalk₁, hsound₁, hshrinks₁⟩ := @walkRrl_sound env c
    (fun c ↦ lazy && decide (c.cache_size ≤ sz)) (Cache.purgeVisit env now)
    (fun h hle ↦ h.purgeVisit now hle) c.rrset_l h List.suffix_rfl
  rw [Cache.purgeCache, hwalk₁, Option.bind_some]
  split
  next hsize => exact ⟨c₁, rfl, hsound₁, hshrinks₁, .inl hsize⟩
  next =>
    have hlength₁ := Nat.lt_of_le_of_lt hshrinks₁.subperm.length_le hlength
    obtain ⟨c₂, hsort, hsound₂, hshrinks₂, -⟩ := hsound₁.endReading hlength₁
    rw [Cache.endReading] at hsort
    obtain ⟨c', hwalk, hsound, hshrinks, -, hend⟩ := @walkRrl_evict env c₂
      (fun c ↦ decide (c.cache_size ≤ sz)) (Cache.evictVisit env) (fun h hle ↦ h.evictVisit hle)
      hsound₂
    refine ⟨c', ?_, hsound, (hshrinks₁.trans hshrinks₂).trans hshrinks, ?_⟩
    · rw [hsort, Option.bind_some, hwalk]
    · exact hend.imp_left of_decide_eq_true

end Walks

end Orbot.Pdnsd.DnsCache
