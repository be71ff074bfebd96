import Orbot.Pdnsd.CacheAdding

/-!
# Adding sets to an entry

A new set replaces an old one, and the sets that it conflicts with. The other sets of the entry stay
where they are in the list, and all other entries are left alone.
-/

namespace Orbot.Pdnsd.DnsCache

open Foundation

section Replace

variable {env : Env} {c : Cache} {key : Key} {cent cent' : DnsCent} {i : RrIndex} {rrset : RrSet}

theorem Edited.refl (hcent : c.heap key = some cent) : Edited key cent c c :=
  ⟨by rw [← hcent, Function.update_eq_self], rfl, rfl, rfl⟩

variable (i) in
/-- `del_cent_rrset_by_index`, whether there is a set or not. -/
theorem Cache.Sound.clearRrset (h : c.Sound env) (hcent : c.heap key = some cent) :
    ∃ c' size cent', c.delCentRrset env key i = some (c', size) ∧ c'.Sound env ∧
      Edited key cent' c c' ∧ c'.cache_size = c.cache_size ∧
      c'.rrset_l.length ≤ c.rrset_l.length ∧ cent'.get = Function.update cent.get i none := by
  cases hget : cent.get i with
  | none =>
    refine ⟨c, 0, cent, Cache.delCentRrset_of_none hcent hget, h, .refl hcent, rfl, le_rfl, ?_⟩
    rw [← hget, Function.update_eq_self]
  | some rrset =>
    obtain ⟨c', hdel, hsound, hedit, hsize, hlist⟩ := h.delCentRrset hcent hget
    refine ⟨c', _, _, hdel, hsound, hedit, hsize, ?_, DnsCent.get_dropRrset hget⟩
    rw [hlist]
    exact List.erase_sublist.length_le

/-- The loop of `cr_check_add` that removes sets. -/
theorem Cache.Sound.removeRrsets (h : c.Sound env) (hcent : c.heap key = some cent)
    (hnone : cent.get i = none) (sets : List RrIndex) :
    ∃ c' cent', sets.foldlM (fun (c : Cache) j ↦ (c.delCentRrset env key j).map Prod.fst) c = some c' ∧
      c'.Sound env ∧ Edited key cent' c c' ∧ c'.cache_size = c.cache_size ∧
      c'.rrset_l.length ≤ c.rrset_l.length ∧ cent'.get i = none := by
  obtain ⟨c', hfold, hsound, cent', hrest⟩ := @exists_foldlM _ _
    (fun (c : Cache) j ↦ (c.delCentRrset env key j).map Prod.fst)
    (fun s ↦ s.Sound env ∧ ∃ cent', Edited key cent' c s ∧ s.cache_size = c.cache_size ∧
      s.rrset_l.length ≤ c.rrset_l.length ∧ cent'.get i = none)
    sets c ⟨h, cent, .refl hcent, rfl, le_rfl, hnone⟩ fun j _ s hs ↦ by
      obtain ⟨hsound, cent₁, hedit, hsize, hlength, hget⟩ := hs
      obtain ⟨s', _, cent₂, hdel, hsound', hedit', hsize', hlength', hget'⟩ :=
        hsound.clearRrset j hedit.heap_self
      refine ⟨s', by rw [hdel, Option.map_some], hsound', cent₂, hedit.trans hedit',
        hsize'.trans hsize, hlength'.trans hlength, ?_⟩
      rw [hget']
      by_cases hi : i = j
      · rw [hi, Function.update_self]
      · rw [Function.update_of_ne hi, hget]
  exact ⟨c', cent', hfold, hsound, hrest⟩

/-- `cr_check_add`. -/
theorem Cache.Sound.crCheckAdd (h : c.Sound env) (hcent : c.heap key = some cent)
    (hnone : cent.get i = none) (now ttl : ℤ) (flags : SetFlags) :
    ∃ c' ok cent', c.crCheckAdd env now key i ttl flags = some (c', ok) ∧ c'.Sound env ∧
      Edited key cent' c c' ∧ c'.cache_size = c.cache_size ∧
      c'.rrset_l.length ≤ c.rrset_l.length ∧ cent'.get i = none := by
  have hsame : ∀ ok : Bool, ∃ (c' : Cache) (ok' : Bool) (cent' : DnsCent),
      some (c, ok) = some (c', ok') ∧ c'.Sound env ∧
      Edited key cent' c c' ∧ c'.cache_size = c.cache_size ∧
      c'.rrset_l.length ≤ c.rrset_l.length ∧ cent'.get i = none :=
    fun ok ↦ ⟨c, ok, cent, rfl, h, .refl hcent, rfl, le_rfl, hnone⟩
  obtain ⟨c', cent', hfold, hrest⟩ := h.removeRrsets hcent hnone (cent.conflicts i)
  rw [Cache.crCheckAdd, hcent, Option.bind_some]
  simp only [hfold, Option.map_some]
  split
  next => exact hsame true
  next =>
    split
    next => exact ⟨c', true, cent', rfl, hrest⟩
    next =>
      split
      next => exact hsame false
      next =>
        split
        next => exact hsame true
        next =>
          split
          next => exact ⟨c', true, cent', rfl, hrest⟩
          next => exact hsame false

theorem DnsCent.lentAt_none (h : cent.isNegative = false) : cent.lentAt none = false := by
  cases hdomain : cent.domain with
  | neg lent ttl ts =>
    rw [isNegative, hdomain] at h
    exact absurd h.symm Bool.false_ne_true
  | rr a => rw [lentAt, hdomain]

/-- `add_cent_rrset_by_index` for an entry of the cache. -/
theorem Cache.Sound.addCentRrset (h : c.Sound env) (hcent : c.heap key = some cent)
    (hnone : cent.get i = none) (ttl ts : ℤ) (flags : SetFlags) :
    ∃ c', c.addCentRrset env key i ttl ts flags = some c' ∧
      Linked env.sizes c'.heap c'.rrset_l ∧
      Edited key (cent.addRrset env.sizes i ttl ts flags) c c' ∧ c'.cache_size = c.cache_size ∧
      c'.rrset_l.length ≤ c.rrset_l.length := by
  have hkey : (cent.addRrset env.sizes i ttl ts flags).qname.key = key :=
    show cent.qname.key = key from h.linked.key hcent
  have haccounted := (h.linked.accounted hcent).addRrset hnone ttl ts flags
  have hset : ∀ j, (cent.addRrset env.sizes i ttl ts flags).lentAt (some j) =
      cent.lentAt (some j) := by
    intro j
    rw [DnsCent.lentAt, DnsCent.get_addRrset, DnsCent.lentAt]
    by_cases hj : j = i
    · rw [hj, Function.update_self, hnone]
      rfl
    · rw [Function.update_of_ne hj]
  rw [Cache.addCentRrset, hcent, Option.bind_some]
  cases hdomain : cent.domain with
  | neg lent ttl' ts' =>
    have hlent : cent.lentAt none = lent := by
      rw [DnsCent.lentAt, hdomain]
    have hremove := h.linked.removeLent hcent none
    rw [hlent] at hremove
    have hlinked := h.linked.unlink hcent hkey haccounted none rfl fun idx hidx ↦ by
      cases idx with
      | none => exact absurd rfl hidx
      | some j => exact hset j
    refine ⟨{ c with rrset_l := c.rrset_l.erase ⟨key, none⟩ }.write _, ?_, ?_,
      ⟨by rw [← hkey, Cache.write], rfl, rfl, rfl⟩, rfl, List.erase_sublist.length_le⟩
    · simp only [hremove, Option.map_some]
    · rw [← hkey] at hlinked ⊢
      exact hlinked
  | rr a =>
    have hneg : cent.isNegative = false := by
      rw [DnsCent.isNegative, hdomain]
    have hlinked := h.linked.write hcent hkey haccounted fun idx ↦ by
      cases idx with
      | none => rw [DnsCent.lentAt_none rfl, DnsCent.lentAt_none hneg]
      | some j => exact hset j
    refine ⟨c.write _, rfl, ?_, ⟨by rw [← hkey, Cache.write], rfl, rfl, rfl⟩, rfl, le_rfl⟩
    rw [← hkey] at hlinked
    exact hlinked

/-- The loop of `add_cache` over the records of a new set. -/
theorem DnsCent.addRrInts (h : cent.Accounted env.sizes) (hget : cent.get i = some rrset)
    (ttl ts : ℤ) (flags : SetFlags) (rrs : List Octets) :
    let cent' := rrs.foldl (fun ce data ↦ ce.addRrInt env.sizes i ttl ts flags data) cent
    cent'.Accounted env.sizes ∧ cent'.qname = cent.qname ∧ cent'.flags = cent.flags ∧
      cent'.isNegative = cent.isNegative ∧
      cent'.get = Function.update cent.get i (some { rrset with rrs := rrset.rrs ++ rrs }) := by
  induction rrs generalizing cent rrset with
  | nil =>
    refine ⟨h, rfl, rfl, rfl, ?_⟩
    rw [List.append_nil, ← hget, Function.update_eq_self]
    rfl
  | cons data rrs ih =>
    have hint : cent.addRrInt env.sizes i ttl ts flags data =
        { cent.modify i fun rrset ↦ { rrset with rrs := rrset.rrs ++ [data] } with
          cs := cent.cs + (env.sizes.rr_bucket_t + data.length) } := by
      rw [DnsCent.addRrInt, hget]
      rfl
    have hget₁ : (cent.addRrInt env.sizes i ttl ts flags data).get =
        Function.update cent.get i (some { rrset with rrs := rrset.rrs ++ [data] }) := by
      have hmodify := cent.get_modify i fun rrset ↦ { rrset with rrs := rrset.rrs ++ [data] }
      rw [hget, Option.map_some] at hmodify
      rw [hint, ← hmodify]
      rfl
    have hqname₁ : (cent.addRrInt env.sizes i ttl ts flags data).qname = cent.qname := by
      rw [hint]
      exact cent.qname_modify i _
    have hflags₁ : (cent.addRrInt env.sizes i ttl ts flags data).flags = cent.flags := by
      rw [hint]
      exact cent.flags_modify i _
    have hneg₁ : (cent.addRrInt env.sizes i ttl ts flags data).isNegative = cent.isNegative := by
      rw [hint]
      exact cent.isNegative_modify i _
    obtain ⟨haccounted, hqname, hflags, hneg, hget'⟩ :=
      @ih (cent.addRrInt env.sizes i ttl ts flags data) { rrset with rrs := rrset.rrs ++ [data] }
        (h.addRrInt ttl ts flags data) (by rw [hget₁, Function.update_self])
    refine ⟨haccounted, hqname.trans hqname₁, hflags.trans hflags₁, hneg.trans hneg₁, ?_⟩
    rw [List.foldl_cons, hget', hget₁, Function.update_idem, List.append_assoc, List.singleton_append]

/-- A new set in the loop of `add_cache`. -/
theorem Cache.Sound.addRrset (h : c.Sound env) (hcent : c.heap key = some cent) (now : ℤ)
    (new : RrIndex × RrSet) :
    ∃ c' cent', c.addRrset env now key new = some c' ∧ c'.Sound env ∧ Edited key cent' c c' ∧
      c'.cache_size = c.cache_size ∧ c'.rrset_l.length ≤ c.rrset_l.length + 1 := by
  obtain ⟨i, centrrs⟩ := new
  rw [Cache.addRrset]
  simp only [hcent, Option.bind_some]
  split
  next => exact ⟨c, cent, rfl, h, .refl hcent, rfl, Nat.le_succ _⟩
  next =>
    obtain ⟨c₁, _, cent₁, hdel, hsound₁, hedit₁, hsize₁, hlength₁, hget₁⟩ := h.clearRrset i hcent
    obtain ⟨c₂, ok, cent₂, hcheck, hsound₂, hedit₂, hsize₂, hlength₂, hget₂⟩ :=
      hsound₁.crCheckAdd hedit₁.heap_self (by rw [hget₁, Function.update_self] : cent₁.get i = none)
        now centrrs.ttl centrrs.flags
    simp only [hdel, Option.bind_some, hcheck]
    have hedit := hedit₁.trans hedit₂
    cases ok with
    | false =>
      exact ⟨c₂, cent₂, rfl, hsound₂, hedit, hsize₂.trans hsize₁,
        (hlength₂.trans hlength₁).trans (Nat.le_succ _)⟩
    | true =>
      obtain ⟨c₃, hadd, hlinked₃, hedit₃, hsize₃, hlength₃⟩ := hsound₂.addCentRrset hedit₂.heap_self
        hget₂ centrrs.ttl centrrs.ts centrrs.flags
      have hget₃ := cent₂.get_addRrset env.sizes i centrrs.ttl centrrs.ts centrrs.flags
      obtain ⟨haccounted, hqname, hflags, hneg, hget₄⟩ := @DnsCent.addRrInts env _ i _
        (hlinked₃.accounted hedit₃.heap_self) (by rw [hget₃, Function.update_self]) centrrs.ttl
        centrrs.ts centrrs.flags centrrs.rrs
      generalize hcent₄ : centrrs.rrs.foldl (fun ce data ↦ ce.addRrInt env.sizes i centrrs.ttl
        centrrs.ts centrrs.flags data) (cent₂.addRrset env.sizes i centrrs.ttl centrrs.ts
          centrrs.flags) = cent₄ at haccounted hqname hflags hneg hget₄
      rw [hget₃, Function.update_idem] at hget₄
      have hkey₄ : cent₄.qname.key = key := by
        rw [hqname]
        exact hlinked₃.key hedit₃.heap_self
      have hneg₄ : cent₄.isNegative = false := hneg
      have hlinked₄ := hlinked₃.write hedit₃.heap_self hkey₄ haccounted fun idx ↦ by
        cases idx with
        | none => rw [DnsCent.lentAt_none hneg₄, DnsCent.lentAt_none rfl]
        | some j =>
          rw [DnsCent.lentAt, hget₄, DnsCent.lentAt, hget₃]
          by_cases hj : j = i
          · rw [hj, Function.update_self, Function.update_self]
            rfl
          · rw [Function.update_of_ne hj, Function.update_of_ne hj]
      have hedit₄ : Edited key cent₄ c₃ (c₃.write cent₄) :=
        ⟨by rw [← hkey₄, Cache.write], rfl, rfl, rfl⟩
      rw [← hedit₄.heap] at hlinked₄
      obtain ⟨c', cent', hfile, hlinked, hedit', hsize', hlength', hown, hothers, hflags', -, hneg'⟩ :=
        Linked.fileRrset hlinked₄ hedit₄.heap_self (by rw [hget₄, Function.update_self]) rfl
      have hall := ((hedit.trans hedit₃).trans hedit₄).trans hedit'
      refine ⟨c', cent', ?_, h.edited hcent hall hlinked fun idx ↦ ?_, hall, ?_, ?_⟩
      · simp only [if_true, hadd, Option.bind_some, hedit₃.heap_self, hcent₄, hfile]
      · cases idx with
        | none => exact DnsCent.filedAt_none hneg'
        | some j =>
          by_cases hj : j = i
          · exact hj ▸ hown
          · refine DnsCent.filedAt_congr ?_ ?_ (hsound₂.filed key cent₂ hedit₂.heap_self (some j))
            · rw [hothers j hj, hget₄, Function.update_of_ne hj]
            · rw [hflags', hflags]
              rfl
      · rw [hsize', ← hsize₁, ← hsize₂, ← hsize₃]
        rfl
      · exact hlength'.trans (Nat.succ_le_succ ((hlength₃.trans hlength₂).trans hlength₁))

end Replace

section Add

variable {env : Env} {c : Cache} {key : Key} {cent ce : DnsCent}

/-- The loop of `add_cache` over the sets of the new entry. -/
theorem Cache.Sound.addRrsets (h : c.Sound env) (hcent : c.heap key = some ce) (now : ℤ)
    (sets : List (RrIndex × RrSet)) :
    ∃ c' ce', sets.foldlM (Cache.addRrset env now key) c = some c' ∧ c'.Sound env ∧
      Edited key ce' c c' ∧ c'.cache_size = c.cache_size ∧
      c'.rrset_l.length ≤ c.rrset_l.length + sets.length := by
  induction sets generalizing c ce with
  | nil => exact ⟨c, ce, rfl, h, .refl hcent, rfl, le_rfl⟩
  | cons new sets ih =>
    obtain ⟨c₁, ce₁, hadd, hsound₁, hedit₁, hsize₁, hlength₁⟩ := h.addRrset hcent now new
    obtain ⟨c', ce', hfold, hsound, hedit, hsize, hlength⟩ := ih hsound₁ hedit₁.heap_self
    refine ⟨c', ce', ?_, hsound, hedit₁.trans hedit, hsize.trans hsize₁, ?_⟩
    · rw [List.foldlM_cons, hadd]
      exact hfold
    · rw [List.length_cons]
      omega

theorem DnsCent.length_rrsets_le (cent : DnsCent) : cent.rrsets.length ≤ NRRTOT := by
  refine (List.length_filterMap_le _ _).trans ?_
  rw [indices]
  split
  next => exact Nat.zero_le _
  next a _ => exact a.length_indices_le

theorem Cache.Sound.resize (h : c.Sound env) (size : ℤ) :
    Cache.Sound env { c with cache_size := size } :=
  ⟨h.linked, h.filed, h.hash, h.mem_keys, h.ent_num⟩

/-- `add_cache` for a name that the cache has. -/
theorem Cache.Sound.addPresent (h : c.Sound env) (hce : c.heap key = some ce) (now : ℤ)
    (cent : DnsCent) :
    ∃ c', c.addPresent env now key cent = some c' ∧ c'.Sound env ∧
      c'.memory - c'.cache_size = c.memory - c.cache_size ∧
      c'.rrset_l.length ≤ c.rrset_l.length + NRRTOT := by
  obtain ⟨c₁, n, hpurge, hsound₁, hshrinks₁, hleft, -⟩ := h.purgeCent hce now false false
  obtain ⟨ce₁, hce₁⟩ := hleft.resolve_left fun hdeleted ↦ Bool.false_ne_true hdeleted.1
  obtain ⟨c₂, ce₂, hfold, hsound₂, hedit₂, hsize₂, hlength₂⟩ :=
    @Cache.Sound.addRrsets env { c₁ with cache_size := c₁.cache_size - ce₁.cs } key ce₁
      (hsound₁.resize _) hce₁ now cent.rrsets
  obtain ⟨hsound₃, hedit₃, -⟩ := @Cache.Sound.mark env c₂ key ce₂ (ce₂.merge cent) hsound₂
    hedit₂.heap_self rfl rfl rfl rfl rfl
  have hedit : Edited key (ce₂.merge cent) c₁
      { c₂.write (ce₂.merge cent) with cache_size := c₂.cache_size + ce₂.cs } := by
    have hall := hedit₂.trans hedit₃
    exact ⟨hall.heap, hall.hash, hall.ent_num, hall.insert_sort⟩
  refine ⟨_, ?_, hsound₃.resize (c₂.cache_size + ce₂.cs), ?_, ?_⟩
  · rw [Cache.addPresent, hpurge]
    simp only [Option.bind_some, hce₁, hfold, hedit₂.heap_self, Option.map_some]
  · have hmemory := Cache.memory_update hedit.keys hedit.heap (hsound₁.mem_of_heap hce₁) hce₁
    rw [hmemory]
    have hslack := hshrinks₁.slack
    have hcs : (ce₂.merge cent).cs = ce₂.cs := rfl
    have hsize : c₂.cache_size = c₁.cache_size - ce₁.cs := hsize₂
    change c₁.memory - ce₁.cs + (ce₂.merge cent).cs - (c₂.cache_size + ce₂.cs) = _
    omega
  · have hlength₁ := hshrinks₁.subperm.length_le
    exact (hlength₂.trans (Nat.add_le_add hlength₁ cent.length_rrsets_le))

/-- `add_cache`, to where the cache is purged. Two tries are enough. -/
theorem Cache.Sound.addTries (h : c.Sound env) (haccounted : cent.Accounted env.sizes) (now : ℤ) :
    ∃ c' purge, Cache.addTries env now cent 2 c = some (c', purge) ∧ c'.Sound env ∧
      c'.memory - c'.cache_size = c.memory - c.cache_size ∧
      c'.rrset_l.length ≤ c.rrset_l.length + NRRTOT ∧ (purge = false → c' = c) := by
  have hmissing : ∀ {c : Cache} {tries : ℕ}, c.Sound env → c.heap cent.qname.key = none →
      ∃ c', Cache.addTries env now cent (tries + 1) c = some (c', true) ∧ c'.Sound env ∧
        c'.memory - c'.cache_size = c.memory - c.cache_size ∧
        c'.rrset_l.length ≤ c.rrset_l.length + NRRTOT := by
    intro c tries h hnone
    obtain ⟨c', hadd, hrest⟩ := h.addMissing haccounted hnone
    have hlookup : c.lookup env cent.qname.rhn = none := by
      rw [h.lookup_rhn, hnone, Option.map_none]
    exact ⟨c', by rw [Cache.addTries, hlookup]; simp only [hadd, Option.map_some], hrest⟩
  cases hce : c.heap cent.qname.key with
  | none =>
    obtain ⟨c', hadd, hsound, hslack, hlength⟩ := @hmissing c 1 h hce
    exact ⟨c', true, hadd, hsound, hslack, hlength, fun hfalse ↦ absurd hfalse.symm Bool.false_ne_true⟩
  | some ce =>
    have hlookup : c.lookup env cent.qname.rhn = some cent.qname.key := by
      rw [h.lookup_rhn, hce, Option.map_some]
    rw [Cache.addTries, hlookup]
    dsimp only
    split
    next =>
      rw [hce, Option.bind_some]
      split
      next => exact ⟨c, false, rfl, h, rfl, Nat.le_add_right _ _, fun _ ↦ rfl⟩
      next =>
        obtain ⟨c₁, hdel, hsound₁, hfreed⟩ := h.delCacheEnt hce
        obtain ⟨c', hadd, hsound, hslack, hlength⟩ := @hmissing c₁ 0 hsound₁ (by
          rw [hfreed.heap, Function.update_self])
        have hmemory := Cache.memory_free hfreed.keys hfreed.heap (h.mem_of_heap hce) hce
        have hlength₁ : c₁.rrset_l.length ≤ c.rrset_l.length := by
          rw [hfreed.rrset_l]
          exact List.length_filter_le _ _
        refine ⟨c', true, by rw [hdel, Option.bind_some, hadd], hsound, ?_,
          hlength.trans (Nat.add_le_add_right hlength₁ _),
          fun hfalse ↦ absurd hfalse.symm Bool.false_ne_true⟩
        rw [hslack, hmemory, hfreed.cache_size]
        omega
    next =>
      obtain ⟨c', hadd, hsound, hslack, hlength⟩ := h.addPresent hce now cent
      exact ⟨c', true, by rw [hadd, Option.map_some], hsound, hslack, hlength,
        fun hfalse ↦ absurd hfalse.symm Bool.false_ne_true⟩

/-- `add_cache`: it does not fail, and after it the cache is small enough or has only local sets, if
it was so before. -/
theorem Cache.Sound.addCache (h : c.Sound env) (haccounted : cent.Accounted env.sizes) (now : ℤ)
    (hlength : c.rrset_l.length + NRRTOT < 2 ^ 32) :
    ∃ c', c.addCache env now cent = some c' ∧ c'.Sound env ∧
      c'.memory - c'.cache_size = c.memory - c.cache_size ∧
      (c'.cache_size ≤ env.limit ∨ c'.rrset_l = [] ∨ c' = c) := by
  obtain ⟨c₁, purge, htries, hsound₁, hslack₁, hlength₁, hsame⟩ := h.addTries haccounted now
  rw [Cache.addCache, htries, Option.bind_some]
  cases purge with
  | false => exact ⟨c₁, rfl, hsound₁, hslack₁, .inr (.inr (hsame rfl))⟩
  | true =>
    obtain ⟨c', hpurge, hsound, hshrinks, hend⟩ :=
      hsound₁.purgeCache (Nat.lt_of_le_of_lt hlength₁ hlength) now env.limit true
    exact ⟨c', hpurge, hsound, hshrinks.slack.trans hslack₁, hend.imp_right .inl⟩

end Add

end Orbot.Pdnsd.DnsCache
