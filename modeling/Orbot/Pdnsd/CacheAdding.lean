import Orbot.Pdnsd.CacheExpiry

/-!
# Adding to the cache

What is added gets its place in the list when it is complete. Only the entry of the name changes until
the cache is purged.
-/

namespace Orbot.Pdnsd.DnsCache

open Foundation

section Insert

variable {env : Env} {c : Cache} {key : Key} {cent cent' : DnsCent} {i : RrIndex} {rrset : RrSet}

theorem insertBack_perm {tsOf : Lent → Option ℤ} (ne : Lent) (ts : ℤ) {l : List Lent}
    (h : ∀ le ∈ l, ∃ t, tsOf le = some t) :
    ∃ l', insertBack tsOf ne ts l = some l' ∧ l'.Perm (ne :: l) := by
  induction l with
  | nil => exact ⟨[ne], rfl, .refl _⟩
  | cons le l ih =>
    obtain ⟨t, ht⟩ := h le List.mem_cons_self
    rw [insertBack, ht, Option.bind_some]
    split
    next => exact ⟨_, rfl, .refl _⟩
    next =>
      obtain ⟨l', hl', hperm⟩ := ih fun le' hle' ↦ h le' (List.mem_cons_of_mem le hle')
      exact ⟨le :: l', by rw [hl', Option.map_some], (hperm.cons le).trans (.swap ne le l)⟩

/-- What has an element of the list has a time stamp. -/
theorem Cache.lentTs_of_lentAt (hcent : c.heap key = some cent) {idx : Option RrIndex}
    (hhas : cent.hasAt idx = true) : ∃ ts, c.lentTs ⟨key, idx⟩ = some ts := by
  rw [Cache.lentTs, hcent, Option.bind_some]
  cases idx with
  | none =>
    cases hdomain : cent.domain with
    | neg lent ttl ts => exact ⟨ts, rfl⟩
    | rr a =>
      rw [DnsCent.hasAt, DnsCent.isNegative, hdomain] at hhas
      exact absurd hhas Bool.false_ne_true
  | some i =>
    obtain ⟨rrset, hget⟩ := Option.isSome_iff_exists.mp hhas
    exact ⟨rrset.ts, by simp only [hget, Option.map_some]⟩

theorem DnsCent.hasAt_of_lentAt {idx : Option RrIndex} (h : cent.lentAt idx = true) :
    cent.hasAt idx = true := by
  cases idx with
  | none =>
    cases hdomain : cent.domain with
    | neg lent ttl ts => rw [hasAt, isNegative, hdomain]
    | rr a =>
      rw [lentAt, hdomain] at h
      exact absurd h Bool.false_ne_true
  | some i =>
    obtain ⟨rrset, hget, -⟩ := (Option.any_eq_true ..).mp h
    rw [hasAt, hget, Option.isSome_some]

/-- `insert_rrl` for what is not local and not in the list. -/
theorem Linked.insertRrl (h : Linked env.sizes c.heap c.rrset_l) (hcent : c.heap key = some cent)
    {idx : Option RrIndex} (hhas : cent.hasAt idx = true) (hlent : cent.lentAt idx = false)
    (hlocal : cent.isLocalAt idx = false) (hqname : (cent.setLent idx).qname = cent.qname)
    (haccounted : (cent.setLent idx).Accounted env.sizes)
    (hself : (cent.setLent idx).lentAt idx = true)
    (hothers : ∀ idx', idx' ≠ idx → (cent.setLent idx).lentAt idx' = cent.lentAt idx') :
    ∃ c', c.insertRrl ⟨key, idx⟩ = some c' ∧ Linked env.sizes c'.heap c'.rrset_l ∧
      Edited key (cent.setLent idx) c c' ∧ c'.cache_size = c.cache_size ∧
      c'.rrset_l.length = c.rrset_l.length + 1 := by
  have hts : ∀ le ∈ c.rrset_l, ∃ ts, c.lentTs le = some ts := by
    rintro ⟨k, idx'⟩ hle
    obtain ⟨cent'', hcent'', hlent''⟩ := (h.mem_iff _).mp hle
    exact Cache.lentTs_of_lentAt hcent'' (DnsCent.hasAt_of_lentAt hlent'')
  obtain ⟨ts, hts'⟩ := Cache.lentTs_of_lentAt hcent hhas
  have hplace : ∃ l, (if c.insert_sort = true then
      (insertBack c.lentTs ⟨key, idx⟩ ts c.rrset_l.reverse).map List.reverse
      else some (c.rrset_l ++ [⟨key, idx⟩])) = some l ∧ l.Perm (⟨key, idx⟩ :: c.rrset_l) := by
    split
    next =>
      obtain ⟨l, hl, hperm⟩ := insertBack_perm ⟨key, idx⟩ ts (l := c.rrset_l.reverse)
        fun le hle ↦ hts le (List.mem_reverse.mp hle)
      exact ⟨l.reverse, by rw [hl, Option.map_some], (List.reverse_perm l).trans
        (hperm.trans ((List.reverse_perm _).cons _))⟩
    next => exact ⟨_, rfl, List.perm_append_singleton _ _⟩
  obtain ⟨l, hl, hperm⟩ := hplace
  have hkey : (cent.setLent idx).qname.key = key := by
    rw [hqname, h.key hcent]
  have hnot : ⟨key, idx⟩ ∉ c.rrset_l := by
    rw [h.mem_iff_lentAt hcent, hlent]
    exact Bool.false_ne_true
  refine ⟨{ c with rrset_l := l }.write (cent.setLent idx), ?_, ?_, ⟨?_, rfl, rfl, rfl⟩, rfl, ?_⟩
  · rw [Cache.insertRrl, hcent, Option.bind_some, hlocal, if_neg Bool.false_ne_true, hts',
      Option.bind_some, hl, Option.map_some]
  · have hlinked : Linked env.sizes (Function.update c.heap key (some (cent.setLent idx))) l := by
      refine h.edit hkey haccounted ?_ (fun le hle ↦ ?_) fun idx' ↦ ?_
      · rw [hperm.nodup_iff, List.nodup_cons]
        exact ⟨hnot, h.nodup⟩
      · rw [hperm.mem_iff, List.mem_cons]
        exact or_iff_right fun heq ↦ hle (congrArg Lent.cent heq)
      · rw [hperm.mem_iff, List.mem_cons]
        by_cases hidx : idx' = idx
        · rw [hidx, hself]
          simp
        · rw [hothers idx' hidx, h.mem_iff_lentAt hcent]
          simp [hidx]
    rw [← hkey] at hlinked
    exact hlinked
  · rw [← hkey]
    rfl
  · exact hperm.length_eq

theorem Cache.insertRrl_local (hcent : c.heap key = some cent) {idx : Option RrIndex}
    (hlocal : cent.isLocalAt idx = true) : c.insertRrl ⟨key, idx⟩ = some c := by
  rw [Cache.insertRrl, hcent, Option.bind_some, if_pos hlocal]

theorem DnsCent.filedAt_none (h : cent.isNegative = false) : cent.FiledAt none := by
  cases hdomain : cent.domain with
  | neg lent ttl ts =>
    rw [isNegative, hdomain] at h
    exact absurd h.symm Bool.false_ne_true
  | rr a => rw [FiledAt, lentAt, hdomain, hasAt, h, Bool.false_and]

theorem DnsCent.filedAt_congr {j : RrIndex} (hget : cent'.get j = cent.get j)
    (hlocal : cent'.flags.isLocal = cent.flags.isLocal) (h : cent.FiledAt (some j)) :
    cent'.FiledAt (some j) := by
  rw [FiledAt, lentAt, hasAt, isLocalAt, Option.bind_some] at h ⊢
  rw [hget, hlocal]
  exact h

theorem DnsCent.isNegative_of_get (hget : cent.get i = some rrset) : cent.isNegative = false := by
  obtain ⟨a, hdomain⟩ := domain_of_get hget
  rw [isNegative, hdomain]

theorem DnsCent.Accounted.modify_same {z : Sizes} (h : cent.Accounted z)
    (hget : cent.get i = some rrset) (f : RrSet → RrSet) (hf : (f rrset).rrs = rrset.rrs) :
    (cent.modify i f).Accounted z := by
  have hsize : (f rrset).size z = rrset.size z := by
    rw [RrSet.size, hf, RrSet.size]
  have hmodify := @DnsCent.Accounted.modify z cent i h rrset hget f cent.cs (by rw [hsize])
  rw [← cent.cs_modify i f] at hmodify
  exact hmodify

/-- A set that is complete is put into the list. -/
theorem Linked.insertRrl_set (h : Linked env.sizes c.heap c.rrset_l) (hcent : c.heap key = some cent)
    (hget : cent.get i = some rrset) (hlent : rrset.lent = false) :
    ∃ c' cent', c.insertRrl ⟨key, some i⟩ = some c' ∧ Linked env.sizes c'.heap c'.rrset_l ∧
      Edited key cent' c c' ∧ c'.cache_size = c.cache_size ∧
      c'.rrset_l.length ≤ c.rrset_l.length + 1 ∧ cent'.FiledAt (some i) ∧
      (∀ j, j ≠ i → cent'.get j = cent.get j) ∧ cent'.flags = cent.flags ∧ cent'.cs = cent.cs ∧
      cent'.isNegative = false := by
  have hlentAt : cent.lentAt (some i) = false := by
    rw [DnsCent.lentAt_of_get hget, hlent]
  have hhas : cent.hasAt (some i) = true := by
    rw [DnsCent.hasAt, hget, Option.isSome_some]
  cases hlocal : cent.isLocalAt (some i) with
  | true =>
    refine ⟨c, cent, Cache.insertRrl_local hcent hlocal, h, ⟨?_, rfl, rfl, rfl⟩, rfl,
      Nat.le_succ _, ?_, fun _ _ ↦ rfl, rfl, rfl, DnsCent.isNegative_of_get hget⟩
    · rw [← hcent, Function.update_eq_self]
    · rw [DnsCent.FiledAt, hlentAt, hlocal, Bool.not_true, Bool.and_false]
  | false =>
    obtain ⟨a, hdomain⟩ := DnsCent.domain_of_get hget
    have hset : cent.setLent (some i) = cent.modify i fun rrset ↦ { rrset with lent := true } := by
      simp only [DnsCent.setLent, hdomain]
    have hget' := cent.get_modify i fun rrset ↦ { rrset with lent := true }
    rw [hget, Option.map_some, ← hset] at hget'
    have haccounted := (h.accounted hcent).modify_same hget (fun rrset ↦ { rrset with lent := true })
      rfl
    rw [← hset] at haccounted
    have hnegative : (cent.setLent (some i)).isNegative = false := by
      rw [hset, DnsCent.isNegative_modify]
      exact DnsCent.isNegative_of_get hget
    have hself : (cent.setLent (some i)).lentAt (some i) = true := by
      rw [DnsCent.lentAt, hget', Function.update_self, Option.any_some]
    have hneg : ∀ {cent : DnsCent}, cent.isNegative = false → cent.lentAt none = false := by
      intro cent hneg
      cases hdomain : cent.domain with
      | neg lent ttl ts =>
        rw [DnsCent.isNegative, hdomain] at hneg
        exact absurd hneg.symm Bool.false_ne_true
      | rr a => rw [DnsCent.lentAt, hdomain]
    have hflags : (cent.setLent (some i)).flags = cent.flags := by
      rw [hset, DnsCent.flags_modify]
    obtain ⟨c', hinsert, hlinked, hedit, hsize, hlength⟩ := h.insertRrl hcent hhas hlentAt hlocal
      (by rw [hset, DnsCent.qname_modify]) haccounted hself fun idx hidx ↦ by
        cases idx with
        | none => rw [hneg hnegative, hneg (DnsCent.isNegative_of_get hget)]
        | some j =>
          rw [DnsCent.lentAt, hget', Function.update_of_ne fun hj ↦ hidx (congrArg some hj),
            DnsCent.lentAt]
    refine ⟨c', _, hinsert, hlinked, hedit, hsize, hlength.le, ?_, fun j hj ↦ ?_, hflags, ?_,
      hnegative⟩
    · have hlocal' : (cent.setLent (some i)).isLocalAt (some i) = false := by
        rw [DnsCent.isLocalAt, Option.bind_some, hget, Option.any_some] at hlocal
        rw [DnsCent.isLocalAt, Option.bind_some, hget', Function.update_self, Option.any_some, hflags]
        exact hlocal
      rw [DnsCent.FiledAt, hself, hlocal', DnsCent.hasAt, hget', Function.update_self]
      rfl
    · rw [hget', Function.update_of_ne hj]
    · rw [hset, DnsCent.cs_modify]

theorem RrSet.adjustTtl_rrs (rrset : RrSet) : (rrset.adjustTtl env).rrs = rrset.rrs := by
  rw [adjustTtl]; split <;> rfl

theorem RrSet.adjustTtl_lent (rrset : RrSet) : (rrset.adjustTtl env).lent = rrset.lent := by
  rw [adjustTtl]; split <;> rfl

/-- A set gets its time to live and its place in the list. -/
theorem Linked.fileRrset (h : Linked env.sizes c.heap c.rrset_l) (hcent : c.heap key = some cent)
    (hget : cent.get i = some rrset) (hlent : rrset.lent = false) :
    ∃ c' cent', c.fileRrset env key i = some c' ∧ Linked env.sizes c'.heap c'.rrset_l ∧
      Edited key cent' c c' ∧ c'.cache_size = c.cache_size ∧
      c'.rrset_l.length ≤ c.rrset_l.length + 1 ∧ cent'.FiledAt (some i) ∧
      (∀ j, j ≠ i → cent'.get j = cent.get j) ∧ cent'.flags = cent.flags ∧ cent'.cs = cent.cs ∧
      cent'.isNegative = false := by
  have hget' := cent.get_modify i (RrSet.adjustTtl env)
  rw [hget, Option.map_some] at hget'
  have hkey : (cent.modify i (RrSet.adjustTtl env)).qname.key = key := by
    rw [DnsCent.qname_modify, h.key hcent]
  have hedit : Edited key (cent.modify i (RrSet.adjustTtl env)) c
      (c.write (cent.modify i (RrSet.adjustTtl env))) :=
    ⟨by rw [← hkey, Cache.write], rfl, rfl, rfl⟩
  have hlinked := h.write hcent hkey
    ((h.accounted hcent).modify_same hget (RrSet.adjustTtl env) rrset.adjustTtl_rrs) fun idx ↦ by
      cases idx with
      | none =>
        cases hdomain : cent.domain <;> simp [DnsCent.lentAt, DnsCent.modify, hdomain]
      | some j =>
        rw [DnsCent.lentAt, hget', DnsCent.lentAt]
        by_cases hj : j = i
        · rw [hj, Function.update_self, hget, Option.any_some, Option.any_some,
            RrSet.adjustTtl_lent]
        · rw [Function.update_of_ne hj]
  rw [← hedit.heap] at hlinked
  obtain ⟨c', cent', hinsert, hlinked', hedit', hsize, hlength, hfiled, hothers, hflags, hcs, hneg⟩ :=
    Linked.insertRrl_set hlinked hedit.heap_self
      (show (cent.modify i (RrSet.adjustTtl env)).get i = some (rrset.adjustTtl env) by
        rw [hget', Function.update_self]) (rrset.adjustTtl_lent.trans hlent)
  refine ⟨c', cent', ?_, hlinked', hedit.trans hedit', hsize, hlength, hfiled, fun j hj ↦ ?_,
    hflags.trans (cent.flags_modify i _), hcs.trans (cent.cs_modify i _), hneg⟩
  · rw [Cache.fileRrset, hcent, Option.bind_some, hinsert]
  · rw [hothers j hj, hget', Function.update_of_ne hj]

end Insert

section Missing

variable {env : Env} {c : Cache} {key : Key} {cent cent' : DnsCent}

theorem DnsCent.filedAt_of_none {i : RrIndex} (hget : cent.get i = none) : cent.FiledAt (some i) := by
  rw [FiledAt, lentAt, hasAt, hget]
  rfl

/-- The loop of `add_cache` over the sets of a new entry. -/
theorem Linked.fileAll {a : RrArrays} {is : List RrIndex} (his : is.Nodup)
    (h : Linked env.sizes c.heap c.rrset_l) (hcent : c.heap key = some cent)
    (hneg : cent.isNegative = false)
    (hnew : ∀ i ∈ is, ∀ rrset, cent.get i = some rrset → rrset.lent = false)
    (hsome : ∀ i ∈ is, (a.get i).isSome = (cent.get i).isSome)
    (hfiled : ∀ j, j ∉ is → cent.FiledAt (some j)) :
    ∃ c' cent', is.foldlM (fun (c : Cache) i ↦
        if (a.get i).isSome = true then c.fileRrset env key i else some c) c = some c' ∧
      Linked env.sizes c'.heap c'.rrset_l ∧ Edited key cent' c c' ∧ c'.cache_size = c.cache_size ∧
      c'.rrset_l.length ≤ c.rrset_l.length + is.length ∧ (∀ idx, cent'.FiledAt idx) ∧
      cent'.cs = cent.cs := by
  induction is generalizing c cent with
  | nil =>
    refine ⟨c, cent, rfl, h, ⟨?_, rfl, rfl, rfl⟩, rfl, le_rfl, fun idx ↦ ?_, rfl⟩
    · rw [← hcent, Function.update_eq_self]
    · cases idx with
      | none => exact DnsCent.filedAt_none hneg
      | some j => exact hfiled j List.not_mem_nil
  | cons i is ih =>
    obtain ⟨hi, his⟩ := List.nodup_cons.mp his
    rw [List.foldlM_cons, hsome i List.mem_cons_self]
    cases hget : cent.get i with
    | none =>
      obtain ⟨c', cent', hfold, hrest⟩ := ih his h hcent hneg
        (fun j hj ↦ hnew j (List.mem_cons_of_mem i hj))
        (fun j hj ↦ hsome j (List.mem_cons_of_mem i hj)) fun j hj ↦ by
          by_cases hji : j = i
          · exact hji ▸ DnsCent.filedAt_of_none hget
          · exact hfiled j fun hmem ↦ (List.mem_cons.mp hmem).elim hji hj
      refine ⟨c', cent', hfold, hrest.1, hrest.2.1, hrest.2.2.1, ?_, hrest.2.2.2.2⟩
      exact hrest.2.2.2.1.trans (by rw [List.length_cons]; omega)
    | some rrset =>
      obtain ⟨c₁, cent₁, hfile, hlinked₁, hedit₁, hsize₁, hlength₁, hown, hothers, hflags, hcs,
        hneg₁⟩ := h.fileRrset hcent hget (hnew i List.mem_cons_self rrset hget)
      have hne : ∀ {j}, j ∈ is → j ≠ i := fun hj heq ↦ hi (heq ▸ hj)
      obtain ⟨c', cent', hfold, hlinked, hedit, hsize, hlength, hfiled', hcs'⟩ :=
        ih his hlinked₁ hedit₁.heap_self hneg₁
          (fun j hj rrset' hget' ↦ hnew j (List.mem_cons_of_mem i hj) rrset'
            (hothers j (hne hj) ▸ hget'))
          (fun j hj ↦ by rw [hothers j (hne hj), hsome j (List.mem_cons_of_mem i hj)])
          fun j hj ↦ by
            by_cases hji : j = i
            · exact hji ▸ hown
            · exact DnsCent.filedAt_congr (hothers j hji) (by rw [hflags])
                (hfiled j fun hmem ↦ (List.mem_cons.mp hmem).elim hji hj)
      refine ⟨c', cent', ?_, hlinked, hedit₁.trans hedit, hsize.trans hsize₁, ?_, hfiled',
        hcs'.trans hcs⟩
      · rw [Option.isSome_some, if_pos rfl, hfile]
        exact hfold
      · rw [List.length_cons]
        omega

theorem DnsCent.Accounted.of_neg {z : Sizes} (h : cent.Accounted z) {lent lent' : Bool}
    {ttl ts ttl' ts' : ℤ} (hdomain : cent.domain = .neg lent ttl ts)
    (hdomain' : cent'.domain = .neg lent' ttl' ts') (hqname : cent'.qname = cent.qname)
    (hcs : cent'.cs = cent.cs) (hnum : cent'.num_rrs = cent.num_rrs) : cent'.Accounted z := by
  have hget : cent'.get = cent.get := by
    rw [get_neg hdomain, get_neg hdomain']
  have harrays : cent'.arrays = cent.arrays := by
    rw [arrays, hdomain', arrays, hdomain]
  refine ⟨?_, by rw [hnum, hget, h.num_rrs]⟩
  rw [hcs, h.cs, size, size, hqname, harrays, hget]

/-- `insert_rrl` for a negative entry. -/
theorem Linked.insertRrl_neg (h : Linked env.sizes c.heap c.rrset_l) (hcent : c.heap key = some cent)
    {ttl ts : ℤ} (hdomain : cent.domain = .neg false ttl ts) :
    ∃ c' cent', c.insertRrl ⟨key, none⟩ = some c' ∧ Linked env.sizes c'.heap c'.rrset_l ∧
      Edited key cent' c c' ∧ c'.cache_size = c.cache_size ∧
      c'.rrset_l.length ≤ c.rrset_l.length + 1 ∧ (∀ idx, cent'.FiledAt idx) ∧
      cent'.cs = cent.cs := by
  have hnone : ∀ {cent : DnsCent} {lent ttl ts}, cent.domain = .neg lent ttl ts →
      ∀ i, cent.get i = none := fun hdomain i ↦ congrFun (DnsCent.get_neg hdomain) i
  have hlent : cent.lentAt none = false := by
    rw [DnsCent.lentAt, hdomain]
  have hhas : cent.hasAt none = true := by
    rw [DnsCent.hasAt, DnsCent.isNegative, hdomain]
  cases hlocal : cent.isLocalAt none with
  | true =>
    refine ⟨c, cent, Cache.insertRrl_local hcent hlocal, h, ⟨?_, rfl, rfl, rfl⟩, rfl,
      Nat.le_succ _, fun idx ↦ ?_, rfl⟩
    · rw [← hcent, Function.update_eq_self]
    · cases idx with
      | none => rw [DnsCent.FiledAt, hlent, hlocal, Bool.not_true, Bool.and_false]
      | some j => exact DnsCent.filedAt_of_none (hnone hdomain j)
  | false =>
    have hset : cent.setLent none = { cent with domain := .neg true ttl ts } := by
      simp only [DnsCent.setLent, hdomain]
    have hdomain' : (cent.setLent none).domain = .neg true ttl ts := by
      rw [hset]
    have hself : (cent.setLent none).lentAt none = true := by
      rw [DnsCent.lentAt, hdomain']
    obtain ⟨c', hinsert, hlinked, hedit, hsize, hlength⟩ := h.insertRrl hcent hhas hlent hlocal
      (by rw [hset]) ((h.accounted hcent).of_neg hdomain hdomain' (by rw [hset]) (by rw [hset])
        (by rw [hset])) hself fun idx hidx ↦ by
        cases idx with
        | none => exact absurd rfl hidx
        | some j => rw [DnsCent.lentAt, hnone hdomain' j, DnsCent.lentAt, hnone hdomain j]
    refine ⟨c', _, hinsert, hlinked, hedit, hsize, hlength.le, fun idx ↦ ?_, by rw [hset]⟩
    cases idx with
    | none =>
      have hlocal' : (cent.setLent none).isLocalAt none = false := by
        rw [hset]
        exact hlocal
      rw [DnsCent.FiledAt, hself, hlocal', DnsCent.hasAt, DnsCent.isNegative, hdomain']
      rfl
    | some j => exact DnsCent.filedAt_of_none (hnone hdomain' j)

theorem DnsCent.lentAt_copy (cent : DnsCent) (idx : Option RrIndex) :
    cent.copy.lentAt idx = false := by
  cases idx with
  | none => cases hdomain : cent.domain <;> simp [lentAt, copy, hdomain]
  | some i =>
    rw [lentAt, congrFun cent.get_copy i]
    cases cent.get i <;> rfl

theorem DnsCent.adjustDomTtl_spec {lent : Bool} {ttl ts : ℤ} (hdomain : cent.domain = .neg lent ttl ts) :
    ∃ ttl', (cent.adjustDomTtl env).domain = .neg lent ttl' ts ∧
      (cent.adjustDomTtl env).qname = cent.qname ∧ (cent.adjustDomTtl env).cs = cent.cs ∧
      (cent.adjustDomTtl env).num_rrs = cent.num_rrs := by
  rw [adjustDomTtl, hdomain]
  dsimp only
  split
  next => exact ⟨0, rfl, rfl, rfl, rfl⟩
  next => exact ⟨_, rfl, rfl, rfl, rfl⟩

theorem RrArrays.length_indices_le (a : RrArrays) : a.indices.length ≤ NRRTOT :=
  (List.length_filter_le _ _).trans (List.length_finRange).le

/-- A new entry with its elements of the list, before it is in the hash table. -/
theorem Cache.Sound.fileCent (h : c.Sound env) (haccounted : cent.Accounted env.sizes)
    (hnone : c.heap cent.qname.key = none) :
    ∃ c' cent', c.fileCent env cent = some c' ∧
      Linked env.sizes c'.heap c'.rrset_l ∧ Edited cent.qname.key cent' c c' ∧
      c'.cache_size = c.cache_size ∧ c'.rrset_l.length ≤ c.rrset_l.length + NRRTOT ∧
      (∀ idx, cent'.FiledAt idx) ∧ cent'.cs = cent.cs := by
  have hedit₀ : Edited cent.qname.key cent.copy c (c.write cent.copy) := ⟨rfl, rfl, rfl, rfl⟩
  have hlinked₀ : Linked env.sizes (c.write cent.copy).heap c.rrset_l := by
    refine h.linked.edit rfl haccounted.copy h.linked.nodup (fun _ _ ↦ Iff.rfl) fun idx ↦ ?_
    rw [DnsCent.lentAt_copy, h.linked.mem_iff]
    constructor
    · rintro ⟨cent', hcent', -⟩
      exact absurd (hnone.symm.trans hcent') (Option.some_ne_none cent').symm
    · exact fun hlent ↦ absurd hlent Bool.false_ne_true
  rw [Cache.fileCent]
  cases hdomain : cent.domain with
  | neg lent ttl ts =>
    have hcopy : cent.copy.domain = .neg false ttl ts := by
      rw [DnsCent.copy, hdomain]
    obtain ⟨ttl', hdomain', hqname, hcs, hnum⟩ := @DnsCent.adjustDomTtl_spec env _ _ _ _ hcopy
    have hedit₁ : Edited cent.qname.key (cent.copy.adjustDomTtl env) (c.write cent.copy)
        ((c.write cent.copy).write (cent.copy.adjustDomTtl env)) := by
      refine ⟨?_, rfl, rfl, rfl⟩
      rw [Cache.write, hqname]
      rfl
    have hlinked₁ := hlinked₀.write hedit₀.heap_self (by rw [hqname]; rfl)
      (haccounted.copy.of_neg hcopy hdomain' hqname hcs hnum) fun idx ↦ by
        cases idx with
        | none => rw [DnsCent.lentAt, hdomain', DnsCent.lentAt, hcopy]
        | some j =>
          rw [DnsCent.lentAt, DnsCent.get_neg hdomain', DnsCent.lentAt, DnsCent.get_neg hcopy]
    rw [← hedit₁.heap] at hlinked₁
    obtain ⟨c', cent', hinsert, hlinked, hedit, hsize, hlength, hfiled, hcs'⟩ :=
      Linked.insertRrl_neg hlinked₁ hedit₁.heap_self hdomain'
    refine ⟨c', cent', hinsert, hlinked, (hedit₀.trans hedit₁).trans hedit, hsize, ?_, hfiled,
      hcs'.trans hcs⟩
    exact hlength.trans (Nat.add_le_add_left (by decide) _)
  | rr a =>
    have hcopy : cent.copy.isNegative = false := by
      rw [DnsCent.isNegative, DnsCent.copy, hdomain]
    have hget : ∀ i, cent.copy.get i = (a.get i).map RrSet.copy := fun i ↦ by
      rw [congrFun cent.get_copy i, DnsCent.get_rr hdomain]
    obtain ⟨c', cent', hfold, hlinked, hedit, hsize, hlength, hfiled, hcs⟩ :=
      @Linked.fileAll env (c.write cent.copy) cent.qname.key cent.copy a a.indices
        RrArrays.nodup_indices hlinked₀ hedit₀.heap_self hcopy
        (fun i _ rrset hget' ↦ by
          rw [hget i] at hget'
          obtain ⟨rrset', -, rfl⟩ := Option.map_eq_some_iff.mp hget'
          rfl)
        (fun i _ ↦ by rw [hget i, Option.isSome_map])
        fun j hj ↦ DnsCent.filedAt_of_none (by
          rw [hget j, RrArrays.get_of_not_hasPlace fun hplace ↦ hj (RrArrays.mem_indices.mpr hplace),
            Option.map_none])
    exact ⟨c', cent', hfold, hlinked, hedit₀.trans hedit, hsize,
      hlength.trans (Nat.add_le_add_left a.length_indices_le _), hfiled, hcs⟩

/-- `add_cache` for a name that the cache does not have. -/
theorem Cache.Sound.addMissing (h : c.Sound env) (haccounted : cent.Accounted env.sizes)
    (hnone : c.heap cent.qname.key = none) :
    ∃ c', c.addMissing env cent = some c' ∧ c'.Sound env ∧
      c'.memory - c'.cache_size = c.memory - c.cache_size ∧
      c'.rrset_l.length ≤ c.rrset_l.length + NRRTOT := by
  rw [Cache.addMissing]
  split
  next => exact ⟨c, rfl, h, rfl, Nat.le_add_right _ _⟩
  next =>
    obtain ⟨c₁, cent₁, hfile, hlinked, hedit, hsize, hlength, hfiled, hcs⟩ :=
      h.fileCent haccounted hnone
    have hkey : cent.qname.key ∉ c.keys := by
      rw [h.mem_keys, hnone]
      exact Bool.false_ne_true
    have hlookup : (dnsLookup env.longBits id c.hash (id cent.qname).rhn).2 = none := by
      have hlookup := h.lookup_rhn cent.qname
      rw [hnone, Option.map_none, Cache.lookup, Option.map_eq_none_iff] at hlookup
      exact hlookup
    obtain ⟨hwf, hperm⟩ := h.hash.addDnsHash hlookup
    have hkeys : ((addDnsHash env.longBits id c.hash cent.qname).entries.map
        DomainName.key).toFinset = insert cent.qname.key c.keys := by
      rw [List.toFinset_eq_of_perm _ _ (hperm.map DomainName.key), List.map_cons, List.toFinset_cons]
      rfl
    refine ⟨{ c₁ with
        hash := addDnsHash env.longBits id c₁.hash cent.qname
        ent_num := c₁.ent_num + 1
        cache_size := c₁.cache_size + cent.cs }, ?_, ⟨hlinked, ?_, ?_, fun k ↦ ?_, ?_⟩, ?_, hlength⟩
    · rw [hfile, Option.map_some]
    · change Filed c₁.heap
      rw [hedit.heap]
      exact h.filed.update hfiled
    · change HashBuckets.WellFormed _ _ (addDnsHash env.longBits id c₁.hash cent.qname)
      rw [hedit.hash]
      exact hwf
    · change k ∈ ((addDnsHash env.longBits id c₁.hash cent.qname).entries.map
        DomainName.key).toFinset ↔ (c₁.heap k).isSome = true
      rw [hedit.hash, hkeys, Finset.mem_insert, h.mem_keys]
      by_cases hk : k = cent.qname.key
      · rw [hk, hedit.heap_self]
        simp
      · rw [hedit.heap_of_ne hk]
        exact or_iff_right hk
    · change c₁.ent_num + 1 = ((addDnsHash env.longBits id c₁.hash cent.qname).entries.map
        DomainName.key).toFinset.card
      rw [hedit.hash, hkeys, Finset.card_insert_of_notMem hkey, hedit.ent_num, h.ent_num,
        Nat.cast_add, Nat.cast_one]
    · have hmemory := @Cache.memory_add c { c₁ with
        hash := addDnsHash env.longBits id c₁.hash cent.qname
        ent_num := c₁.ent_num + 1
        cache_size := c₁.cache_size + cent.cs } cent.qname.key cent₁ hkey
        (by rw [Cache.keys]; dsimp only; rw [hedit.hash, hkeys])
        (fun k hk ↦ hedit.heap_of_ne hk) hedit.heap_self
      rw [hmemory, hcs]
      change c.memory + cent.cs - (c₁.cache_size + cent.cs) = _
      omega

end Missing

end Orbot.Pdnsd.DnsCache
