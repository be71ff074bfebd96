import Orbot.Pdnsd.CacheLinks

/-!
# Consistent states of the cache

The hash table has the names of the entries, and the counters of the cache say how many entries there
are and how much memory they take. What the purging functions have in common is that they only remove
sets and entries, and no local sets.
-/

namespace Orbot.Pdnsd.DnsCache

/-- The names in the hash table. -/
def Cache.keys (c : Cache) : Finset Key := (c.hash.entries.map DomainName.key).toFinset

def memoryOf (place : Option DnsCent) : ℤ := (place.map DnsCent.cs).getD 0

/-- The memory of the entries in the hash table. -/
def Cache.memory (c : Cache) : ℤ := ∑ key ∈ c.keys, memoryOf (c.heap key)

/-- A consistent state, but for `cache_size`. -/
structure Cache.Sound (env : Env) (c : Cache) : Prop where
  linked : Linked env.sizes c.heap c.rrset_l
  filed : Filed c.heap
  hash : c.hash.WellFormed env.longBits id
  mem_keys : ∀ key, key ∈ c.keys ↔ (c.heap key).isSome = true
  ent_num : c.ent_num = c.keys.card

/-- What is left of an entry. -/
structure DnsCent.From (cent' cent : DnsCent) : Prop where
  qname : cent'.qname = cent.qname
  isLocal : cent'.flags.isLocal = cent.flags.isLocal
  neg : ∀ lent ttl ts, cent'.domain = .neg lent ttl ts ↔ cent.domain = .neg lent ttl ts
  get : ∀ {i rrset}, cent'.get i = some rrset → cent.get i = some rrset

/-- Sets and entries are removed, but no local sets, and `cache_size` follows. -/
structure Shrinks (c c' : Cache) : Prop where
  slack : c'.memory - c'.cache_size = c.memory - c.cache_size
  size_le : c'.cache_size ≤ c.cache_size
  subperm : c'.rrset_l.Subperm c.rrset_l
  entry : ∀ {key cent'}, c'.heap key = some cent' → ∃ cent, c.heap key = some cent ∧ cent'.From cent
  kept : ∀ {key cent i rrset}, c.heap key = some cent → cent.get i = some rrset →
    rrset.flags.isLocal = true → ∃ cent', c'.heap key = some cent' ∧ cent'.get i = some rrset

section Shrinking

variable {c c' c'' : Cache} {cent cent' cent'' : DnsCent}

theorem DnsCent.From.refl (cent : DnsCent) : cent.From cent :=
  ⟨rfl, rfl, fun _ _ _ ↦ Iff.rfl, id⟩

theorem DnsCent.From.trans (h : cent''.From cent') (h' : cent'.From cent) : cent''.From cent :=
  ⟨h.qname.trans h'.qname, h.isLocal.trans h'.isLocal,
    fun lent ttl ts ↦ (h.neg lent ttl ts).trans (h'.neg lent ttl ts), fun hget ↦ h'.get (h.get hget)⟩

theorem Shrinks.refl (c : Cache) : Shrinks c c :=
  ⟨rfl, le_rfl, List.Subperm.refl _, fun {_ cent} hcent ↦ ⟨cent, hcent, .refl cent⟩,
    fun {_ cent _ _} hcent hget _ ↦ ⟨cent, hcent, hget⟩⟩

theorem Shrinks.trans (h : Shrinks c c') (h' : Shrinks c' c'') : Shrinks c c'' := by
  refine ⟨h'.slack.trans h.slack, h'.size_le.trans h.size_le, h'.subperm.trans h.subperm,
    fun hcent ↦ ?_, fun hcent hget hlocal ↦ ?_⟩
  · obtain ⟨cent', hcent', hfrom'⟩ := h'.entry hcent
    obtain ⟨cent, hcent, hfrom⟩ := h.entry hcent'
    exact ⟨cent, hcent, hfrom'.trans hfrom⟩
  · obtain ⟨cent', hcent', hget'⟩ := h.kept hcent hget hlocal
    exact h'.kept hcent' hget' hlocal

end Shrinking

section Memory

variable {env : Env} {c c' : Cache} {key : Key} {cent cent' : DnsCent}

theorem Cache.memory_update (hkeys : c'.keys = c.keys)
    (hheap : c'.heap = Function.update c.heap key (some cent')) (hkey : key ∈ c.keys)
    (hcent : c.heap key = some cent) : c'.memory = c.memory - cent.cs + cent'.cs := by
  have hsum := sum_update_add memoryOf c.heap hkey (some cent')
  rw [hcent] at hsum
  simp only [memoryOf, Option.map_some, Option.getD_some] at hsum
  rw [memory, hkeys, hheap, memory]
  simp only [memoryOf]
  omega

theorem Cache.memory_free (hkeys : c'.keys = c.keys.erase key)
    (hheap : c'.heap = Function.update c.heap key none) (hkey : key ∈ c.keys)
    (hcent : c.heap key = some cent) : c'.memory = c.memory - cent.cs := by
  have hrest : ∑ k ∈ c.keys.erase key, memoryOf (Function.update c.heap key none k) =
      ∑ k ∈ c.keys.erase key, memoryOf (c.heap k) := by
    refine Finset.sum_congr rfl fun k hk ↦ ?_
    rw [Function.update_of_ne (Finset.ne_of_mem_erase hk)]
  have hsum := Finset.add_sum_erase c.keys (fun k ↦ memoryOf (c.heap k)) hkey
  rw [hcent] at hsum
  simp only [memoryOf, Option.map_some, Option.getD_some] at hsum hrest
  rw [memory, hkeys, hheap, memory]
  simp only [memoryOf]
  omega

theorem Cache.memory_add (hkey : key ∉ c.keys) (hkeys : c'.keys = insert key c.keys)
    (hheap : ∀ k, k ≠ key → c'.heap k = c.heap k) (hcent : c'.heap key = some cent) :
    c'.memory = c.memory + cent.cs := by
  have hrest : ∑ k ∈ c.keys, memoryOf (c'.heap k) = ∑ k ∈ c.keys, memoryOf (c.heap k) := by
    refine Finset.sum_congr rfl fun k hk ↦ ?_
    rw [hheap k fun heq ↦ hkey (heq ▸ hk)]
  rw [memory, hkeys, Finset.sum_insert hkey, hcent, hrest, memory, add_comm]
  rfl

end Memory

section Lookup

variable {env : Env} {c : Cache} {key : Key} {cent : DnsCent} {name : Octets}

theorem Cache.mem_keys_of_entries {name : DomainName} (h : name ∈ c.hash.entries) :
    name.key ∈ c.keys :=
  List.mem_toFinset.mpr (List.mem_map_of_mem h)

/-- Whatever is looked up, an entry that is found is allocated. -/
theorem Cache.Sound.lookup_heap (h : c.Sound env) (hlookup : c.lookup env name = some key) :
    ∃ cent, c.heap key = some cent := by
  obtain ⟨qname, hfound, rfl⟩ := Option.map_eq_some_iff.mp hlookup
  exact Option.isSome_iff_exists.mp
    ((h.mem_keys qname.key).mp (mem_keys_of_entries (dnsLookup_mem hfound)))

theorem Cache.Sound.lookup_rhn (h : c.Sound env) (name : DomainName) :
    c.lookup env name.rhn = (c.heap name.key).map fun _ ↦ name.key := by
  cases hlookup : (dnsLookup env.longBits id c.hash name.rhn).2 with
  | none =>
    have hnone := (h.hash.lookup_eq_none name).mp hlookup
    have hkey : name.key ∉ c.keys := by
      intro hmem
      obtain ⟨qname, hqname, heq⟩ := List.mem_map.mp (List.mem_toFinset.mp hmem)
      exact hnone qname hqname heq
    have hheap : c.heap name.key = none := by
      rw [h.mem_keys, Bool.not_eq_true, Option.isSome_eq_false_iff, Option.isNone_iff_eq_none] at hkey
      exact hkey
    rw [lookup, hlookup, hheap]
    rfl
  | some qname =>
    obtain ⟨hmem, heq⟩ := (h.hash.lookup_eq_some name).mp hlookup
    have heq : qname.key = name.key := heq
    have hkey := mem_keys_of_entries hmem
    rw [heq, h.mem_keys] at hkey
    obtain ⟨cent, hcent⟩ := Option.isSome_iff_exists.mp hkey
    rw [lookup, hlookup, hcent, Option.map_some, Option.map_some, heq]

/-- `del_dns_hash`, in terms of the names. -/
theorem Cache.Sound.delDnsHash (h : c.Sound env) (name : DomainName) :
    (delDnsHash env.longBits id c.hash name.rhn).1.WellFormed env.longBits id ∧
      ((delDnsHash env.longBits id c.hash name.rhn).1.entries.map DomainName.key).toFinset =
        c.keys.erase name.key ∧
      (delDnsHash env.longBits id c.hash name.rhn).2.map DomainName.key =
        (c.heap name.key).map fun _ ↦ name.key := by
  obtain ⟨hwf, hfound, hrest⟩ := h.hash.delDnsHash name
  refine ⟨hwf, ?_, ?_⟩
  · cases hdel : (Pdnsd.delDnsHash env.longBits id c.hash name.rhn).2 with
    | none =>
      rw [hdel] at hrest hfound
      have hrest : (Pdnsd.delDnsHash env.longBits id c.hash name.rhn).1 = c.hash := hrest
      have hkey : name.key ∉ c.keys := by
        intro hmem
        obtain ⟨qname, hqname, heq⟩ := List.mem_map.mp (List.mem_toFinset.mp hmem)
        exact (h.hash.lookup_eq_none name).mp hfound.symm qname hqname heq
      rw [hrest, Finset.erase_eq_of_notMem hkey]
      rfl
    | some data =>
      rw [hdel] at hrest hfound
      have hperm : c.hash.entries.Perm
          (data :: (Pdnsd.delDnsHash env.longBits id c.hash name.rhn).1.entries) := hrest
      have hkey : data.key = name.key := ((h.hash.lookup_eq_some name).mp hfound.symm).2
      have hnodup := h.hash.nodup_entries
      rw [(hperm.map _).nodup_iff, List.map_cons, List.nodup_cons] at hnodup
      have hkeys : c.keys = insert data.key
          (((Pdnsd.delDnsHash env.longBits id c.hash name.rhn).1.entries.map
            DomainName.key).toFinset) := by
        rw [Cache.keys, ← List.toFinset_cons, ← List.map_cons]
        exact List.toFinset_eq_of_perm _ _ (hperm.map _)
      rw [hkeys, hkey, ← hkey, Finset.erase_insert]
      exact fun hmem ↦ hnodup.1 (List.mem_toFinset.mp hmem)
  · rw [hfound]
    exact h.lookup_rhn name

end Lookup

end Orbot.Pdnsd.DnsCache
