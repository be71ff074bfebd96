import Orbot.Foundation.MergeSort
import Orbot.Pdnsd.Cents
import Orbot.Pdnsd.NameHash

/-!
# The cache

The entries are found by the hash table of their names, and purged by a list of their sets in the
order of the time stamps. A pointer to an entry is its name in lower case, since an address could be
told from another one only by that; what is not allocated cannot be read or freed, and then there is
no result. Each operation runs while its thread has the lock, at one time.
-/

namespace Orbot.Pdnsd.DnsCache

/-- By how much the cache may be larger than the file. -/
def MCSZ : ℤ := 10240

/-- The platform, and the options of `global` that are used. -/
structure Env where
  sizes : Sizes
  longBits : ℕ
  perm_cache : ℤ
  min_ttl : ℤ
  max_ttl : ℤ
  neg_ttl : ℤ

abbrev Key := List Octets

/-- `rr_lent_t`: a set of an entry by its index, or a negative entry. -/
structure Lent where
  cent : Key
  idx : Option RrIndex
deriving DecidableEq

/-- The variables of the cache, and the allocated entries. -/
structure Cache where
  hash : HashBuckets DomainName
  heap : Key → Option DnsCent
  rrset_l : List Lent
  cache_size : ℤ
  ent_num : ℤ
  insert_sort : Bool

def Cache.start : Cache := ⟨mkDnsHash, fun _ ↦ none, [], 0, 0, true⟩

def Cache.write (c : Cache) (cent : DnsCent) : Cache :=
  { c with heap := Function.update c.heap cent.qname.key (some cent) }

/-- `remove_rrl`. -/
def Cache.removeRrl (c : Cache) (le : Lent) : Option Cache :=
  if le ∈ c.rrset_l then some { c with rrset_l := c.rrset_l.erase le } else none

/-- `remove_rrl`, if there is a pointer to the element. -/
def Cache.removeLent (c : Cache) (lent : Bool) (le : Lent) : Option Cache :=
  if lent = true then c.removeRrl le else some c

/-- `get_rrlent_ts`. -/
def Cache.lentTs (c : Cache) (le : Lent) : Option ℤ :=
  (c.heap le.cent).bind fun cent ↦
    match le.idx with
    | some i => (cent.get i).map RrSet.ts
    | none =>
        match cent.domain with
        | .neg _ _ ts => some ts
        | .rr _ => none

/-- The search of `insert_rrl` from the end of the list for the last element that is not younger. -/
def insertBack (tsOf : Lent → Option ℤ) (ne : Lent) (ts : ℤ) : List Lent → Option (List Lent)
  | [] => some [ne]
  | le :: rest => (tsOf le).bind fun t ↦
      if t ≤ ts then some (ne :: le :: rest) else (insertBack tsOf ne ts rest).map (le :: ·)

/-- The pointer from a set, or from a negative entry, to its element of the list. -/
def DnsCent.setLent (cent : DnsCent) (idx : Option RrIndex) : DnsCent :=
  match idx, cent.domain with
  | some i, .rr _ => cent.modify i fun rrset ↦ { rrset with lent := true }
  | none, .neg _ ttl ts => { cent with domain := .neg true ttl ts }
  | _, _ => cent

/-- Whether `insert_rrl` leaves out a set or an entry since it is local. -/
def DnsCent.isLocalAt (cent : DnsCent) (idx : Option RrIndex) : Bool :=
  (idx.bind cent.get).any (fun rrset ↦ rrset.flags.isLocal) || cent.flags.isLocal

/-- `insert_rrl`. -/
def Cache.insertRrl (c : Cache) (le : Lent) : Option Cache :=
  (c.heap le.cent).bind fun cent ↦
    if cent.isLocalAt le.idx = true then some c
    else
      (c.lentTs le).bind fun ts ↦
        (if c.insert_sort = true then
          (insertBack c.lentTs le ts c.rrset_l.reverse).map List.reverse
        else some (c.rrset_l ++ [le])).map fun l ↦
          { c with rrset_l := l }.write (cent.setLent le.idx)

/-- `sort_rrl`, with 32 slots. -/
def Cache.sortRrl (c : Cache) : Option Cache :=
  (c.rrset_l.mapM fun le ↦ (c.lentTs le).map fun ts ↦ (ts, le)).bind fun l ↦
    (slotSort Prod.fst 32 l).map fun sorted ↦ { c with rrset_l := sorted.map Prod.snd }

section Sets

variable (env : Env) (now : ℤ)

/-- The set is freed, and its place is empty. -/
def DnsCent.dropRrset (cent : DnsCent) (i : RrIndex) (rrset : RrSet) : DnsCent :=
  { cent with
    domain := .rr (cent.arrays.put i none)
    num_rrs := cent.num_rrs - 1
    cs := cent.cs - rrset.size env.sizes
    flags := { cent.flags with auth := false } }

/-- `del_cent_rrset_by_index`, with the size of the freed memory. -/
def Cache.delCentRrset (c : Cache) (key : Key) (i : RrIndex) : Option (Cache × ℤ) :=
  (c.heap key).bind fun cent ↦
    match cent.get i with
    | none => some (c, 0)
    | some rrset => (c.removeLent rrset.lent ⟨key, some i⟩).map fun c ↦
        (c.write (cent.dropRrset env i rrset), rrset.size env.sizes)

/-- `cache_size -= del_cent_rrset_by_index(cent, i)`. -/
def Cache.discardRrset (c : Cache) (key : Key) (i : RrIndex) : Option Cache :=
  (c.delCentRrset env key i).map fun ((c, size) : Cache × ℤ) ↦
    { c with cache_size := c.cache_size - size }

/-- `add_cent_rrset_by_index` for an entry of the cache. -/
def Cache.addCentRrset (c : Cache) (key : Key) (i : RrIndex) (ttl ts : ℤ) (flags : SetFlags) :
    Option Cache :=
  (c.heap key).bind fun cent ↦
    (match cent.domain with
      | .neg lent _ _ => c.removeLent lent ⟨key, none⟩
      | .rr _ => some c).map fun c : Cache ↦ c.write (cent.addRrset env.sizes i ttl ts flags)

/-- `free_cent`. -/
def Cache.freeCent (c : Cache) (key : Key) : Option Cache :=
  (c.heap key).bind fun cent ↦
    match cent.domain with
    | .neg lent _ _ => c.removeLent lent ⟨key, none⟩
    | .rr a => a.indices.foldlM (fun c i ↦
        match a.get i with
        | none => some c
        | some rrset => c.removeLent rrset.lent ⟨key, some i⟩) c

/-- `del_cent`. -/
def Cache.delCent (c : Cache) (key : Key) : Option Cache :=
  (c.heap key).bind fun cent ↦
    (Cache.freeCent { c with cache_size := c.cache_size - cent.cs } key).map fun c ↦
      { c with heap := Function.update c.heap key none, ent_num := c.ent_num - 1 }

/-- `del_cache_ent`. A location that is given is the one of the name. -/
def Cache.delCacheEnt (c : Cache) (key : Key) : Option Cache :=
  (c.heap key).bind fun cent ↦
    { c with hash := (delDnsHash env.longBits id c.hash cent.qname.rhn).1 }.delCent key

/-- Whether `purge_rrset` deletes a set. -/
def RrSet.expired (rrset : RrSet) : Bool :=
  !(rrset.flags.nopurge || rrset.flags.isLocal) && rrset.timedout now

/-- `purge_rrset`, which deletes the set of an entry of the cache. -/
def Cache.purgeRrset (c : Cache) (key : Key) (i : RrIndex) : Option Cache :=
  (c.heap key).bind fun cent ↦
    if (cent.get i).any (RrSet.expired now) = true then c.discardRrset env key i else some c

/-- What `purge_all_rrsets` counts in its loop. -/
structure Purged where
  cache : Cache
  rv : ℤ
  numrrs : ℕ
  numrrext : ℕ

/-- A set in the loop of `purge_all_rrsets`. -/
def Purged.visit (test : Bool) (key : Key) (p : Purged) (i : RrIndex) : Option Purged :=
  (p.cache.heap key).bind fun cent ↦
    match cent.get i with
    | none => some p
    | some rrset =>
        if rrset.expired now = true then
          (if test = true then some p.cache else p.cache.discardRrset env key i).map fun c ↦
            { p with cache := c, rv := p.rv + 1 }
        else
          some { p with
            numrrs := p.numrrs + 1
            numrrext := p.numrrext + if NRRMU ≤ i.val then 1 else 0 }

/-- `purge_all_rrsets`. -/
def Cache.purgeAllRrsets (c : Cache) (key : Key) (test : Bool) : Option Purged :=
  (c.heap key).bind fun cent ↦
    (cent.indices.foldlM (Purged.visit env now test key) ⟨c, 0, 0, 0⟩).bind fun p ↦
      (p.cache.heap key).map fun cent ↦
        if cent.arrays.rrext = true ∧ p.numrrext = 0 then
          { p with
            rv := p.rv + 1
            cache :=
              if test = true then p.cache
              else
                { p.cache with
                  cache_size := p.cache.cache_size - cent.arrays.extSize env.sizes }.write
                  { cent with
                    domain := .rr { cent.arrays with rrext := false }
                    cs := cent.cs - cent.arrays.extSize env.sizes } }
        else p

/-- `dns_lookup`, which reads the names of entries only. -/
def Cache.lookup (c : Cache) (name : Octets) : Option Key :=
  (dnsLookup env.longBits id c.hash name).2.map DomainName.key

/-- The indices of `getrrset_NS` and `getrrset_SOA`. -/
def RRMUINDEX_NS : RrIndex := ⟨1, by decide⟩
def RRMUINDEX_SOA : RrIndex := ⟨3, by decide⟩

/-- Whether the entry that `c_ns` or `c_soa` refers to has no such records any more. -/
def Cache.staleRef (c : Cache) (cent : DnsCent) (ref : ℕ) (i : RrIndex) : Option Bool :=
  let scnt := rhnsegcnt cent.qname.rhn
  let rrset : Option (Option RrSet) :=
    if ref = scnt then some (cent.get i)
    else if ref < scnt then
      match c.lookup env (skipsegs cent.qname.rhn (scnt - ref)) with
      | none => some none
      | some key => (c.heap key).map fun ce ↦ ce.get i
    else some none
  rrset.map fun rrset ↦
    !rrset.any fun rrset ↦
      !rrset.rrs.isEmpty && (rrset.flags.isLocal || !rrset.timedout now)

/-- The end of `purge_cent`: one of the references. -/
def Cache.purgeRef (c : Cache) (key : Key) (ref : DnsCent → ℕ) (clear : DnsCent → DnsCent)
    (i : RrIndex) (test : Bool) (npurge : ℤ) : Option (Cache × ℤ) :=
  (c.heap key).bind fun cent ↦
    if ref cent = cundef then some (c, npurge)
    else (c.staleRef env now cent (ref cent) i).map fun stale ↦
      if stale = true then (if test = true then c else c.write (clear cent), npurge + 1)
      else (c, npurge)

/-- `purge_cent`. -/
def Cache.purgeCent (c : Cache) (key : Key) (delete test : Bool) : Option (Cache × ℤ) :=
  (c.purgeAllRrsets env now key test).bind fun p ↦
    (p.cache.heap key).bind fun cent ↦
      if delete = true ∧ p.numrrs = 0 ∧
          (cent.isNegative = false ∨ cent.flags.isLocal = false ∧ cent.timedoutNxdom now = true) then
        (if test = true then some p.cache else p.cache.delCacheEnt env key).map fun c ↦ (c, -1)
      else if cent.flags.isLocal = true then some (p.cache, p.rv)
      else
        (p.cache.purgeRef env now key DnsCent.c_ns (fun cent ↦ { cent with c_ns := cundef })
          RRMUINDEX_NS test p.rv).bind fun (c, npurge) ↦
            c.purgeRef env now key DnsCent.c_soa (fun cent ↦ { cent with c_soa := cundef })
              RRMUINDEX_SOA test npurge

end Sets

section Purge

variable (env : Env) (now : ℤ)

/-- A walk over the list that saves the next element before it visits one, which is valid as long as
the elements are in the list. -/
def walkRrl (stop : Cache → Bool) (visit : Lent → Cache → Option Cache) :
    List Lent → Cache → Option Cache
  | [], c => some c
  | le :: next, c =>
      if stop c = true then some c
      else if (le :: next) <:+ c.rrset_l then (visit le c).bind (walkRrl stop visit next)
      else none

/-- The first walk of `purge_cache`: what has timed out is deleted. -/
def Cache.purgeVisit (le : Lent) (c : Cache) : Option Cache :=
  (c.heap le.cent).bind fun cent ↦
    if cent.isLocalAt le.idx = true then some c
    else
      (match le.idx with
        | some i => c.purgeRrset env now le.cent i
        | none => some c).bind fun c : Cache ↦
          (c.heap le.cent).bind fun ce ↦
            if ce.num_rrs = 0 ∧
                (ce.isNegative = false ∨ ce.flags.isLocal = false ∧ ce.timedoutNxdom now = true)
            then c.delCacheEnt env le.cent else some c

/-- The second walk: the oldest sets are deleted. -/
def Cache.evictVisit (le : Lent) (c : Cache) : Option Cache :=
  (c.heap le.cent).bind fun cent ↦
    if cent.isLocalAt le.idx = true then some c
    else
      (match le.idx with
        | some i => c.discardRrset env le.cent i
        | none => some c).bind fun c : Cache ↦
          (c.heap le.cent).bind fun ce ↦
            if ce.num_rrs = 0 then c.delCacheEnt env le.cent else some c

/-- `purge_cache`. -/
def Cache.purgeCache (c : Cache) (sz : ℤ) (lazy : Bool) : Option Cache :=
  (walkRrl (fun c ↦ lazy && decide (c.cache_size ≤ sz)) (Cache.purgeVisit env now) c.rrset_l c).bind
    fun c ↦
      if c.cache_size ≤ sz then some c
      else
        (if c.insert_sort = true then some c
          else c.sortRrl.map fun c ↦ { c with insert_sort := true }).bind fun c : Cache ↦
            walkRrl (fun c ↦ decide (c.cache_size ≤ sz)) (Cache.evictVisit env) c.rrset_l c

end Purge

end Orbot.Pdnsd.DnsCache
