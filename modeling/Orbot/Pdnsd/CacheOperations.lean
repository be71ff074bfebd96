import Orbot.Pdnsd.CacheStore
import Orbot.Pdnsd.Compression

/-!
# The operations on the cache

The functions that other modules call while they do not hold the lock, or the parts of them for which
they hold it. No allocation fails.
-/

namespace Orbot.Pdnsd.DnsCache

/-- `struct rr_infos`. -/
structure RrInfos where
  class_ : ℕ
  excludes : ℕ

def RRCL_ALIAS : ℕ := 1
def RRCL_RECORD : ℕ := 2
def RRCL_IDEM : ℕ := 4
def RRCL_PTR : ℕ := 8

def RRX_ALIAS : ℕ := RRCL_RECORD ||| RRCL_PTR
def RRX_RECORD : ℕ := RRCL_ALIAS ||| RRCL_PTR
def RRX_IDEM : ℕ := 0
def RRX_PTR : ℕ := RRCL_ALIAS ||| RRCL_RECORD

/-- `rr_info`, with runs of equal rows put together. -/
def rrInfo (i : RrIndex) : RrInfos :=
  if i.val = 2 then ⟨RRCL_ALIAS, RRX_ALIAS⟩
  else if i.val = 4 ∨ i.val = 23 then ⟨RRCL_PTR, RRX_PTR⟩
  else if i.val ∈ [0, 7, 14, 15, 27, 28] ∨ 17 ≤ i.val ∧ i.val ≤ 22 ∨ 30 ≤ i.val ∧ i.val ≤ 36 then
    ⟨RRCL_RECORD, RRX_RECORD⟩
  else ⟨RRCL_IDEM, RRX_IDEM⟩

/-- The check of both ways. -/
def Conflict (i j : RrIndex) : Prop :=
  (rrInfo i).class_ &&& (rrInfo j).excludes ≠ 0 ∨ (rrInfo i).excludes &&& (rrInfo j).class_ ≠ 0

instance (i j : RrIndex) : Decidable (Conflict i j) := inferInstanceAs (Decidable (_ ∨ _))

section Updates

variable (env : Env) (now : ℤ)

/-- The indices of the sets that conflict with one. -/
def DnsCent.conflicts (cent : DnsCent) (idx : RrIndex) : List RrIndex :=
  cent.indices.filter fun i ↦
    (cent.get i).any (fun rrs ↦ !rrs.flags.isNegative) && decide (Conflict idx i)

/-- The mean of what is left of the time to live of some sets. -/
def DnsCent.meanTtl (cent : DnsCent) (sets : List RrIndex) : ℤ :=
  (sets.map fun i ↦ ((cent.get i).map fun rrs ↦ max 0 (rrs.ttl + rrs.ts - now)).getD 0).sum /
    sets.length

/-- `cr_check_add`. -/
def Cache.crCheckAdd (c : Cache) (key : Key) (idx : RrIndex) (ttl : ℤ) (flags : SetFlags) :
    Option (Cache × Bool) :=
  (c.heap key).bind fun cent ↦
    let sets := cent.conflicts idx
    let remove : Option (Cache × Bool) :=
      (sets.foldlM (fun (c : Cache) i ↦ (c.delCentRrset env key i).map Prod.fst) c).map (·, true)
    if flags.isNegative = true then some (c, true)
    else if flags.isLocal = true then remove
    else if cent.flags.isLocal = true ∨
        sets.any (fun i ↦ (cent.get i).any fun rrs ↦ rrs.flags.isLocal) = true then some (c, false)
    else if sets = [] then some (c, true)
    else if cent.meanTtl now sets < ttl then remove
    else some (c, false)

/-- The bounds for a time to live that `adjust_ttl` and `adjust_dom_ttl` share. -/
def Env.adjusted (negative : Bool) (ttl : ℤ) : ℤ :=
  let min_ttl := if negative = true ∧ env.neg_ttl < env.min_ttl then env.neg_ttl else env.min_ttl
  if ttl < min_ttl then min_ttl else if env.max_ttl < ttl then env.max_ttl else ttl

/-- `adjust_ttl`. -/
def RrSet.adjustTtl (rrset : RrSet) : RrSet :=
  if rrset.flags.nocache = true then
    { rrset with flags := { rrset.flags with nocache := false }, ttl := 0 }
  else { rrset with ttl := env.adjusted rrset.flags.isNegative rrset.ttl }

/-- `adjust_dom_ttl`. -/
def DnsCent.adjustDomTtl (cent : DnsCent) : DnsCent :=
  match cent.domain with
  | .neg lent ttl ts =>
      if cent.flags.nocache = true then
        { cent with flags := { cent.flags with nocache := false }, domain := .neg lent 0 ts }
      else { cent with domain := .neg lent (env.adjusted true ttl) ts }
  | .rr _ => cent

/-- A new set gets its time to live and its place in the list. -/
def Cache.fileRrset (c : Cache) (key : Key) (i : RrIndex) : Option Cache :=
  (c.heap key).bind fun ce ↦ (c.write (ce.modify i (RrSet.adjustTtl env))).insertRrl ⟨key, some i⟩

/-- A copy of a new entry, with its places in the list. -/
def Cache.fileCent (c : Cache) (cent : DnsCent) : Option Cache :=
  let key := cent.qname.key
  let c := c.write cent.copy
  match cent.domain with
  | .rr a => a.indices.foldlM (fun (c : Cache) i ↦
      if (a.get i).isSome = true then c.fileRrset env key i else some c) c
  | .neg .. => (c.write (cent.copy.adjustDomTtl env)).insertRrl ⟨key, none⟩

/-- `add_cache` for a name that the cache does not have, to the counters. -/
def Cache.addMissing (c : Cache) (cent : DnsCent) : Option Cache :=
  if cent.num_rrs = 0 ∧ cent.isNegative = false then some c
  else
    (c.fileCent env cent).map fun c : Cache ↦
      { c with
        hash := addDnsHash env.longBits id c.hash cent.qname
        ent_num := c.ent_num + 1
        cache_size := c.cache_size + cent.cs }

/-- Whether a set of the cache stays when a new one comes. -/
def RrSet.precedes (cerrs centrrs : RrSet) : Bool :=
  !centrrs.flags.isLocal && cerrs.flags.isLocal ||
    centrrs.flags.additional &&
      (!cerrs.flags.additional || !centrrs.flags.rootserv && cerrs.flags.rootserv) &&
      !cerrs.timedout now

/-- A new set in the loop of `add_cache` over the sets of the new entry. -/
def Cache.addRrset (key : Key) (c : Cache) (new : RrIndex × RrSet) : Option Cache :=
  let (i, centrrs) := new
  (c.heap key).bind fun ce ↦
    if (ce.get i).any (fun cerrs ↦ cerrs.precedes now centrrs) = true then some c
    else
      (c.delCentRrset env key i).bind fun (c, _) ↦
        (c.crCheckAdd env now key i centrrs.ttl centrrs.flags).bind fun (c, ok) ↦
          if ok = true then
            (c.addCentRrset env key i centrrs.ttl centrrs.ts centrrs.flags).bind fun c ↦
              (c.heap key).bind fun ce ↦
                (c.write (centrrs.rrs.foldl (fun ce data ↦
                  ce.addRrInt env.sizes i centrrs.ttl centrrs.ts centrrs.flags data) ce)).fileRrset
                    env key i
          else some c

/-- The sets of an entry, in the order of the loops. -/
def DnsCent.rrsets (cent : DnsCent) : List (RrIndex × RrSet) :=
  cent.indices.filterMap fun i ↦ (cent.get i).map (i, ·)

/-- What an entry gets from a new one besides the sets. -/
def DnsCent.merge (ce cent : DnsCent) : DnsCent :=
  let newer (new old : ℕ) : ℕ := if new ≠ cundef ∧ (old = cundef ∨ old < new) then new else old
  { ce with
    flags := { ce.flags with
      auth := ce.flags.auth || cent.flags.auth
      wild := ce.flags.wild || cent.flags.wild }
    c_ns := newer cent.c_ns ce.c_ns
    c_soa := newer cent.c_soa ce.c_soa }

/-- `add_cache` for a name that the cache has. -/
def Cache.addPresent (c : Cache) (key : Key) (cent : DnsCent) : Option Cache :=
  (c.purgeCent env now key false false).bind fun (c, _) ↦
    (c.heap key).bind fun ce ↦
      (cent.rrsets.foldlM (Cache.addRrset env now key)
        { c with cache_size := c.cache_size - ce.cs }).bind fun c ↦
          (c.heap key).map fun ce ↦
            { c.write (ce.merge cent) with cache_size := c.cache_size + ce.cs }

/-- `add_cache` to where the cache is purged, if it is purged, after so many tries. -/
def Cache.addTries (cent : DnsCent) : ℕ → Cache → Option (Cache × Bool)
  | 0, _ => none
  | tries + 1, c =>
      match c.lookup env cent.qname.rhn with
      | none => (c.addMissing env cent).map (·, true)
      | some key =>
          if cent.isNegative = true then
            (c.heap key).bind fun ce ↦
              if ce.indices.any (fun i ↦ (ce.get i).any fun cerrs ↦ cerrs.flags.isLocal) = true then
                some (c, false)
              else (c.delCacheEnt env key).bind (Cache.addTries cent tries)
          else (c.addPresent env now key cent).map (·, true)

/-- By how much the cache may grow before it is purged. -/
def Env.limit : ℤ := env.perm_cache * 1024 + MCSZ

/-- `add_cache`, which tries a second time when it has deleted an entry. Its allocations succeed: the
exits to `warn_unlock_cache_return`, which leave the cache without a purge, are not taken. -/
def Cache.addCache (c : Cache) (cent : DnsCent) : Option Cache :=
  (Cache.addTries env now cent 2 c).bind fun (c, purge) ↦
    if purge = true then c.purgeCache env now env.limit true else some c

/-- `del_cache`. -/
def Cache.delCache (c : Cache) (name : DomainName) : Option Cache :=
  match delDnsHash env.longBits id c.hash name.rhn with
  | (hash, some qname) => Cache.delCent { c with hash := hash } qname.key
  | (_, none) => some c

/-- The change of an entry by `invalidate_record`. -/
def DnsCent.invalidate (cent : DnsCent) : DnsCent :=
  { cent with
    domain := match cent.domain with
      | .neg lent ttl _ => .neg lent ttl 0
      | .rr a =>
          .rr { a with
            sets := fun i ↦ (a.get i).map fun rrs ↦
              { rrs with ts := 0, flags := { rrs.flags with auth := false } } }
    flags := { cent.flags with auth := false } }

/-- The entry that is found is changed in place. -/
def Cache.modifyCent (c : Cache) (name : DomainName) (f : DnsCent → DnsCent) : Option Cache :=
  match c.lookup env name.rhn with
  | none => some c
  | some key => (c.heap key).map fun ce ↦ c.write (f ce)

/-- `invalidate_record`. -/
def Cache.invalidateRecord (c : Cache) (name : DomainName) : Option Cache :=
  c.modifyCent env name DnsCent.invalidate

/-- `set_cent_flags` with `DF_WILD`, the flag that its callers set. -/
def Cache.setCentWild (c : Cache) (name : DomainName) : Option Cache :=
  c.modifyCent env name fun ce ↦ { ce with flags := { ce.flags with wild := true } }

/-- `slist_t`. -/
structure SlistElem where
  domain : DomainName
  exact : Bool
  rule : Bool

/-- The decision of `free_dns_hash_selected`: the first element that matches a name decides. Names are
short enough for the assertions of `domain_match`. -/
def selected (name : DomainName) : List SlistElem → Bool
  | [] => false
  | sl :: sla =>
      if (domainMatch name.rhn sl.domain.rhn).any (fun m ↦
          m.offd == 0 && (!sl.exact || m.offs == 0)) = true then sl.rule
      else selected name sla

/-- The entries of a chain that are selected are freed. -/
def Cache.freeChain (c : Cache) (i : Fin HASH_NUM_BUCKETS) (select : DomainName → Bool) :
    Option Cache :=
  ((c.hash i).filter fun he ↦ select he.data).foldlM (fun c he ↦ c.delCent he.data.key)
    { c with hash := Function.update c.hash i ((c.hash i).filter fun he ↦ !select he.data) }

/-- `free_dns_hash_bucket` or `free_dns_hash_selected`, between which `empty_cache` chooses. -/
def Cache.freeDnsHash (c : Cache) (i : Fin HASH_NUM_BUCKETS) (sla : Option (List SlistElem)) :
    Option Cache :=
  c.freeChain i fun name ↦ sla.all (selected name)

/-- The list is not sorted while `read_disk_cache` adds entries. -/
def Cache.beginReading (c : Cache) : Cache := { c with insert_sort := false }

/-- The end of `read_disk_cache`. -/
def Cache.endReading (c : Cache) : Option Cache :=
  if c.insert_sort = true then some c
  else c.sortRrl.map fun c : Cache ↦ { c with insert_sort := true }

/-- What `write_disk_cache` does to the cache before it writes it. -/
def Cache.purgeToFile (c : Cache) : Option Cache :=
  c.purgeCache env now (env.perm_cache * 1024) false

end Updates

section Lookups

variable (env : Env) (now : ℤ)

/-- The values of `*wild`. -/
inductive Wildcard where
  | no
  | wild
  | neg
  | locnerr
deriving DecidableEq

/-- The loop of `lookup_cache` over the names above a name. -/
def Cache.searchAbove (c : Cache) : List Octets → Option (Option Key × Wildcard)
  | [] => some (none, .no)
  | label :: labels =>
      match c.lookup env (encode (label :: labels)) with
      | none => c.searchAbove labels
      | some key => (c.heap key).map fun ret ↦
          if ret.isNegative = true then (some key, .neg)
          else if ret.flags.wild = true then
            match c.lookup env (encode ([42] :: label :: labels)) with
            | none => (none, .no)
            | some key => (some key, .wild)
          else if ret.flags.isLocal = true then (some key, .locnerr)
          else (none, .no)

/-- The search of `lookup_cache` for an entry, above the name too if there is a place for `*wild`. -/
def Cache.findCent (c : Cache) (name : DomainName) (wild : Bool) :
    Option (Option Key × Wildcard) :=
  match c.lookup env name.rhn with
  | some key => some (some key, .no)
  | none => if wild = true then c.searchAbove env name.labels.tail else some (none, .no)

/-- `lookup_cache` with read access, without a result if something must be deleted first. -/
def Cache.lookupCacheR (c : Cache) (name : DomainName) (wild : Bool) :
    Option (Option (Option DnsCent × Wildcard)) :=
  (c.findCent env name wild).bind fun
    | (none, w) => some (some (none, w))
    | (some key, w) => (c.purgeCent env now key true true).bind fun (c, purge) ↦
        if purge = 0 then (c.heap key).map fun ret ↦ some (some ret.copy, w) else some none

/-- `lookup_cache` with read and write access. -/
def Cache.lookupCacheRw (c : Cache) (name : DomainName) (wild : Bool) :
    Option (Cache × Option DnsCent × Wildcard) :=
  (c.findCent env name wild).bind fun
    | (none, w) => some (c, none, w)
    | (some key, w) => (c.purgeCent env now key true false).bind fun (c, npurge) ↦
        if npurge < 0 then some (c, none, w)
        else (c.heap key).map fun ret ↦ (c, some ret.copy, w)

/-- `lookup_cache_local_rrset`. -/
def Cache.lookupCacheLocalRrset (c : Cache) (name : DomainName) (type : ℕ) :
    Option (Option RrSet) :=
  match c.lookup env name.rhn with
  | none => some none
  | some key => (c.heap key).map fun cent ↦
      (((rrIndex type).bind cent.get).filter fun rrset ↦ rrset.flags.isLocal).map RrSet.copy

end Lookups

end Orbot.Pdnsd.DnsCache
