import Mathlib.Algebra.BigOperators.Fin
import Mathlib.Algebra.BigOperators.Ring.Finset
import Mathlib.Algebra.Order.BigOperators.Group.Finset
import Mathlib.Algebra.Order.BigOperators.Group.List
import Mathlib.Algebra.Order.Ring.Int
import Orbot.Foundation.Counting
import Orbot.Pdnsd.Names

/-!
# Entries of the cache

An entry holds the record sets of a name, or says that the name does not exist. It counts its sets and
the memory that it takes. Pointers from the sets to the list of the cache are true or false here: the
list is in the cache. Memory does not run out.
-/

namespace Orbot.Pdnsd.DnsCache

def NRRMU : ℕ := 8
def NRREXT : ℕ := 39
def NRRTOT : ℕ := 47
def CACHE_LAT : ℤ := 120
def cundef : ℕ := 0xff

/-- The index of a set in the arrays of an entry. -/
abbrev RrIndex := Fin NRRTOT

/-- The flags of a set. -/
structure SetFlags where
  isNegative : Bool
  isLocal : Bool
  auth : Bool
  nocache : Bool
  additional : Bool
  nopurge : Bool
  rootserv : Bool
deriving DecidableEq

/-- The flags of an entry, but for `DF_NEGATIVE`. -/
structure DomFlags where
  isLocal : Bool
  auth : Bool
  nocache : Bool
  wild : Bool
deriving DecidableEq

/-- `rr_set_t`; `lent` says whether it is in the list of the cache. -/
structure RrSet where
  lent : Bool
  ttl : ℤ
  ts : ℤ
  flags : SetFlags
  rrs : List Octets
deriving DecidableEq

/-- The array of the most used sets, and after it the array of the others if it is allocated. -/
structure RrArrays where
  sets : RrIndex → Option RrSet
  rrext : Bool

/-- The two halves of the union in `dns_cent_t`, of which `DF_NEGATIVE` selects one. -/
inductive Domain where
  | neg (lent : Bool) (ttl ts : ℤ)
  | rr (arrays : RrArrays)

/-- `dns_cent_t`. -/
structure DnsCent where
  qname : DomainName
  cs : ℤ
  num_rrs : ℤ
  flags : DomFlags
  domain : Domain
  c_ns : ℕ
  c_soa : ℕ

/-- The sizes of the structures on a platform. -/
structure Sizes where
  dns_cent_t : ℕ
  rr_set_t : ℕ
  rr_bucket_t : ℕ
  pointer : ℕ

/-- Whether there is a place for the set with an index. -/
def RrArrays.HasPlace (a : RrArrays) (i : RrIndex) : Prop := i.val < NRRMU ∨ a.rrext = true

instance (a : RrArrays) (i : RrIndex) : Decidable (a.HasPlace i) :=
  inferInstanceAs (Decidable (_ ∨ _))

def RrArrays.empty : RrArrays := ⟨fun _ ↦ none, false⟩

/-- `RRARR_INDEX_TESTEXT`. -/
def RrArrays.get (a : RrArrays) (i : RrIndex) : Option RrSet :=
  if a.HasPlace i then a.sets i else none

/-- The place gets a pointer. -/
def RrArrays.put (a : RrArrays) (i : RrIndex) (rrset : Option RrSet) : RrArrays :=
  { a with sets := Function.update a.sets i rrset }

/-- The array of the other sets is allocated where it is needed. -/
def RrArrays.alloc (a : RrArrays) (i : RrIndex) : RrArrays :=
  if a.HasPlace i then a
  else ⟨fun j ↦ if j.val < NRRMU then a.sets j else none, true⟩

/-- The indices below `RRARR_LEN`. -/
def RrArrays.indices (a : RrArrays) : List RrIndex :=
  (List.finRange NRRTOT).filter fun i ↦ a.HasPlace i

/-- What `del_rrset` returns. -/
def RrSet.size (z : Sizes) (rrset : RrSet) : ℤ :=
  z.rr_set_t + (rrset.rrs.map fun data ↦ (z.rr_bucket_t + data.length : ℤ)).sum

def RrArrays.extSize (z : Sizes) (a : RrArrays) : ℤ :=
  if a.rrext = true then (z.pointer * NRREXT : ℕ) else 0

def DnsCent.isNegative (cent : DnsCent) : Bool :=
  match cent.domain with
  | .neg .. => true
  | .rr _ => false

/-- The sets of an entry; a negative one has none. -/
def DnsCent.arrays (cent : DnsCent) : RrArrays :=
  match cent.domain with
  | .neg .. => .empty
  | .rr a => a

def DnsCent.get (cent : DnsCent) (i : RrIndex) : Option RrSet := cent.arrays.get i

/-- The indices of the loops over the sets of an entry. -/
def DnsCent.indices (cent : DnsCent) : List RrIndex :=
  match cent.domain with
  | .neg .. => []
  | .rr a => a.indices

section Build

variable (z : Sizes)

/-- `init_cent`. -/
def initCent (qname : DomainName) (ttl ts : ℤ) (negative : Bool) (flags : DomFlags) : DnsCent where
  qname := qname
  cs := z.dns_cent_t + qname.rhn.length
  num_rrs := 0
  flags := flags
  domain := if negative = true then .neg false ttl ts else .rr .empty
  c_ns := cundef
  c_soa := cundef

/-- `add_cent_rrset_by_index`, where no list of the cache has the entry. -/
def DnsCent.addRrset (cent : DnsCent) (i : RrIndex) (ttl ts : ℤ) (flags : SetFlags) : DnsCent :=
  let a := cent.arrays
  { cent with
    domain := .rr ((a.alloc i).put i (some ⟨false, ttl, ts, flags, []⟩))
    cs := cent.cs + (if a.HasPlace i then 0 else (z.pointer * NRREXT : ℕ)) + z.rr_set_t
    num_rrs := cent.num_rrs + 1 }

/-- A set is changed in place. -/
def DnsCent.modify (cent : DnsCent) (i : RrIndex) (f : RrSet → RrSet) : DnsCent :=
  match cent.domain with
  | .neg .. => cent
  | .rr a => { cent with domain := .rr (a.put i ((a.get i).map f)) }

/-- `add_cent_rr_int`, which appends the record to the others of the set: it is called with the last
of them, or for the first one. -/
def DnsCent.addRrInt (cent : DnsCent) (i : RrIndex) (ttl ts : ℤ) (flags : SetFlags)
    (data : Octets) : DnsCent :=
  let cent := if (cent.get i).isSome then cent else cent.addRrset z i ttl ts flags
  { cent.modify i fun rrset ↦ { rrset with rrs := rrset.rrs ++ [data] } with
    cs := cent.cs + (z.rr_bucket_t + data.length) }

/-- `rrlkuptab`. -/
def rrlkuptab : List ℕ :=
  [0, 1, 8, 9, 2, 3, 10, 11, 12, 13, 14, 4, 15, 16, 5, 6, 17, 18, 19, 20, 21, 22, 23, 24, 25, 26, 27,
    7, 28, 29, 30, 31, 32, 33, 34, 35, 36, 47, 48, 49, 50, 37, 38, 39, 40, 41, 42, 43, 44, 45, 46]

/-- The index for the sets of a type, with the assertions about types. -/
def rrIndex (type : ℕ) : Option RrIndex :=
  if type = 0 then none
  else (rrlkuptab[type - 1]?).bind fun idx ↦
    if h : idx < NRRTOT then some ⟨idx, h⟩ else none

/-- `add_cent_rrset_by_type`. -/
def DnsCent.addRrsetByType (cent : DnsCent) (type : ℕ) (ttl ts : ℤ) (flags : SetFlags) :
    Option DnsCent :=
  (rrIndex type).map fun i ↦ cent.addRrset z i ttl ts flags

/-- `add_cent_rr`. -/
def DnsCent.addRr (cent : DnsCent) (type : ℕ) (ttl ts : ℤ) (flags : SetFlags) (data : Octets) :
    Option DnsCent :=
  if cent.flags.isLocal = true ∧ flags.isLocal = false then some cent
  else (rrIndex type).map fun i ↦
    match cent.get i with
    | none => cent.addRrInt z i ttl ts flags data
    | some rrset =>
        let cent := cent.modify i fun rrset ↦ { rrset with ttl := min ttl rrset.ttl }
        if data ∈ rrset.rrs then cent else cent.addRrInt z i ttl ts flags data

/-- `negate_cent`, where no list of the cache has the sets. -/
def DnsCent.negate (cent : DnsCent) (ttl ts : ℤ) : DnsCent :=
  match cent.domain with
  | .neg lent _ _ => { cent with domain := .neg lent ttl ts }
  | .rr a =>
      { cent with
        cs := cent.cs - (a.indices.map fun i ↦ ((a.get i).map (RrSet.size z)).getD 0).sum -
          a.extSize z
        num_rrs := 0
        domain := .neg false ttl ts }

end Build

/-- The copy of a set has no place in the list. -/
def RrSet.copy (rrset : RrSet) : RrSet := { rrset with lent := false }

/-- `copy_cent`. -/
def DnsCent.copy (cent : DnsCent) : DnsCent :=
  { cent with
    domain := match cent.domain with
      | .neg _ ttl ts => .neg false ttl ts
      | .rr a => .rr ⟨fun i ↦ (a.get i).map RrSet.copy, a.rrext⟩ }

def clatAdj (ttl : ℤ) : ℤ := max CACHE_LAT ttl

/-- `timedout`. -/
def RrSet.timedout (now : ℤ) (rrset : RrSet) : Bool := rrset.ts + clatAdj rrset.ttl < now

/-- `timedout_nxdom`, for negative entries. -/
def DnsCent.timedoutNxdom (now : ℤ) (cent : DnsCent) : Bool :=
  match cent.domain with
  | .neg _ ttl ts => ts + clatAdj ttl < now
  | .rr _ => false

section Arrays

variable {a : RrArrays} {i : RrIndex} {rrset : RrSet}

theorem RrArrays.get_of_hasPlace (h : a.HasPlace i) : a.get i = a.sets i := if_pos h

theorem RrArrays.get_of_not_hasPlace (h : ¬a.HasPlace i) : a.get i = none := if_neg h

theorem RrArrays.hasPlace_of_get (h : a.get i = some rrset) : a.HasPlace i := by
  by_contra hplace
  rw [get_of_not_hasPlace hplace] at h
  exact Option.some_ne_none rrset h.symm

theorem RrArrays.mem_indices : i ∈ a.indices ↔ a.HasPlace i := by
  simp [indices]

theorem RrArrays.nodup_indices : a.indices.Nodup := (List.nodup_finRange NRRTOT).filter _

theorem RrArrays.hasPlace_put (a : RrArrays) (i j : RrIndex) (place : Option RrSet) :
    (a.put i place).HasPlace j ↔ a.HasPlace j := Iff.rfl

theorem RrArrays.get_put (a : RrArrays) (i : RrIndex) (place : Option RrSet) (h : a.HasPlace i) :
    (a.put i place).get = Function.update a.get i place := by
  funext j
  by_cases hj : j = i
  · rw [hj, Function.update_self, get_of_hasPlace ((a.hasPlace_put i i place).mpr h), put]
    exact Function.update_self ..
  · rw [Function.update_of_ne hj]
    by_cases hplace : a.HasPlace j
    · rw [get_of_hasPlace hplace, get_of_hasPlace ((a.hasPlace_put i j place).mpr hplace), put]
      exact Function.update_of_ne hj ..
    · rw [get_of_not_hasPlace hplace,
        get_of_not_hasPlace fun h ↦ hplace ((a.hasPlace_put i j place).mp h)]

theorem RrArrays.hasPlace_alloc (a : RrArrays) (i : RrIndex) : (a.alloc i).HasPlace i := by
  rw [alloc]
  split
  next h => exact h
  next => exact .inr rfl

theorem RrArrays.get_alloc (a : RrArrays) (i : RrIndex) : (a.alloc i).get = a.get := by
  funext j
  rw [alloc]
  split
  next => rfl
  next h =>
    have hext : ¬a.rrext = true := fun hext ↦ h (.inr hext)
    have hplace : a.HasPlace j ↔ j.val < NRRMU := ⟨fun h ↦ h.resolve_right hext, .inl⟩
    rw [get_of_hasPlace (.inr rfl), get]
    exact if_congr hplace.symm rfl rfl

theorem RrArrays.get_empty : RrArrays.empty.get = fun _ ↦ none := by
  funext j
  rw [get]
  split <;> rfl

end Arrays

section Sets

variable (z : Sizes) (cent : DnsCent) (i : RrIndex)

theorem DnsCent.get_neg {cent : DnsCent} {lent : Bool} {ttl ts : ℤ}
    (h : cent.domain = .neg lent ttl ts) : cent.get = fun _ ↦ none := by
  funext j
  rw [get, arrays, h, RrArrays.get_empty]

theorem DnsCent.get_rr {cent : DnsCent} {a : RrArrays} (h : cent.domain = .rr a) :
    cent.get = a.get := by
  funext j
  rw [get, arrays, h]

theorem DnsCent.get_addRrset (ttl ts : ℤ) (flags : SetFlags) :
    (cent.addRrset z i ttl ts flags).get =
      Function.update cent.get i (some ⟨false, ttl, ts, flags, []⟩) := by
  have hget : (cent.addRrset z i ttl ts flags).get =
      ((cent.arrays.alloc i).put i (some ⟨false, ttl, ts, flags, []⟩)).get := get_rr rfl
  rw [hget, RrArrays.get_put _ _ _ (RrArrays.hasPlace_alloc _ _), RrArrays.get_alloc]
  rfl

theorem DnsCent.get_modify (f : RrSet → RrSet) :
    (cent.modify i f).get = Function.update cent.get i ((cent.get i).map f) := by
  cases hdomain : cent.domain with
  | neg lent ttl ts =>
    have hnone : cent.get i = none := congrFun (get_neg hdomain) i
    rw [modify, hdomain, hnone, Option.map_none, ← hnone, Function.update_eq_self]
  | rr a =>
    have hmodify : (cent.modify i f).get = (a.put i ((a.get i).map f)).get := by
      rw [modify, hdomain]
      rfl
    rw [hmodify, get_rr hdomain]
    by_cases hplace : a.HasPlace i
    · exact RrArrays.get_put _ _ _ hplace
    · rw [RrArrays.get_of_not_hasPlace hplace, Option.map_none]
      funext j
      by_cases hj : j = i
      · rw [hj, Function.update_self]
        exact RrArrays.get_of_not_hasPlace hplace
      · rw [Function.update_of_ne hj, RrArrays.get, RrArrays.get, RrArrays.put]
        exact if_congr Iff.rfl (Function.update_of_ne hj ..) rfl

theorem DnsCent.get_copy : cent.copy.get = fun i ↦ (cent.get i).map RrSet.copy := by
  cases hdomain : cent.domain with
  | neg lent ttl ts =>
    have hcopy : cent.copy.domain = .neg false ttl ts := by
      rw [copy, hdomain]
    rw [get_neg hcopy, get_neg hdomain]
    rfl
  | rr a =>
    have hcopy : cent.copy.domain = .rr ⟨fun i ↦ (a.get i).map RrSet.copy, a.rrext⟩ := by
      rw [copy, hdomain]
    rw [get_rr hcopy, get_rr hdomain]
    funext j
    by_cases hplace : a.HasPlace j
    · exact if_pos hplace
    · rw [RrArrays.get_of_not_hasPlace hplace]
      exact if_neg hplace

end Sets

section Sizes

variable (z : Sizes)

/-- The memory that a place for a set takes. -/
def RrSet.sizeAt (place : Option RrSet) : ℤ := (place.map (RrSet.size z)).getD 0

/-- The memory that an entry takes. -/
def DnsCent.size (cent : DnsCent) : ℤ :=
  z.dns_cent_t + cent.qname.rhn.length + (cent.arrays.extSize z + ∑ i, RrSet.sizeAt z (cent.get i))

/-- The counters of an entry say what it has. -/
structure DnsCent.Accounted (cent : DnsCent) : Prop where
  cs : cent.cs = cent.size z
  num_rrs : cent.num_rrs = countOf Option.isSome cent.get

variable {z} {cent : DnsCent} {i : RrIndex}

/-- One place of an entry changes, and the array of the other sets with it. -/
theorem DnsCent.Accounted.update (h : cent.Accounted z) {cent' : DnsCent} {place : Option RrSet}
    (hqname : cent'.qname = cent.qname) (hget : cent'.get = Function.update cent.get i place)
    (hcs : cent'.cs + RrSet.sizeAt z (cent.get i) + cent.arrays.extSize z =
      cent.cs + RrSet.sizeAt z place + cent'.arrays.extSize z)
    (hnum : cent'.num_rrs + (cent.get i).isSome.toNat = cent.num_rrs + place.isSome.toNat) :
    cent'.Accounted z := by
  have hsum := sum_update_add (RrSet.sizeAt z) cent.get (Finset.mem_univ i) place
  have hcount := countOf_update Option.isSome cent.get i place
  constructor
  · have hcs' := h.cs
    rw [size] at hcs' ⊢
    rw [hqname, hget]
    omega
  · have hnum' := h.num_rrs
    rw [hget]
    omega

theorem accounted_initCent (qname : DomainName) (ttl ts : ℤ) (negative : Bool) (flags : DomFlags) :
    (initCent z qname ttl ts negative flags).Accounted z := by
  have hget : (initCent z qname ttl ts negative flags).get = fun _ ↦ none := by
    cases negative
    · exact (DnsCent.get_rr rfl).trans RrArrays.get_empty
    · exact DnsCent.get_neg rfl
  have hext : (initCent z qname ttl ts negative flags).arrays.extSize z = 0 := by
    cases negative <;> rfl
  constructor
  · rw [DnsCent.size, hget, hext]
    simp [RrSet.sizeAt, initCent]
  · rw [hget]
    simp [countOf, initCent]

theorem RrArrays.extSize_alloc (a : RrArrays) (i : RrIndex) : (a.alloc i).extSize z =
    a.extSize z + if a.HasPlace i then 0 else (z.pointer * NRREXT : ℕ) := by
  by_cases h : a.HasPlace i
  · rw [if_pos h, alloc, if_pos h, Nat.cast_zero, add_zero]
  · have hext : ¬a.rrext = true := fun hext ↦ h (.inr hext)
    rw [if_neg h, alloc, if_neg h, extSize, if_pos rfl, extSize, if_neg hext, zero_add]

/-- A set is added where there is none. -/
theorem DnsCent.Accounted.addRrset (h : cent.Accounted z) (hnone : cent.get i = none) (ttl ts : ℤ)
    (flags : SetFlags) : (cent.addRrset z i ttl ts flags).Accounted z := by
  refine h.update (i := i) rfl (cent.get_addRrset z i ttl ts flags) ?_ ?_
  · have hext : (cent.addRrset z i ttl ts flags).arrays.extSize z =
        (cent.arrays.alloc i).extSize z := rfl
    rw [hext, RrArrays.extSize_alloc, hnone]
    simp only [DnsCent.addRrset, RrSet.sizeAt, Option.map_none, Option.map_some, Option.getD_none,
      Option.getD_some, RrSet.size, List.map_nil, List.sum_nil]
    omega
  · simp [DnsCent.addRrset, hnone]

section Modify

variable (cent : DnsCent) (i : RrIndex) (f : RrSet → RrSet)

@[simp] theorem DnsCent.qname_modify : (cent.modify i f).qname = cent.qname := by
  rw [modify]; split <;> rfl

@[simp] theorem DnsCent.flags_modify : (cent.modify i f).flags = cent.flags := by
  rw [modify]; split <;> rfl

@[simp] theorem DnsCent.cs_modify : (cent.modify i f).cs = cent.cs := by
  rw [modify]; split <;> rfl

@[simp] theorem DnsCent.num_rrs_modify : (cent.modify i f).num_rrs = cent.num_rrs := by
  rw [modify]; split <;> rfl

@[simp] theorem DnsCent.isNegative_modify : (cent.modify i f).isNegative = cent.isNegative := by
  cases hdomain : cent.domain <;> simp [modify, isNegative, hdomain]

theorem DnsCent.extSize_modify :
    (cent.modify i f).arrays.extSize z = cent.arrays.extSize z := by
  cases hdomain : cent.domain <;> simp [modify, arrays, hdomain, RrArrays.put, RrArrays.extSize]

end Modify

/-- A change of a set counts with what it changes the size by. -/
theorem DnsCent.Accounted.modify (h : cent.Accounted z) {rrset : RrSet}
    (hget : cent.get i = some rrset) (f : RrSet → RrSet) {cs : ℤ}
    (hcs : cs + rrset.size z = cent.cs + (f rrset).size z) :
    DnsCent.Accounted z { cent.modify i f with cs := cs } := by
  refine h.update (i := i) (cent.qname_modify i f) (cent.get_modify i f) ?_ ?_
  · change cs + _ + _ = _ + _ + (cent.modify i f).arrays.extSize z
    rw [extSize_modify, hget]
    simp only [RrSet.sizeAt, Option.map_some, Option.getD_some]
    omega
  · rw [hget]
    exact congrArg (· + _) (cent.num_rrs_modify i f)

theorem RrSet.size_append (rrset : RrSet) (data : Octets) :
    RrSet.size z { rrset with rrs := rrset.rrs ++ [data] } =
      rrset.size z + (z.rr_bucket_t + data.length) := by
  simp [RrSet.size]
  omega

theorem DnsCent.Accounted.addRrInt (h : cent.Accounted z) (ttl ts : ℤ) (flags : SetFlags)
    (data : Octets) : (cent.addRrInt z i ttl ts flags data).Accounted z := by
  have happend : ∀ {cent : DnsCent} {rrset : RrSet}, cent.Accounted z → cent.get i = some rrset →
      DnsCent.Accounted z
        { cent.modify i fun rrset ↦ { rrset with rrs := rrset.rrs ++ [data] } with
          cs := cent.cs + (z.rr_bucket_t + data.length) } := by
    intro cent rrset h hget
    refine h.modify hget _ ?_
    rw [RrSet.size_append]
    omega
  cases hget : cent.get i with
  | some rrset =>
    rw [DnsCent.addRrInt, hget]
    exact happend h hget
  | none =>
    have hnew : (cent.addRrset z i ttl ts flags).get i = some ⟨false, ttl, ts, flags, []⟩ := by
      rw [get_addRrset, Function.update_self]
    rw [DnsCent.addRrInt, hget]
    exact happend (h.addRrset hget ttl ts flags) hnew

theorem DnsCent.Accounted.addRr (h : cent.Accounted z) {type : ℕ} {ttl ts : ℤ} {flags : SetFlags}
    {data : Octets} {cent' : DnsCent} (hadd : cent.addRr z type ttl ts flags data = some cent') :
    cent'.Accounted z := by
  rw [DnsCent.addRr] at hadd
  split at hadd
  next =>
    obtain rfl := Option.some.inj hadd
    exact h
  next =>
    obtain ⟨i, -, rfl⟩ := Option.map_eq_some_iff.mp hadd
    cases hget : cent.get i with
    | none => exact h.addRrInt ttl ts flags data
    | some rrset =>
      have hmin : (cent.modify i fun rrset ↦ { rrset with ttl := min ttl rrset.ttl }).Accounted z := by
        have hmodify := @DnsCent.Accounted.modify z cent i h rrset hget
          (fun rrset ↦ { rrset with ttl := min ttl rrset.ttl }) cent.cs rfl
        rw [← cent.cs_modify i fun rrset ↦ { rrset with ttl := min ttl rrset.ttl }] at hmodify
        exact hmodify
      simp only
      split
      next => exact hmin
      next => exact hmin.addRrInt ttl ts flags data

theorem DnsCent.Accounted.addRrsetByType (h : cent.Accounted z) {type : ℕ} {ttl ts : ℤ}
    {flags : SetFlags} {cent' : DnsCent} (hnone : (rrIndex type).bind cent.get = none)
    (hadd : cent.addRrsetByType z type ttl ts flags = some cent') : cent'.Accounted z := by
  obtain ⟨i, hi, rfl⟩ := Option.map_eq_some_iff.mp hadd
  rw [hi] at hnone
  exact h.addRrset hnone ttl ts flags

theorem RrArrays.sum_indices (a : RrArrays) (w : Option RrSet → ℤ) (hw : w none = 0) :
    (a.indices.map fun i ↦ w (a.get i)).sum = ∑ i, w (a.get i) := by
  have hfilter : ∀ l : List RrIndex, ((l.filter fun i ↦ a.HasPlace i).map fun i ↦ w (a.get i)).sum =
      (l.map fun i ↦ w (a.get i)).sum := by
    intro l
    induction l with
    | nil => rfl
    | cons i l ih =>
      by_cases hplace : a.HasPlace i
      · rw [List.filter_cons_of_pos (by simpa using hplace), List.map_cons, List.map_cons,
          List.sum_cons, List.sum_cons, ih]
      · rw [List.filter_cons_of_neg (by simpa using hplace), List.map_cons, List.sum_cons, ih,
          get_of_not_hasPlace hplace, hw, zero_add]
  rw [indices, hfilter, Fin.sum_univ_def]

theorem DnsCent.Accounted.negate (h : cent.Accounted z) (ttl ts : ℤ) :
    (cent.negate z ttl ts).Accounted z := by
  cases hdomain : cent.domain with
  | neg lent ttl' ts' =>
    have hnegate : cent.negate z ttl ts = { cent with domain := .neg lent ttl ts } := by
      rw [DnsCent.negate, hdomain]
    have hcs := h.cs
    have hnum := h.num_rrs
    rw [DnsCent.size, get_neg hdomain] at hcs
    rw [get_neg hdomain] at hnum
    have hget : (cent.negate z ttl ts).get = fun _ ↦ none := by
      rw [hnegate]
      exact get_neg rfl
    have hext : cent.arrays.extSize z = 0 := by
      rw [arrays, hdomain]
      rfl
    constructor
    · rw [DnsCent.size, hget, hnegate, hcs, hext]
      rfl
    · rw [hget, hnegate, ← hnum]
  | rr a =>
    have hnegate : cent.negate z ttl ts =
        { cent with
          cs := cent.cs - (a.indices.map fun i ↦ RrSet.sizeAt z (a.get i)).sum - a.extSize z
          num_rrs := 0
          domain := .neg false ttl ts } := by
      rw [DnsCent.negate, hdomain]
      rfl
    have hget : (cent.negate z ttl ts).get = fun _ ↦ none := by
      rw [hnegate]
      exact get_neg rfl
    have harrays : cent.arrays = a := by
      rw [arrays, hdomain]
    have hcs := h.cs
    rw [DnsCent.size, get_rr hdomain, harrays] at hcs
    constructor
    · rw [DnsCent.size, hget, hnegate, hcs, RrArrays.sum_indices a (RrSet.sizeAt z) rfl]
      simp [arrays, RrArrays.extSize, RrArrays.empty, RrSet.sizeAt]
      omega
    · rw [hget, hnegate]
      simp [countOf]

theorem DnsCent.Accounted.copy (h : cent.Accounted z) : cent.copy.Accounted z := by
  have hsize : ∀ i, RrSet.sizeAt z (cent.copy.get i) = RrSet.sizeAt z (cent.get i) := by
    intro i
    rw [congrFun cent.get_copy i]
    cases cent.get i <;> rfl
  have hext : cent.copy.arrays.extSize z = cent.arrays.extSize z := by
    cases hdomain : cent.domain <;>
      simp [DnsCent.copy, arrays, hdomain, RrArrays.extSize, RrArrays.empty]
  constructor
  · have hcs := h.cs
    rw [DnsCent.size] at hcs ⊢
    rw [hext, Finset.sum_congr rfl fun i _ ↦ hsize i]
    exact hcs
  · have hnum := h.num_rrs
    rw [get_copy]
    simp only [countOf, Option.isSome_map] at hnum ⊢
    exact hnum

theorem RrSet.size_le (rrset : RrSet) : (z.rr_set_t : ℤ) ≤ rrset.size z := by
  have hnonneg : (0 : ℤ) ≤ (rrset.rrs.map fun data ↦ (z.rr_bucket_t + data.length : ℤ)).sum := by
    refine List.sum_nonneg fun x hx ↦ ?_
    obtain ⟨data, -, rfl⟩ := List.mem_map.mp hx
    omega
  rw [RrSet.size]
  omega

theorem RrArrays.extSize_nonneg (a : RrArrays) : 0 ≤ a.extSize z := by
  rw [extSize]
  split
  next => exact Int.natCast_nonneg _
  next => exact le_rfl

/-- An entry takes at least the memory of its structures. -/
theorem DnsCent.Accounted.le_cs (h : cent.Accounted z) :
    (z.dns_cent_t : ℤ) + z.rr_set_t * countOf Option.isSome cent.get ≤ cent.cs := by
  have hplace : ∀ i, (z.rr_set_t : ℤ) * (cent.get i).isSome.toNat ≤ RrSet.sizeAt z (cent.get i) := by
    intro i
    cases hget : cent.get i with
    | none => simp [RrSet.sizeAt]
    | some rrset => simpa [RrSet.sizeAt] using rrset.size_le
  have hsum := Finset.sum_le_sum fun i (_ : i ∈ Finset.univ) ↦ hplace i
  rw [← Finset.mul_sum, ← Nat.cast_sum, ← countOf_eq_sum] at hsum
  have hext : 0 ≤ cent.arrays.extSize z := RrArrays.extSize_nonneg _
  rw [h.cs, size]
  omega

theorem DnsCent.Accounted.cs_nonneg (h : cent.Accounted z) : 0 ≤ cent.cs := by
  have hle := h.le_cs
  have hrrsets : (0 : ℤ) ≤ z.rr_set_t * countOf Option.isSome cent.get :=
    Int.mul_nonneg (Int.natCast_nonneg _) (Int.natCast_nonneg _)
  omega

end Sizes

end Orbot.Pdnsd.DnsCache
