import Orbot.Foundation.HashTable
import Orbot.Pdnsd.Names

/-!
# The hash table of names

Entries are found by their name, whatever the case of its letters. The functions are those of any type
of entries; the width of `unsigned long` is that of the platform.
-/

namespace Orbot.Pdnsd

def HASH_SZ : ℕ := 10
def HASH_NUM_BUCKETS : ℕ := 1024

/-- `toupper` of the C locale. -/
def toupper (c : UInt8) : UInt8 := if 97 ≤ c ∧ c ≤ 122 then c - 32 else c

section Hash

variable (longBits : ℕ)

/-- An octet at a place, for both hashes. -/
def hashOctet (i : ℕ) (c : UInt8) (hashes : ℕ × ℕ) : ℕ × ℕ :=
  ((hashes.1 + c.toNat <<< (i % (HASH_SZ - 5))) % 2 ^ 32,
    (hashes.2 + c.toNat <<< (i % (longBits - 7))) % 2 ^ longBits)

/-- The characters of a label. -/
def hashChars (i : ℕ) (hashes : ℕ × ℕ) : Octets → ℕ × ℕ
  | [] => hashes
  | c :: rest => hashChars (i + 1) (hashOctet longBits i (toupper c) hashes) rest

/-- The loop of `dns_hash`. -/
def hashLabels (i : ℕ) (hashes : ℕ × ℕ) : Octets → ℕ × ℕ
  | [] => hashes
  | lb :: rest =>
      if lb = 0 then hashes
      else hashLabels (i + 1 + lb.toNat)
        (hashChars longBits (i + 1) (hashOctet longBits i lb hashes) (rest.take lb.toNat))
        (rest.drop lb.toNat)
termination_by rhn => rhn.length
decreasing_by simp only [List.length_drop, List.length_cons]; omega

/-- A step of folding the first hash to `HASH_SZ` bits. -/
def foldHash (s : ℕ) : ℕ := s % HASH_NUM_BUCKETS + s / HASH_NUM_BUCKETS

/-- `dns_hash`: the bucket, and the hash that orders it. -/
def dnsHash (str : Octets) : Fin HASH_NUM_BUCKETS × ℕ :=
  let hashes := hashLabels longBits 0 (0, 0) str
  (⟨foldHash (foldHash hashes.1) % HASH_NUM_BUCKETS, Nat.mod_lt _ (by decide)⟩, hashes.2)

end Hash

/-- `hash_buckets`. -/
abbrev HashBuckets (α : Type) := Buckets α HASH_NUM_BUCKETS

section Table

variable {α : Type} (longBits : ℕ) (qname : α → DomainName)

def mkDnsHash : HashBuckets α := fun _ ↦ []

/-- `dns_lookup`: the place as a position in the bucket, and the entry. -/
def dnsLookup (t : HashBuckets α) (name : Octets) : ℕ × Option α :=
  chainSearch (dnsHash longBits name).2 (fun data ↦ rhnicmp name (qname data).rhn)
    (t (dnsHash longBits name).1)

/-- `add_dns_hash` at the place where `dns_lookup` did not find the name. -/
def addDnsHash (t : HashBuckets α) (data : α) : HashBuckets α :=
  let name := (qname data).rhn
  t.insertAt (dnsHash longBits name).1 (dnsLookup longBits qname t name).1
    ⟨(dnsHash longBits name).2, data⟩

/-- `del_dns_hash`. -/
def delDnsHash (t : HashBuckets α) (name : Octets) : HashBuckets α × Option α :=
  match dnsLookup longBits qname t name with
  | (pos, some data) => (t.eraseAt (dnsHash longBits name).1 pos, some data)
  | (_, none) => (t, none)

/-- `dns_hash_pos_t`: the bucket, and what is left of its chain. -/
structure HashPos (α : Type) where
  bucket : ℕ
  ent : List (HashEnt α)

/-- The loop of `fetch_first` and `fetch_next` over the buckets. -/
def fetchFrom (t : HashBuckets α) : List (Fin HASH_NUM_BUCKETS) → Option (α × HashPos α)
  | [] => none
  | i :: rest =>
      match t i with
      | he :: ent => some (he.data, ⟨i, ent⟩)
      | [] => fetchFrom t rest

def fetchFirst (t : HashBuckets α) : Option (α × HashPos α) :=
  fetchFrom t (List.finRange HASH_NUM_BUCKETS)

def fetchNext (t : HashBuckets α) (pos : HashPos α) : Option (α × HashPos α) :=
  match pos.ent with
  | he :: ent => some (he.data, ⟨pos.bucket, ent⟩)
  | [] => fetchFrom t ((List.finRange HASH_NUM_BUCKETS).drop (pos.bucket + 1))

end Table

section Case

variable {longBits i : ℕ} {hashes : ℕ × ℕ} {label : Octets} {labels labels' : List Octets}
  {c : UInt8}

theorem toupper_tolower (c : UInt8) : toupper (tolower c) = toupper c := by
  have hlt := c.toNat_lt
  rw [tolower]
  split
  next hupper =>
    simp only [UInt8.le_iff_toNat_le, UInt8.reduceToNat] at hupper
    have hsum : (c + 32).toNat = c.toNat + 32 := by
      rw [UInt8.toNat_add]
      exact Nat.mod_eq_of_lt (by simp only [UInt8.reduceToNat]; omega)
    rw [toupper, toupper, if_pos, if_neg, UInt8.add_sub_cancel]
    · simp only [UInt8.le_iff_toNat_le, UInt8.reduceToNat]
      omega
    · simp only [UInt8.le_iff_toNat_le, UInt8.reduceToNat, hsum]
      omega
  next => rfl

theorem hashChars_foldCase (label : Octets) :
    hashChars longBits i hashes (foldCase label) = hashChars longBits i hashes label := by
  induction label generalizing i hashes with
  | nil => rfl
  | cons c rest ih =>
    have hcons : foldCase (c :: rest) = tolower c :: foldCase rest := rfl
    rw [hcons, hashChars, hashChars, toupper_tolower, ih]

theorem isLabel_foldCase (h : IsLabel label) : IsLabel (foldCase label) := by
  rw [IsLabel, length_foldCase]
  exact h

/-- The hashes of a name are those of the name in lower case. -/
theorem hashLabels_foldLabels (h : ∀ label ∈ labels, IsLabel label) :
    hashLabels longBits i hashes (encode (foldLabels labels)) =
      hashLabels longBits i hashes (encode labels) := by
  induction labels generalizing i hashes with
  | nil => rfl
  | cons label labels ih =>
    have hlabel := h label List.mem_cons_self
    have hcons : foldLabels (label :: labels) = foldCase label :: foldLabels labels := rfl
    rw [hcons, encode_cons, encode_cons, hashLabels, hashLabels,
      if_neg (length_ne_zero (isLabel_foldCase hlabel)), if_neg (length_ne_zero hlabel),
      take_encode_cons hlabel, drop_encode_cons hlabel, take_encode_cons (isLabel_foldCase hlabel),
      drop_encode_cons (isLabel_foldCase hlabel), hashChars_foldCase, length_foldCase,
      ih fun label hmem ↦ h label (List.mem_cons_of_mem _ hmem)]

end Case

section Lookup

variable (longBits : ℕ)

/-- The hash of names in lower case. -/
def nameHash : ChainHash (List Octets) HASH_NUM_BUCKETS where
  bucket labels := (dnsHash longBits (encode labels)).1
  rhash labels := (dnsHash longBits (encode labels)).2

/-- The name in lower case. -/
def DomainName.key (name : DomainName) : List Octets := foldLabels name.labels

variable {longBits} {α : Type} {qname : α → DomainName} {t : HashBuckets α}

variable (longBits) in
theorem nameHash_key (name : DomainName) :
    ((nameHash longBits).bucket name.key, (nameHash longBits).rhash name.key) =
      dnsHash longBits name.rhn := by
  have hlabels : hashLabels longBits 0 (0, 0) (encode name.key) =
      hashLabels longBits 0 (0, 0) name.rhn := hashLabels_foldLabels name.isLabel
  simp only [nameHash, dnsHash, hlabels]

/-- `dns_lookup` is the search for the name in lower case. -/
theorem dnsLookup_rhn (t : HashBuckets α) (name : DomainName) :
    dnsLookup longBits qname t name.rhn =
      t.search (nameHash longBits) (fun data ↦ (qname data).key) name.key := by
  have hhash := nameHash_key longBits name
  have hkey (data : α) : rhnicmp name.rhn (qname data).rhn = decide ((qname data).key = name.key) := by
    have hiff := rhnicmp_encode name.isLabel (qname data).isLabel [] []
    rw [List.append_nil, List.append_nil] at hiff
    rw [Bool.eq_iff_iff, decide_eq_true_iff]
    exact hiff.trans eq_comm
  rw [dnsLookup, Buckets.search]
  simp only [hkey, ← hhash]

theorem dnsLookup_mem {t : HashBuckets α} {name : Octets} {data : α}
    (h : (dnsLookup longBits qname t name).2 = some data) : data ∈ t.entries := by
  obtain ⟨he, hmem, hdata⟩ := chainSearch_mem h
  exact Buckets.mem_entries.mpr ⟨_, he, hmem, hdata⟩

variable (longBits qname)

/-- The table, with every entry where it is looked up. -/
def HashBuckets.WellFormed (t : HashBuckets α) : Prop :=
  Buckets.WellFormed (nameHash longBits) (fun data ↦ (qname data).key) t

variable {longBits qname}

theorem HashBuckets.WellFormed.lookup_eq_some (ht : t.WellFormed longBits qname) (name : DomainName)
    {data : α} : (dnsLookup longBits qname t name.rhn).2 = some data ↔
      data ∈ t.entries ∧ (qname data).key = name.key := by
  rw [dnsLookup_rhn]
  exact ht.search_eq_some

theorem HashBuckets.WellFormed.lookup_eq_none (ht : t.WellFormed longBits qname)
    (name : DomainName) : (dnsLookup longBits qname t name.rhn).2 = none ↔
      ∀ data ∈ t.entries, (qname data).key ≠ name.key := by
  rw [dnsLookup_rhn]
  exact ht.search_eq_none

theorem wellFormed_mkDnsHash : HashBuckets.WellFormed longBits qname (mkDnsHash : HashBuckets α) :=
  ⟨fun _ ↦ .nil, fun _ _ h ↦ absurd h (by simp [mkDnsHash]), fun _ ↦ .nil⟩

/-- `add_dns_hash` where the name was not found. -/
theorem HashBuckets.WellFormed.addDnsHash (ht : t.WellFormed longBits qname) {data : α}
    (hnone : (dnsLookup longBits qname t (qname data).rhn).2 = none) :
    HashBuckets.WellFormed longBits qname (Pdnsd.addDnsHash longBits qname t data) ∧
      (Pdnsd.addDnsHash longBits qname t data).entries.Perm (data :: t.entries) := by
  rw [Pdnsd.addDnsHash, ← nameHash_key, dnsLookup_rhn]
  rw [dnsLookup_rhn] at hnone
  exact Buckets.WellFormed.insertAt ht hnone

/-- `del_dns_hash` removes the entry with the name, if there is one. -/
theorem HashBuckets.WellFormed.delDnsHash (ht : t.WellFormed longBits qname) (name : DomainName) :
    HashBuckets.WellFormed longBits qname (Pdnsd.delDnsHash longBits qname t name.rhn).1 ∧
      (Pdnsd.delDnsHash longBits qname t name.rhn).2 =
        (dnsLookup longBits qname t name.rhn).2 ∧
      match (Pdnsd.delDnsHash longBits qname t name.rhn).2 with
      | some data =>
          t.entries.Perm (data :: (Pdnsd.delDnsHash longBits qname t name.rhn).1.entries)
      | none => (Pdnsd.delDnsHash longBits qname t name.rhn).1 = t := by
  rw [Pdnsd.delDnsHash]
  split
  next pos data hlookup =>
    have hfound : (t.search (nameHash longBits) (fun data ↦ (qname data).key) name.key).2 =
        some data := by
      rw [← dnsLookup_rhn, hlookup]
    have hpos : (t.search (nameHash longBits) (fun data ↦ (qname data).key) name.key).1 = pos := by
      rw [← dnsLookup_rhn, hlookup]
    obtain ⟨-, hwf, hperm⟩ := Buckets.WellFormed.eraseAt ht hfound
    rw [hpos] at hwf hperm
    rw [hlookup, ← nameHash_key]
    exact ⟨hwf, rfl, hperm⟩
  next pos hlookup => exact ⟨ht, by rw [hlookup], rfl⟩

end Lookup

section Fetch

variable {α : Type} {t : HashBuckets α}

/-- What `fetch_next` returns after a position, one after the other. -/
def HashPos.remaining (t : HashBuckets α) (pos : HashPos α) : List α :=
  pos.ent.map HashEnt.data ++
    ((List.finRange HASH_NUM_BUCKETS).drop (pos.bucket + 1)).flatMap fun i ↦
      (t i).map HashEnt.data

/-- What is found first, and what comes after it. -/
def Fetched (t : HashBuckets α) (found : Option (α × HashPos α)) (all : List α) : Prop :=
  found = none ∧ all = [] ∨
    ∃ data pos, found = some (data, pos) ∧ all = data :: pos.remaining t

theorem fetchFrom_spec (t : HashBuckets α) {k : ℕ} {l : List (Fin HASH_NUM_BUCKETS)}
    (hl : l = (List.finRange HASH_NUM_BUCKETS).drop k) :
    Fetched t (fetchFrom t l) (l.flatMap fun i ↦ (t i).map HashEnt.data) := by
  induction l generalizing k with
  | nil => exact .inl ⟨rfl, rfl⟩
  | cons i rest ih =>
    have hk : k < (List.finRange HASH_NUM_BUCKETS).length := by
      refine Nat.lt_of_not_le fun hle ↦ ?_
      rw [List.drop_of_length_le hle] at hl
      exact List.cons_ne_nil i rest hl
    rw [List.drop_eq_getElem_cons hk] at hl
    obtain ⟨hi, hrest⟩ := List.cons.inj hl
    have hval : i.val = k := by
      rw [hi, List.getElem_finRange]
      rfl
    rw [fetchFrom, List.flatMap_cons]
    cases hchain : t i with
    | nil => exact ih hrest
    | cons he ent =>
      refine .inr ⟨he.data, ⟨i, ent⟩, rfl, ?_⟩
      rw [HashPos.remaining, List.map_cons, List.cons_append, hval, ← hrest]

theorem fetchFirst_spec (t : HashBuckets α) : Fetched t (fetchFirst t) t.entries := by
  rw [fetchFirst, Buckets.entries]
  exact fetchFrom_spec t List.drop_zero.symm

theorem fetchNext_spec (t : HashBuckets α) (pos : HashPos α) :
    Fetched t (fetchNext t pos) (pos.remaining t) := by
  rw [fetchNext, HashPos.remaining]
  cases hent : pos.ent with
  | nil =>
    rw [List.map_nil, List.nil_append]
    exact fetchFrom_spec t (Eq.refl _)
  | cons he ent => exact .inr ⟨he.data, ⟨pos.bucket, ent⟩, rfl, rfl⟩

/-- The loop over the table with `fetch_next`, as long as there is an entry. -/
def fetchRest (t : HashBuckets α) : ℕ → Option (α × HashPos α) → List α
  | n + 1, some (data, pos) => data :: fetchRest t n (fetchNext t pos)
  | _, _ => []

theorem fetchRest_eq {n : ℕ} {found : Option (α × HashPos α)} {all : List α}
    (h : Fetched t found all) (hn : all.length ≤ n) : fetchRest t n found = all := by
  induction n generalizing found all with
  | zero =>
    rw [List.eq_nil_of_length_eq_zero (Nat.le_zero.mp hn), fetchRest]
    simp
  | succ n ih =>
    rcases h with ⟨rfl, rfl⟩ | ⟨data, pos, rfl, rfl⟩
    · rw [fetchRest]
      simp
    · rw [fetchRest, ih (fetchNext_spec t pos) (Nat.le_of_succ_le_succ hn)]

end Fetch

section Runs

variable {α : Type} (longBits : ℕ) (qname : α → DomainName)

/-- A change of the table. An entry is added only where its name was not found. -/
inductive HashOp (α : Type) where
  | add (data : α)
  | del (name : DomainName)

def HashOp.run (t : HashBuckets α) : HashOp α → HashBuckets α
  | .add data =>
      match (dnsLookup longBits qname t (qname data).rhn).2 with
      | some _ => t
      | none => addDnsHash longBits qname t data
  | .del name => (delDnsHash longBits qname t name.rhn).1

/-- The map that the table stands for, from names in lower case. -/
def HashOp.apply (m : List Octets → Option α) : HashOp α → List Octets → Option α
  | .add data =>
      match m (qname data).key with
      | some _ => m
      | none => Function.update m (qname data).key (some data)
  | .del name => Function.update m name.key none

/-- A table, and the map that it stands for. -/
structure Represents (t : HashBuckets α) (m : List Octets → Option α) : Prop where
  wellFormed : t.WellFormed longBits qname
  lookup : ∀ key data, m key = some data ↔ data ∈ t.entries ∧ (qname data).key = key

variable {longBits qname} {t : HashBuckets α} {m : List Octets → Option α}

theorem Represents.dnsLookup (h : Represents longBits qname t m) (name : DomainName) :
    (Pdnsd.dnsLookup longBits qname t name.rhn).2 = m name.key := by
  refine Option.ext fun data ↦ ?_
  rw [h.wellFormed.lookup_eq_some, h.lookup]

theorem Represents.run (h : Represents longBits qname t m) (op : HashOp α) :
    Represents longBits qname (op.run longBits qname t) (op.apply qname m) := by
  cases op with
  | add data =>
    have hsame := h.dnsLookup (qname data)
    rw [HashOp.run, HashOp.apply, hsame]
    cases hfound : m (qname data).key with
    | some _ => exact h
    | none =>
      obtain ⟨hwf, hperm⟩ := h.wellFormed.addDnsHash (hsame.trans hfound)
      refine ⟨hwf, fun key data' ↦ ?_⟩
      change Function.update m (qname data).key (some data) key = some data' ↔ _
      rw [hperm.mem_iff, List.mem_cons]
      by_cases hkey : key = (qname data).key
      · subst hkey
        rw [Function.update_self, Option.some.injEq]
        constructor
        · rintro rfl
          exact ⟨.inl rfl, rfl⟩
        · rintro ⟨rfl | hmem, heq⟩
          · rfl
          · exact absurd ((h.lookup _ _).mpr ⟨hmem, heq⟩) (by rw [hfound]; simp)
      · rw [Function.update_of_ne hkey, h.lookup]
        constructor
        · rintro ⟨hmem, heq⟩
          exact ⟨.inr hmem, heq⟩
        · rintro ⟨rfl | hmem, heq⟩
          · exact absurd heq.symm hkey
          · exact ⟨hmem, heq⟩
  | del name =>
    obtain ⟨hwf, hfound, hentries⟩ := h.wellFormed.delDnsHash name
    rw [h.dnsLookup] at hfound
    refine ⟨hwf, fun key data ↦ ?_⟩
    rw [hfound] at hentries
    rw [HashOp.run, HashOp.apply]
    by_cases hkey : key = name.key
    · subst hkey
      rw [Function.update_self]
      refine ⟨fun heq ↦ absurd heq (by simp), fun ⟨hmem, heq⟩ ↦ ?_⟩
      cases hm : m name.key with
      | none =>
        rw [hm] at hentries
        rw [hentries] at hmem
        exact absurd ((h.lookup _ _).mpr ⟨hmem, heq⟩) (by rw [hm]; simp)
      | some old =>
        rw [hm] at hentries
        have hnodup := (hentries.map fun data ↦ (qname data).key).nodup_iff.mp
          h.wellFormed.nodup_entries
        rw [List.map_cons, List.nodup_cons] at hnodup
        refine absurd (List.mem_map.mpr ⟨data, hmem, ?_⟩) hnodup.1
        exact heq.trans ((h.lookup _ _).mp hm).2.symm
    · rw [Function.update_of_ne hkey, h.lookup]
      cases hm : m name.key with
      | none =>
        rw [hm] at hentries
        rw [hentries]
      | some old =>
        rw [hm] at hentries
        rw [hentries.mem_iff, List.mem_cons]
        constructor
        · rintro ⟨rfl | hmem, heq⟩
          · exact absurd (heq.symm.trans ((h.lookup _ _).mp hm).2) hkey
          · exact ⟨hmem, heq⟩
        · rintro ⟨hmem, heq⟩
          exact ⟨.inr hmem, heq⟩

theorem represents_mkDnsHash :
    Represents longBits qname (mkDnsHash : HashBuckets α) fun _ ↦ none := by
  refine ⟨wellFormed_mkDnsHash, fun key data ↦ ?_⟩
  simp [Buckets.mem_entries, mkDnsHash]

variable (longBits qname) in
/-- Whatever entries are added and names deleted in whatever order: a lookup finds what a map from
names without regard to case has, and a loop over the table meets each of its entries once. -/
theorem dnsHash_correct (ops : List (HashOp α)) :
    let t := ops.foldl (HashOp.run longBits qname) mkDnsHash
    let m := ops.foldl (HashOp.apply qname) fun _ ↦ none
    (∀ name : DomainName, (Pdnsd.dnsLookup longBits qname t name.rhn).2 = m name.key) ∧
      ∀ n, t.entries.length ≤ n → (fetchRest t n (fetchFirst t)).Nodup ∧
        ∀ data, data ∈ fetchRest t n (fetchFirst t) ↔ m (qname data).key = some data := by
  have hrun : ∀ (ops : List (HashOp α)) {t m}, Represents longBits qname t m →
      Represents longBits qname (ops.foldl (HashOp.run longBits qname) t)
        (ops.foldl (HashOp.apply qname) m) := by
    intro ops
    induction ops with
    | nil => exact fun h ↦ h
    | cons op ops ih => exact fun h ↦ ih (h.run op)
  have h := hrun ops (@represents_mkDnsHash α longBits qname)
  refine ⟨h.dnsLookup, fun n hn ↦ ?_⟩
  rw [fetchRest_eq (fetchFirst_spec _) hn]
  refine ⟨h.wellFormed.nodup_entries.of_map _, fun data ↦ ?_⟩
  rw [h.lookup]
  exact ⟨fun hmem ↦ ⟨hmem, rfl⟩, fun hmem ↦ hmem.1⟩

end Runs

end Orbot.Pdnsd
