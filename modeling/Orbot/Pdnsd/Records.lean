import Orbot.Pdnsd.Decompression

/-!
# Resource records of a message

`rrs2cent` decodes the records of an answer that a name server has sent. The types with names that
may be compressed have their own cases, which are given here by the fields of the record data; the
other types keep their data as it is. What is passed to the cache is listed in its order.
-/

namespace Orbot.Pdnsd

/-- `PUTINT16` and `PUTINT32`: `count` octets, the highest first. -/
def putInt : ℕ → ℕ → Octets
  | 0, _ => []
  | count + 1, n => putInt count (n / 256) ++ [UInt8.ofNat n]

/-- `GETINT16` and `GETINT32` of the octets. -/
def getInt (octets : Octets) : ℕ := octets.foldl (fun n octet ↦ n * 256 + octet.toNat) 0

/-- A field of record data. -/
inductive RdataField where
  | octets (count : ℕ)
  | name
  | strings (count : ℕ)
  | rest
  deriving DecidableEq

def T_A : ℕ := 1
def T_NS : ℕ := 2
def T_MD : ℕ := 3
def T_MF : ℕ := 4
def T_CNAME : ℕ := 5
def T_SOA : ℕ := 6
def T_MB : ℕ := 7
def T_MG : ℕ := 8
def T_MR : ℕ := 9
def T_PTR : ℕ := 12
def T_MINFO : ℕ := 14
def T_MX : ℕ := 15
def T_RP : ℕ := 17
def T_AFSDB : ℕ := 18
def T_RT : ℕ := 21
def T_PX : ℕ := 26
def T_AAAA : ℕ := 28
def T_NXT : ℕ := 30
def T_SRV : ℕ := 33
def T_NAPTR : ℕ := 35
def T_KX : ℕ := 36
def T_A6 : ℕ := 38
def T_DNAME : ℕ := 39
def T_SINK : ℕ := 40
def T_OPT : ℕ := 41
def T_IPSECKEY : ℕ := 45
def T_RRSIG : ℕ := 46
def T_NSEC : ℕ := 47
def T_MAX : ℕ := 51

def C_IN : ℕ := 1

/-- `PDNSD_NOT_CACHED_TYPE`. -/
def PDNSD_NOT_CACHED_TYPE (type : ℕ) : Prop :=
  type < 1 ∨ T_MAX < type ∨ type ∈ [T_A6, T_DNAME, T_SINK, T_OPT]

instance (type : ℕ) : Decidable (PDNSD_NOT_CACHED_TYPE type) :=
  inferInstanceAs (Decidable (_ ∨ _ ∨ _))

/-- The cases for compressed names, which `rrs2cent` and `add_rr` have in common; none for the default
case. -/
def rdataFields (type : ℕ) : Option (List RdataField) :=
  if type ∈ [T_CNAME, T_MB, T_MD, T_MF, T_MG, T_MR, T_NS, T_PTR] then some [.name]
  else if type ∈ [T_MINFO, T_RP] then some [.name, .name]
  else if type ∈ [T_MX, T_AFSDB, T_RT, T_KX] then some [.octets 2, .name]
  else if type = T_SOA then some [.name, .name, .octets 20]
  else if type = T_PX then some [.octets 2, .name, .name]
  else if type = T_SRV then some [.octets 6, .name]
  else if type = T_NXT then some [.name, .rest]
  else if type = T_NAPTR then some [.octets 4, .strings 3, .name]
  else none

/-- The length of a number of character strings, each after its length; none if the data are too
short. -/
def stringsLength : ℕ → Octets → Option ℕ
  | 0, _ => some 0
  | _ + 1, [] => none
  | count + 1, length :: rest =>
      if rest.length < length.toNat then none
      else (stringsLength count (rest.drop length.toNat)).map (1 + length.toNat + ·)

/-- The length of a field without names; none if the data are too short. -/
def fieldLength : RdataField → Octets → Option ℕ
  | .octets count, data => if data.length < count then none else some count
  | .strings count, data => stringsLength count data
  | .rest, data => some data.length
  | .name, _ => none

/-- The octets from an offset of the message on. -/
def readOctets (msg : Octets) (ptr count : ℕ) : Except Stop Octets :=
  if ptr + count ≤ msg.length then .ok ((msg.drop ptr).take count) else .error .outside

/-- `decompress_name` within record data, which is malformed where it is too short. -/
def rdataName (msg : Octets) (bptr blcnt : ℕ) : Except Stop Decompressed :=
  match decompressName msg bptr blcnt with
  | .error (.code _) => .error (.code .RC_FORMAT)
  | result => result

/-- The fields from `bptr` on, with the names decompressed. The end of the data has to be the end of
the last field. -/
def decodeFields (msg : Octets) : List RdataField → ℕ → ℕ → Except Stop Octets
  | [], _, blcnt => if blcnt ≠ 0 then .error (.code .RC_FORMAT) else .ok []
  | .name :: fields, bptr, blcnt =>
      (rdataName msg bptr blcnt).bind fun name ↦
        (decodeFields msg fields name.src name.sz).map (name.tgt ++ ·)
  | field :: fields, bptr, blcnt =>
      (readOctets msg bptr blcnt).bind fun data ↦
        match fieldLength field data with
        | none => .error (.code .RC_FORMAT)
        | some length =>
            (decodeFields msg fields (bptr + length) (blcnt - length)).map (data.take length ++ ·)

/-- Data with a name after `lead` octets that should not be compressed, but may be. -/
def decodeUncompressed (msg : Octets) (ptr rdlength lead : ℕ) : Except Stop Octets :=
  if rdlength < lead then .error (.code .RC_FORMAT)
  else if isnormalencdomname (msg.drop (ptr + lead)) (rdlength - lead) then
    readOctets msg ptr rdlength
  else
    (rdataName msg (ptr + lead) (rdlength - lead)).bind fun name ↦
      (readOctets msg ptr lead).bind fun front ↦
        (readOctets msg name.src name.sz).map (front ++ name.tgt ++ ·)

/-- The case of `T_IPSECKEY`, by the type of the gateway. -/
def decodeIpseckey (msg : Octets) (ptr rdlength : ℕ) : Except Stop Octets :=
  if rdlength < 3 then .error (.code .RC_FORMAT)
  else
    (readOctets msg ptr rdlength).bind fun data ↦
      match (data.getD 1 0).toNat with
      | 0 => .ok data
      | 1 => if rdlength - 3 < 4 then .error (.code .RC_FORMAT) else .ok data
      | 2 => if rdlength - 3 < 16 then .error (.code .RC_FORMAT) else .ok data
      | 3 => decodeUncompressed msg ptr rdlength 3
      | _ => .error (.code .RC_FORMAT)

/-- The data of a record as they are passed to the cache. -/
def decodeRdata (msg : Octets) (type ptr rdlength : ℕ) : Except Stop Octets :=
  match rdataFields type with
  | some fields =>
      (decodeFields msg fields ptr rdlength).bind fun data ↦
        if type = T_NXT ∧ 1040 < data.length then .error (.code .RC_FORMAT) else .ok data
  | none =>
      if type = T_A ∧ rdlength ≠ 4 ∨ type = T_AAAA ∧ rdlength ≠ 16 then .error (.code .RC_FORMAT)
      else if type = T_IPSECKEY then decodeIpseckey msg ptr rdlength
      else if type = T_RRSIG then decodeUncompressed msg ptr rdlength 18
      else if type = T_NSEC then decodeUncompressed msg ptr rdlength 0
      else readOctets msg ptr rdlength

/-- The arguments of `rr_to_cache`. -/
structure CachedRr where
  oname : Octets
  type : ℕ
  ttl : ℕ
  data : Octets
  deriving DecidableEq

/-- `edns_info_t`. -/
structure EdnsInfo where
  udpsize : ℕ
  rcode : ℕ
  version : ℕ
  doFlg : ℕ
  deriving DecidableEq

/-- How far the records have been decoded. -/
structure Decoded where
  ptr : ℕ
  lcnt : ℕ
  rrs : List CachedRr
  numopt : ℕ
  edns : Option EdnsInfo
  deriving DecidableEq

/-- The information of an OPT pseudo record with the class `udpsize` and the octets `ttlp` of its
TTL. -/
def ednsInfo (msg : Octets) (udpsize : ℕ) (ttlp : Octets) : EdnsInfo where
  udpsize := udpsize
  rcode := (ttlp.getD 0 0).toNat <<< 4 ||| ((msg.getD 3 0).toNat &&& 0xf)
  version := (ttlp.getD 1 0).toNat
  doFlg := (ttlp.getD 2 0).toNat >>> 7 &&& 1

/-- The body of the loop of `rrs2cent`. -/
def decodeRr (msg : Octets) (state : Decoded) : Except Stop Decoded :=
  (decompressName msg state.ptr state.lcnt).bind fun oname ↦
    if oname.sz < 10 then .error (.code .RC_TRUNC)
    else
      (readOctets msg oname.src 10).bind fun header ↦
        let type := getInt (header.take 2)
        let cls := getInt ((header.drop 2).take 2)
        let ttlp := (header.drop 4).take 4
        let rdlength := getInt (header.drop 8)
        let ptr := oname.src + 10
        if oname.sz - 10 < rdlength then .error (.code .RC_TRUNC)
        else
          let next := { state with ptr := ptr + rdlength, lcnt := oname.sz - 10 - rdlength }
          if type = T_OPT then
            .ok { next with
              numopt := state.numopt + 1
              edns := if state.numopt = 0 then some (ednsInfo msg cls ttlp) else state.edns }
          else if PDNSD_NOT_CACHED_TYPE type ∨ cls ≠ C_IN then .ok next
          else
            (decodeRdata msg type ptr rdlength).map fun data ↦
              { next with rrs := state.rrs ++ [⟨oname.tgt, type, getInt ttlp, data⟩] }

/-- `rrs2cent` for a number of records. The records before one that stops it are in the cache entry
already; of a truncated reply they are used. -/
def rrs2cent (msg : Octets) : ℕ → Decoded → Except (Stop × Decoded) Decoded
  | 0, state => .ok state
  | recnum + 1, state =>
      match decodeRr msg state with
      | .ok next => rrs2cent msg recnum next
      | .error stop => .error (stop, state)

section Results

variable {ε α β : Type} {call : Except ε α} {next : α → Except ε β} {result : β}

theorem bind_eq_ok : call.bind next = .ok result ↔
    ∃ value, call = .ok value ∧ next value = .ok result := by
  cases call with
  | error error => simp [Except.bind]
  | ok value => simp [Except.bind]

theorem map_eq_ok {f : α → β} : call.map f = .ok result ↔
    ∃ value, call = .ok value ∧ f value = result := by
  cases call with
  | error error => simp [Except.map]
  | ok value => simp [Except.map]

theorem bind_ne_outside {call : Except Stop α} {next : α → Except Stop β}
    (h : call ≠ .error .outside)
    (hnext : ∀ value, call = .ok value → next value ≠ .error .outside) :
    call.bind next ≠ .error .outside := by
  cases call with
  | error stop => simpa [Except.bind] using h
  | ok value => exact hnext value rfl

end Results

/-- A value of a field. -/
inductive FieldValue where
  | plain (data : Octets)
  | domain (name : DomainName)

def FieldValue.bytes : FieldValue → Octets
  | .plain data => data
  | .domain name => name.rhn

def RdataField.Allows : RdataField → FieldValue → Prop
  | .octets count, .plain data => data.length = count
  | .name, .domain _ => True
  | .strings count, .plain data => stringsLength count data = some data.length
  | .rest, .plain _ => True
  | _, _ => False

/-- The values are those of the fields, in their order. -/
abbrev HasFields (fields : List RdataField) (values : List FieldValue) : Prop :=
  List.Forall₂ RdataField.Allows fields values

def valueBytes (values : List FieldValue) : Octets := values.flatMap FieldValue.bytes

/-- There is a name in transport format after `lead` octets. -/
def HasName (lead : ℕ) (data : Octets) : Prop :=
  lead ≤ data.length ∧ ∃ name : DomainName, name.rhn <+: data.drop lead

/-- The gateway of an IPSECKEY record has the form of its type. -/
def HasGateway (data : Octets) : Prop :=
  3 ≤ data.length ∧
    match (data.getD 1 0).toNat with
    | 0 => True
    | 1 => 4 ≤ data.length - 3
    | 2 => 16 ≤ data.length - 3
    | 3 => HasName 3 data
    | _ => False

/-- Record data as the cache keeps them for a type. -/
def WellFormedData (type : ℕ) (data : Octets) : Prop :=
  match rdataFields type with
  | some fields =>
      (∃ values, HasFields fields values ∧ data = valueBytes values) ∧
        (type = T_NXT → data.length ≤ 1040)
  | none =>
      (type = T_A → data.length = 4) ∧ (type = T_AAAA → data.length = 16) ∧
        (type = T_IPSECKEY → HasGateway data) ∧ (type = T_RRSIG → HasName 18 data) ∧
        (type = T_NSEC → HasName 0 data)

/-- A record that the cache can keep. -/
structure CachedRr.WellFormed (rr : CachedRr) : Prop where
  oname : ∃ name : DomainName, rr.oname = name.rhn
  type : ¬PDNSD_NOT_CACHED_TYPE rr.type
  ttl : rr.ttl < 2 ^ 32
  data : WellFormedData rr.type rr.data

variable {msg data : Octets} {ptr lcnt count : ℕ} {fields : List RdataField}

theorem readOctets_eq_ok : readOctets msg ptr count = .ok data ↔
    ptr + count ≤ msg.length ∧ data = (msg.drop ptr).take count := by
  rw [readOctets]
  split
  next hle => simp [hle, eq_comm]
  next hle => simp [hle]

theorem length_of_readOctets (h : readOctets msg ptr count = .ok data) : data.length = count := by
  obtain ⟨hle, rfl⟩ := readOctets_eq_ok.mp h
  rw [List.length_take, List.length_drop]
  omega

theorem readOctets_ne_outside (h : ptr + count ≤ msg.length) :
    readOctets msg ptr count ≠ .error .outside := by
  rw [readOctets, if_pos h]
  simp

theorem rdataName_ne_outside (msg : Octets) (bptr blcnt : ℕ) :
    rdataName msg bptr blcnt ≠ .error .outside := by
  have hname := decompressName_ne_outside msg bptr blcnt
  rw [rdataName]
  split
  next => simp
  next => exact hname

/-- A name of record data, and where the data go on. -/
theorem rdataName_eq_ok {bptr blcnt : ℕ} {result : Decompressed} :
    rdataName msg bptr blcnt = .ok result ↔ decompressName msg bptr blcnt = .ok result := by
  rw [rdataName]
  split
  next rc hname => simp [hname]
  next => rfl

theorem exists_name_of_rdataName {bptr blcnt : ℕ} {result : Decompressed}
    (h : rdataName msg bptr blcnt = .ok result) :
    (∃ name : DomainName, result.tgt = name.rhn) ∧ result.src + result.sz = bptr + blcnt := by
  obtain ⟨name, hops, size, -, -, hsize, rfl⟩ :=
    decompressName_eq_ok.mp (rdataName_eq_ok.mp h)
  exact ⟨⟨name, rfl⟩, by simp only; omega⟩

theorem stringsLength_le {length : ℕ} (h : stringsLength count data = some length) :
    length ≤ data.length ∧ stringsLength count (data.take length) = some length := by
  fun_induction stringsLength count data generalizing length with
  | case1 data =>
    obtain rfl := Option.some.inj h
    exact ⟨Nat.zero_le _, rfl⟩
  | case2 => cases h
  | case3 => cases h
  | case4 count first rest hroom ih =>
    obtain ⟨later, hlater, rfl⟩ := Option.map_eq_some_iff.mp h
    obtain ⟨hle, htake⟩ := ih hlater
    rw [List.length_drop] at hle
    refine ⟨by rw [List.length_cons]; omega, ?_⟩
    rw [Nat.add_assoc, Nat.add_comm 1, List.take_succ_cons, stringsLength,
      if_neg (by rw [List.length_take]; omega), List.drop_take, Nat.add_sub_cancel_left, htake,
      Option.map_some]
    congr 1
    omega

/-- What is copied for a field is a value of it. -/
theorem fieldLength_le {field : RdataField} {length : ℕ} (h : fieldLength field data = some length) :
    length ≤ data.length ∧ field.Allows (.plain (data.take length)) := by
  cases field with
  | octets count =>
    rw [fieldLength] at h
    split at h
    next => cases h
    next hle =>
      obtain rfl := Option.some.inj h
      exact ⟨Nat.not_lt.mp hle, List.length_take_of_le (Nat.not_lt.mp hle)⟩
  | name => cases h
  | strings count =>
    obtain ⟨hle, htake⟩ := stringsLength_le h
    refine ⟨hle, ?_⟩
    change stringsLength count _ = some _
    rw [htake, List.length_take_of_le hle]
  | rest =>
    obtain rfl := Option.some.inj h
    exact ⟨Nat.le_refl _, trivial⟩

/-- Fields are decoded within the data, which they fill. -/
theorem decodeFields_spec {bptr blcnt : ℕ} (hinside : bptr + blcnt ≤ msg.length) :
    decodeFields msg fields bptr blcnt ≠ .error .outside ∧
      ∀ data, decodeFields msg fields bptr blcnt = .ok data →
        ∃ values, HasFields fields values ∧ data = valueBytes values := by
  fun_induction decodeFields msg fields bptr blcnt with
  | case1 bptr blcnt hjunk => simp
  | case2 bptr blcnt hend =>
    refine ⟨by simp, fun data hdata ↦ ⟨[], .nil, (Except.ok.inj hdata).symm⟩⟩
  | case3 fields bptr blcnt ih =>
    constructor
    · refine bind_ne_outside (rdataName_ne_outside _ _ _) fun name hname ↦ map_ne_outside ?_ _
      exact (ih name (by rw [(exists_name_of_rdataName hname).2]; exact hinside)).1
    · intro data hdata
      obtain ⟨found, hfound, hrest⟩ := bind_eq_ok.mp hdata
      obtain ⟨later, hlater, rfl⟩ := map_eq_ok.mp hrest
      obtain ⟨⟨name, hname⟩, hend⟩ := exists_name_of_rdataName hfound
      obtain ⟨values, hvalues, rfl⟩ := (ih found (by rw [hend]; exact hinside)).2 later hlater
      exact ⟨.domain name :: values, .cons trivial hvalues, by rw [hname]; rfl⟩
  | case4 field fields bptr blcnt hne ih =>
    constructor
    · refine bind_ne_outside (readOctets_ne_outside hinside) fun data hdata ↦ ?_
      cases hlength : fieldLength field data with
      | none => simp
      | some length =>
        have hle := (fieldLength_le hlength).1
        rw [length_of_readOctets hdata] at hle
        exact map_ne_outside (ih length (by omega)).1 _
    · intro data hdata
      obtain ⟨whole, hwhole, hrest⟩ := bind_eq_ok.mp hdata
      cases hlength : fieldLength field whole with
      | none => rw [hlength] at hrest; cases hrest
      | some length =>
        rw [hlength] at hrest
        obtain ⟨later, hlater, rfl⟩ := map_eq_ok.mp hrest
        obtain ⟨hle, hallows⟩ := fieldLength_le hlength
        rw [length_of_readOctets hwhole] at hle
        obtain ⟨values, hvalues, rfl⟩ := (ih length (by omega)).2 later hlater
        exact ⟨.plain (whole.take length) :: values, .cons hallows hvalues, rfl⟩

/-- A name that is not compressed after `lead` octets, which stay as they are. -/
theorem decodeUncompressed_spec {rdlength lead : ℕ} (hinside : ptr + rdlength ≤ msg.length) :
    decodeUncompressed msg ptr rdlength lead ≠ .error .outside ∧
      ∀ data, decodeUncompressed msg ptr rdlength lead = .ok data →
        HasName lead data ∧ data.take lead = (msg.drop ptr).take lead := by
  rw [decodeUncompressed]
  split
  · simp
  next hlead =>
    split
    next hnormal =>
      refine ⟨readOctets_ne_outside hinside, fun data hdata ↦ ?_⟩
      obtain ⟨-, rfl⟩ := readOctets_eq_ok.mp hdata
      obtain ⟨name, hstart, hle⟩ := (isnormalencdomname_iff _ _).mp hnormal
      refine ⟨⟨?_, name, ?_⟩, ?_⟩
      · rw [length_of_readOctets hdata]
        exact Nat.not_lt.mp hlead
      · rw [List.drop_take, List.drop_drop]
        exact List.prefix_take_iff.mpr ⟨hstart, hle⟩
      · rw [List.take_take, Nat.min_eq_left (Nat.not_lt.mp hlead)]
    next =>
      constructor
      · refine bind_ne_outside (rdataName_ne_outside _ _ _) fun name hname ↦ ?_
        have hend := (exists_name_of_rdataName hname).2
        exact bind_ne_outside (readOctets_ne_outside (by omega)) fun front _ ↦
          map_ne_outside (readOctets_ne_outside (by omega)) _
      · intro data hdata
        obtain ⟨found, hfound, hrest⟩ := bind_eq_ok.mp hdata
        obtain ⟨front, hfront, hrest⟩ := bind_eq_ok.mp hrest
        obtain ⟨later, -, rfl⟩ := map_eq_ok.mp hrest
        obtain ⟨⟨name, hname⟩, -⟩ := exists_name_of_rdataName hfound
        have hlength := length_of_readOctets hfront
        refine ⟨⟨?_, name, ?_⟩, ?_⟩
        · rw [List.length_append, List.length_append]
          omega
        · rw [List.append_assoc, ← hlength, List.drop_left, hname]
          exact List.prefix_append _ _
        · rw [List.append_assoc, ← (readOctets_eq_ok.mp hfront).2]
          exact List.take_left' hlength

theorem decodeIpseckey_spec {rdlength : ℕ} (hinside : ptr + rdlength ≤ msg.length) :
    decodeIpseckey msg ptr rdlength ≠ .error .outside ∧
      ∀ data, decodeIpseckey msg ptr rdlength = .ok data → HasGateway data := by
  obtain ⟨hne, hok⟩ := @decodeUncompressed_spec msg ptr rdlength 3 hinside
  rw [decodeIpseckey]
  split
  · simp
  next hlength =>
    constructor
    · refine bind_ne_outside (readOctets_ne_outside hinside) fun data _ ↦ ?_
      split
      · simp
      · split <;> simp
      · split <;> simp
      · exact hne
      · simp
    · intro data hdata
      obtain ⟨whole, hwhole, hrest⟩ := bind_eq_ok.mp hdata
      have hwholelength := length_of_readOctets hwhole
      split at hrest
      next hgateway =>
        obtain rfl := Except.ok.inj hrest
        exact ⟨by omega, by rw [hgateway]; trivial⟩
      next hgateway =>
        split at hrest
        · cases hrest
        · obtain rfl := Except.ok.inj hrest
          exact ⟨by omega, by rw [hgateway]; simp only; omega⟩
      next hgateway =>
        split at hrest
        · cases hrest
        · obtain rfl := Except.ok.inj hrest
          exact ⟨by omega, by rw [hgateway]; simp only; omega⟩
      next hgateway =>
        obtain ⟨hname, hfront⟩ := hok data hrest
        -- the octets before the name are those of the message
        have hsame : data.getD 1 0 = whole.getD 1 0 := by
          have hat : (data.take 3)[1]? = (whole.take 3)[1]? := by
            rw [hfront, (readOctets_eq_ok.mp hwhole).2, List.take_take, Nat.min_eq_left (by omega)]
          rw [List.getElem?_take_of_lt (by decide), List.getElem?_take_of_lt (by decide)] at hat
          rw [List.getD_eq_getElem?_getD, List.getD_eq_getElem?_getD, hat]
        exact ⟨hname.1, by rw [hsame, hgateway]; exact hname⟩
      next => cases hrest

/-- The data of a record are decoded within the record, and are those that the cache keeps. -/
theorem decodeRdata_spec {type rdlength : ℕ} (hinside : ptr + rdlength ≤ msg.length) :
    decodeRdata msg type ptr rdlength ≠ .error .outside ∧
      ∀ data, decodeRdata msg type ptr rdlength = .ok data → WellFormedData type data := by
  rw [decodeRdata]
  cases hfields : rdataFields type with
  | some fields =>
    obtain ⟨hne, hok⟩ := @decodeFields_spec msg fields ptr rdlength hinside
    constructor
    · refine bind_ne_outside hne fun data _ ↦ ?_
      split <;> simp
    · intro data hdata
      obtain ⟨decoded, hdecoded, hrest⟩ := bind_eq_ok.mp hdata
      split at hrest
      · cases hrest
      next hlength =>
        obtain rfl := Except.ok.inj hrest
        rw [WellFormedData, hfields]
        exact ⟨hok decoded hdecoded, fun htype ↦ by
          rw [not_and] at hlength
          exact Nat.not_lt.mp (hlength htype)⟩
  | none =>
    simp only
    constructor
    · split
      · simp
      split
      · exact (decodeIpseckey_spec hinside).1
      split
      · exact (decodeUncompressed_spec hinside).1
      split
      · exact (decodeUncompressed_spec hinside).1
      · exact readOctets_ne_outside hinside
    · intro data hdata
      rw [WellFormedData, hfields]
      have hne : T_IPSECKEY ≠ T_A ∧ T_IPSECKEY ≠ T_AAAA ∧ T_IPSECKEY ≠ T_RRSIG ∧
          T_IPSECKEY ≠ T_NSEC ∧ T_RRSIG ≠ T_A ∧ T_RRSIG ≠ T_AAAA ∧ T_RRSIG ≠ T_NSEC ∧
          T_NSEC ≠ T_A ∧ T_NSEC ≠ T_AAAA := by decide
      split at hdata
      · cases hdata
      next hlength =>
        split at hdata
        next htype =>
          have hgateway := (decodeIpseckey_spec hinside).2 data hdata
          simp [htype, hne, hgateway]
        next hipseckey =>
          split at hdata
          next htype =>
            have hname := ((decodeUncompressed_spec hinside).2 data hdata).1
            simp [htype, hne, hne.2.2.1.symm, hname]
          next hrrsig =>
            split at hdata
            next htype =>
              have hname := ((decodeUncompressed_spec hinside).2 data hdata).1
              simp [htype, hne, hne.2.2.2.1.symm, hne.2.2.2.2.2.2.1.symm, hname]
            next hnsec =>
              rw [length_of_readOctets hdata]
              rw [not_or, not_and, not_and, not_not, not_not] at hlength
              exact ⟨hlength.1, hlength.2, fun htype ↦ absurd htype hipseckey,
                fun htype ↦ absurd htype hrrsig, fun htype ↦ absurd htype hnsec⟩

theorem getInt_lt (octets : Octets) : getInt octets < 256 ^ octets.length := by
  have hfold (n : ℕ) (octets : Octets) :
      octets.foldl (fun n octet ↦ n * 256 + octet.toNat) n < (n + 1) * 256 ^ octets.length := by
    induction octets generalizing n with
    | nil => simp
    | cons octet octets ih =>
      rw [List.foldl_cons, List.length_cons, Nat.pow_succ]
      have hlt := octet.toNat_lt
      have hle : (n * 256 + octet.toNat + 1) * 256 ^ octets.length ≤
          (n + 1) * 256 * 256 ^ octets.length := Nat.mul_le_mul_right _ (by omega)
      have hih := ih (n * 256 + octet.toNat)
      rw [Nat.mul_comm (256 ^ octets.length), ← Nat.mul_assoc]
      exact Nat.lt_of_lt_of_le hih hle
  simpa [getInt] using hfold 0 octets

/-- What one record adds. -/
structure DecodesOne (msg : Octets) (state next : Decoded) : Prop where
  rrs : ∃ added : List CachedRr, next.rrs = state.rrs ++ added ∧ added.length ≤ 1 ∧
    ∀ rr ∈ added, rr.WellFormed
  forward : state.ptr < next.ptr
  ends : next.ptr + next.lcnt = state.ptr + state.lcnt

theorem decodeRr_spec {state : Decoded} (hinside : state.lcnt ≤ msg.length - state.ptr) :
    decodeRr msg state ≠ .error .outside ∧
      ∀ next, decodeRr msg state = .ok next → DecodesOne msg state next := by
  have hname {oname : Decompressed} (h : decompressName msg state.ptr state.lcnt = .ok oname) :
      (∃ name : DomainName, oname.tgt = name.rhn) ∧ state.ptr < oname.src ∧
        oname.src + oname.sz = state.ptr + state.lcnt := by
    obtain ⟨name, hops, size, hat, -, hsize, rfl⟩ := decompressName_eq_ok.mp h
    have hpos := hat.size_pos
    exact ⟨⟨name, rfl⟩, by simp only; omega, by simp only; omega⟩
  rw [decodeRr]
  constructor
  · refine bind_ne_outside (decompressName_ne_outside _ _ _) fun oname honame ↦ ?_
    obtain ⟨-, hforward, hend⟩ := hname honame
    split
    · simp
    · refine bind_ne_outside (readOctets_ne_outside (by omega)) fun header _ ↦ ?_
      simp only
      split
      · simp
      split
      · simp
      split
      · simp
      · exact map_ne_outside (decodeRdata_spec (by omega)).1 _
  · intro next hnext
    obtain ⟨oname, honame, hrest⟩ := bind_eq_ok.mp hnext
    obtain ⟨howner, hforward, hend⟩ := hname honame
    split at hrest
    · cases hrest
    · obtain ⟨header, -, hrest⟩ := bind_eq_ok.mp hrest
      simp only at hrest
      split at hrest
      · cases hrest
      next hroom =>
        have hends : oname.src + 10 + getInt (header.drop 8) +
            (oname.sz - 10 - getInt (header.drop 8)) = state.ptr + state.lcnt := by omega
        split at hrest
        · obtain rfl := Except.ok.inj hrest
          exact ⟨⟨[], by simp, by simp, by simp⟩, by simp only; omega, hends⟩
        split at hrest
        · obtain rfl := Except.ok.inj hrest
          exact ⟨⟨[], by simp, by simp, by simp⟩, by simp only; omega, hends⟩
        next hcached =>
          obtain ⟨data, hdata, rfl⟩ := map_eq_ok.mp hrest
          refine ⟨⟨[_], rfl, Nat.le_refl _, ?_⟩, by simp only; omega, hends⟩
          intro rr hmem
          rw [List.mem_singleton.mp hmem]
          rw [not_or] at hcached
          refine ⟨howner, hcached.1, ?_, (decodeRdata_spec (by omega)).2 data hdata⟩
          have hlt := getInt_lt ((header.drop 4).take 4)
          have hle : ((header.drop 4).take 4).length ≤ 4 := List.length_take_le _ _
          exact Nat.lt_of_lt_of_le hlt (Nat.pow_le_pow_right (by decide) hle)

/-- The state that `rrs2cent` leaves, whether it stops or not. -/
def Leaves (result : Except (Stop × Decoded) Decoded) (final : Decoded) : Prop :=
  result = .ok final ∨ ∃ stop, result = .error (stop, final)

/-- The records of a number of steps. -/
theorem rrs2cent_spec {recnum : ℕ} {state : Decoded}
    (hinside : state.lcnt ≤ msg.length - state.ptr) :
    (∀ final, rrs2cent msg recnum state ≠ .error (.outside, final)) ∧
      ∀ final, Leaves (rrs2cent msg recnum state) final →
        (∃ added : List CachedRr, final.rrs = state.rrs ++ added ∧ added.length ≤ recnum ∧
          ∀ rr ∈ added, rr.WellFormed) ∧ final.ptr + final.lcnt = state.ptr + state.lcnt := by
  have hnone : ∃ added : List CachedRr, state.rrs = state.rrs ++ added ∧ added.length ≤ recnum ∧
      ∀ rr ∈ added, rr.WellFormed := ⟨[], by simp, by simp, by simp⟩
  induction recnum generalizing state with
  | zero =>
    refine ⟨fun final ↦ by simp [rrs2cent], fun final hfinal ↦ ?_⟩
    rcases hfinal with hok | ⟨stop, hstop⟩
    · obtain rfl := Except.ok.inj hok
      exact ⟨hnone, rfl⟩
    · cases hstop
  | succ recnum ih =>
    obtain ⟨hne, hok⟩ := decodeRr_spec hinside
    rw [rrs2cent]
    cases hdecoded : decodeRr msg state with
    | error stop =>
      refine ⟨fun final herror ↦ ?_, fun final hfinal ↦ ?_⟩
      · obtain ⟨rfl, -⟩ := Prod.mk.inj (Except.error.inj herror)
        exact hne hdecoded
      · rcases hfinal with hfinal | ⟨stop', hfinal⟩
        · cases hfinal
        · obtain ⟨-, rfl⟩ := Prod.mk.inj (Except.error.inj hfinal)
          exact ⟨hnone, rfl⟩
    | ok next =>
      obtain ⟨⟨first, hfirst, hone, hwf⟩, hforward, hends⟩ := hok next hdecoded
      obtain ⟨houtside, hleaves⟩ := @ih next (by omega) ⟨[], by simp, by simp, by simp⟩
      refine ⟨houtside, fun final hfinal ↦ ?_⟩
      obtain ⟨⟨later, hlater, hcount, hwf'⟩, hends'⟩ := hleaves final hfinal
      refine ⟨⟨first ++ later, ?_, ?_, ?_⟩, hends'.trans hends⟩
      · rw [hlater, hfirst, List.append_assoc]
      · rw [List.length_append]
        omega
      · intro rr hmem
        exact (List.mem_append.mp hmem).elim (hwf rr) (hwf' rr)

/-- Whatever a name server sends, `rrs2cent` stays within the message, and passes records to the cache
that are well formed, also when it stops with an error: their owners and the names of their data are
names in transport format, and the addresses have their lengths. -/
theorem rrs2cent_correct (msg : Octets) (recnum ptr : ℕ) :
    (∀ final, rrs2cent msg recnum ⟨ptr, msg.length - ptr, [], 0, none⟩ ≠
        .error (.outside, final)) ∧
      ∀ final, Leaves (rrs2cent msg recnum ⟨ptr, msg.length - ptr, [], 0, none⟩) final →
        final.rrs.length ≤ recnum ∧ (∀ rr ∈ final.rrs, rr.WellFormed) ∧
          final.ptr + final.lcnt = ptr + (msg.length - ptr) := by
  obtain ⟨hne, hleaves⟩ :=
    @rrs2cent_spec msg recnum ⟨ptr, msg.length - ptr, [], 0, none⟩ (Nat.le_refl _)
  refine ⟨hne, fun final hfinal ↦ ?_⟩
  obtain ⟨⟨added, hadded, hcount, hwf⟩, hends⟩ := hleaves final hfinal
  rw [List.nil_append] at hadded
  exact ⟨hadded ▸ hcount, hadded ▸ hwf, hends⟩

end Orbot.Pdnsd
