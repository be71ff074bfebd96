import Mathlib.Data.List.Infix
import Orbot.Pdnsd.Compression
import Orbot.Pdnsd.Records

/-!
# Composition

`add_rr` appends a record of the cache to an answer. The names in it are compressed, so that the record
depends on the message before it. A failed assertion, which ends the daemon, and a read outside of
the record data are none.
-/

namespace Orbot.Pdnsd

/-- A bit field of four bits. -/
def nibble (value : ℕ) : Fin 16 := Fin.ofNat 16 value

/-- `dns_hdr_t`. -/
structure DnsHdr where
  id : UInt16
  rd : Bool
  tc : Bool
  aa : Bool
  opcode : Fin 16
  qr : Bool
  rcode : Fin 16
  cd : Bool
  ad : Bool
  z : Bool
  ra : Bool
  qdcount : UInt16
  ancount : UInt16
  nscount : UInt16
  arcount : UInt16
  deriving DecidableEq

/-- The flags of the third octet of a message. -/
def DnsHdr.queryFlags (hdr : DnsHdr) : ℕ :=
  hdr.rd.toNat + 2 * hdr.tc.toNat + 4 * hdr.aa.toNat + 8 * hdr.opcode.val + 128 * hdr.qr.toNat

/-- The flags of the fourth octet. -/
def DnsHdr.replyFlags (hdr : DnsHdr) : ℕ :=
  hdr.rcode.val + 16 * hdr.cd.toNat + 32 * hdr.ad.toNat + 64 * hdr.z.toNat + 128 * hdr.ra.toNat

/-- The twelve octets of a header. -/
def DnsHdr.bytes (hdr : DnsHdr) : Octets :=
  putInt 2 hdr.id.toNat ++ [UInt8.ofNat hdr.queryFlags, UInt8.ofNat hdr.replyFlags] ++
    putInt 2 hdr.qdcount.toNat ++ putInt 2 hdr.ancount.toNat ++ putInt 2 hdr.nscount.toNat ++
    putInt 2 hdr.arcount.toNat

/-- The sections of an answer. -/
inductive MessageSection where
  | S_ANSWER
  | S_AUTHORITY
  | S_ADDITIONAL
  deriving DecidableEq

/-- A message under construction: what follows the header, and the compression buffer. -/
structure Answer where
  hdr : DnsHdr
  body : Octets
  cb : List Compel
  deriving DecidableEq

/-- The size of the message. -/
def Answer.sz (ans : Answer) : ℕ := 12 + ans.body.length

/-- A section gets one more record. -/
def DnsHdr.count (hdr : DnsHdr) : MessageSection → DnsHdr
  | .S_ANSWER => { hdr with ancount := hdr.ancount + 1 }
  | .S_AUTHORITY => { hdr with nscount := hdr.nscount + 1 }
  | .S_ADDITIONAL => { hdr with arcount := hdr.arcount + 1 }

/-- The cases for compressed names of `add_rr`: `ilen` octets of the data have been read, and `out` has
been written behind the offset `offs`. -/
def addFields (data : Octets) (offs : ℕ) :
    List RdataField → ℕ → Octets → List Compel → Option (Octets × List Compel)
  | [], _, out, cb => if data.length < out.length then none else some (out, cb)
  | .name :: fields, ilen, out, cb =>
      (compressName (data.drop ilen) (offs + out.length) cb).bind fun name ↦
        let ilen := ilen + rhnlen (data.drop ilen)
        if data.length < ilen ∨ fields ≠ [] ∧ ilen < (out ++ name.1).length then none
        else addFields data offs fields ilen (out ++ name.1) name.2
  | field :: fields, ilen, out, cb =>
      (fieldLength field (data.drop ilen)).bind fun length ↦
        if fields ≠ [] ∧ data.length ≤ ilen + length then none
        else
          addFields data offs fields (ilen + length) (out ++ (data.drop ilen).take length) cb

/-- What `add_rr` writes for the data of a record at `offs`. -/
def addRdata (type : ℕ) (data : Octets) (offs : ℕ) (cb : List Compel) :
    Option (Octets × List Compel) :=
  match rdataFields type with
  | some fields => addFields data offs fields 0 [] cb
  | none => some (data, cb)

/-- `rr_hdr_t`. -/
def rrHdr (type cls ttl rdlength : ℕ) : Octets :=
  putInt 2 type ++ putInt 2 cls ++ putInt 4 ttl ++ putInt 2 rdlength

/-- `add_rr`. A record of the additional section that makes the message longer than `udp` allows is
taken back, but not its names in the compression buffer. -/
def addRr (ans : Answer) (rrn : Octets) (type ttl : ℕ) (data : Octets) (sect : MessageSection)
    (udp : Option ℕ) : Option Answer :=
  (compressName rrn ans.sz ans.cb).bind fun owner ↦
    (addRdata type data (ans.sz + owner.1.length + 10) owner.2).map fun rdata ↦
      let added := owner.1 ++ rrHdr type C_IN ttl rdata.1.length ++ rdata.1
      if (∃ limit ∈ udp, limit < ans.sz + added.length) ∧ sect = .S_ADDITIONAL then
        { ans with cb := rdata.2 }
      else ⟨ans.hdr.count sect, ans.body ++ added, rdata.2⟩

/-- The octets of an OPT pseudo record. -/
def optPseudoRr (udpsize rcode ednsver zflags : ℕ) : Octets :=
  0 :: (putInt 2 T_OPT ++ putInt 2 udpsize ++
    [UInt8.ofNat (rcode >>> 4), UInt8.ofNat ednsver] ++ putInt 2 zflags ++ putInt 2 0)

/-- `add_opt_pseudo_rr`. -/
def addOptPseudoRr (ans : Answer) (udpsize rcode ednsver zflags : ℕ) : Answer :=
  { ans with
    hdr := ans.hdr.count .S_ADDITIONAL
    body := ans.body ++ optPseudoRr udpsize rcode ednsver zflags }

@[simp] theorem length_putInt (count n : ℕ) : (putInt count n).length = count := by
  induction count generalizing n with
  | zero => rfl
  | succ count ih => rw [putInt, List.length_append, ih, List.length_singleton]

theorem getInt_concat (octets : Octets) (octet : UInt8) :
    getInt (octets ++ [octet]) = getInt octets * 256 + octet.toNat := by
  simp [getInt]

/-- What is put is got again, if there is room for it. -/
theorem getInt_putInt {count n : ℕ} (h : n < 256 ^ count) : getInt (putInt count n) = n := by
  induction count generalizing n with
  | zero =>
    obtain rfl : n = 0 := by simpa using h
    rfl
  | succ count ih =>
    rw [Nat.pow_succ] at h
    rw [putInt, getInt_concat, ih (Nat.div_lt_of_lt_mul (by omega)), UInt8.toNat_ofNat']
    omega

/-- Values that are the same but for upper and lower case in names. -/
def SameValue : FieldValue → FieldValue → Prop
  | .plain data, .plain data' => data = data'
  | .domain name, .domain name' => foldLabels name.labels = foldLabels name'.labels
  | _, _ => False

abbrev SameValues (values values' : List FieldValue) : Prop :=
  List.Forall₂ SameValue values values'

/-- Record data that are the same but for upper and lower case in names. -/
def SameData (type : ℕ) (data data' : Octets) : Prop :=
  match rdataFields type with
  | some fields => ∃ values values', HasFields fields values ∧ data = valueBytes values ∧
      data' = valueBytes values' ∧ SameValues values values'
  | none => data = data'

/-- Values that stand in a message between two offsets; the names may be compressed. -/
inductive ValuesAt (msg : Octets) : ℕ → List FieldValue → ℕ → Prop
  | nil {ptr : ℕ} : ValuesAt msg ptr [] ptr
  | plain {ptr next : ℕ} {data : Octets} {values : List FieldValue} (h : data <+: msg.drop ptr)
      (hrest : ValuesAt msg (ptr + data.length) values next) :
      ValuesAt msg ptr (.plain data :: values) next
  | domain {ptr next hops size : ℕ} {name : DomainName} {values : List FieldValue}
      (h : NameAt msg ptr name.labels hops size) (hhops : hops ≤ 128)
      (hrest : ValuesAt msg (ptr + size) values next) :
      ValuesAt msg ptr (.domain name :: values) next

/-- The fields end where the data do, and a field that does not is followed by a name. -/
def Proper : List RdataField → Prop
  | [] => True
  | .name :: fields => Proper fields
  | .rest :: fields => fields = []
  | _ :: fields => (fields = [] ∨ .name ∈ fields) ∧ Proper fields

variable {msg : Octets} {ptr next : ℕ} {values : List FieldValue} {fields : List RdataField}
  {cb cb' : List Compel} {out data : Octets}

theorem proper_rdataFields {type : ℕ} (h : rdataFields type = some fields) : Proper fields := by
  revert h
  rw [rdataFields]
  repeat' split
  all_goals
    intro h
    cases h
  all_goals simp [Proper]

theorem ValuesAt.append (h : ValuesAt msg ptr values next) (more : Octets) :
    ValuesAt (msg ++ more) ptr values next := by
  induction h with
  | nil => exact .nil
  | plain h _ ih =>
    refine .plain (h.trans ?_) ih
    rw [List.drop_append]
    exact List.prefix_append _ _
  | domain h hhops _ ih => exact .domain (h.append more) hhops ih

theorem ValuesAt.le (h : ValuesAt msg ptr values next) : ptr ≤ next := by
  induction h with
  | nil => exact le_rfl
  | plain _ _ ih => omega
  | domain _ _ _ ih => omega

theorem stringsLength_of_start {count : ℕ} {whole : Octets} {length : ℕ}
    (h : stringsLength count data = some length) (hstart : data <+: whole) :
    stringsLength count whole = some length := by
  obtain ⟨more, rfl⟩ := hstart
  fun_induction stringsLength count data generalizing length with
  | case1 data => exact h
  | case2 => cases h
  | case3 => cases h
  | case4 count first rest hroom ih =>
    obtain ⟨later, hlater, rfl⟩ := Option.map_eq_some_iff.mp h
    have hdrop : (rest ++ more).drop first.toNat = rest.drop first.toNat ++ more :=
      List.drop_append_of_le_length (Nat.not_lt.mp hroom)
    rw [List.cons_append, stringsLength, if_neg (by rw [List.length_append]; omega), hdrop,
      ih hlater, Option.map_some]

/-- The length of a field is found in any data that begin with its value. -/
theorem fieldLength_of_allows {field : RdataField} {whole : Octets}
    (h : field.Allows (.plain data)) (hstart : data <+: whole)
    (hrest : field = .rest → whole.length = data.length) :
    fieldLength field whole = some data.length := by
  have hlength := hstart.length_le
  cases field with
  | octets count =>
    rw [fieldLength, if_neg (by rw [show count = data.length from h.symm]; omega)]
    exact congrArg some h.symm
  | name => exact h.elim
  | strings count => exact stringsLength_of_start h hstart
  | rest => exact congrArg some (hrest rfl)

/-- The cases of the fields without names. -/
theorem decodeFields_plain {field : RdataField} (hne : field ≠ .name) (bptr blcnt : ℕ) :
    decodeFields msg (field :: fields) bptr blcnt =
      (readOctets msg bptr blcnt).bind fun data ↦
        match fieldLength field data with
        | none => .error (.code .RC_FORMAT)
        | some length =>
            (decodeFields msg fields (bptr + length) (blcnt - length)).map
              (data.take length ++ ·) := by
  cases field with
  | name => exact absurd rfl hne
  | octets count => rfl
  | strings count => rfl
  | rest => rfl

theorem RdataField.Allows.ne_name {field : RdataField} (h : field.Allows (.plain data)) :
    field ≠ .name := by
  rintro rfl
  exact h

theorem Proper.tail {field : RdataField} (h : Proper (field :: fields)) : Proper fields := by
  cases field with
  | name => exact h
  | octets count => exact h.2
  | strings count => exact h.2
  | rest =>
    rw [show fields = [] from h]
    trivial

/-- Names that stand in the data with the values of the other fields are decoded with them. -/
theorem decodeFields_of_valuesAt (hproper : Proper fields) (hfields : HasFields fields values)
    (h : ValuesAt msg ptr values next) (hinside : next ≤ msg.length) :
    decodeFields msg fields ptr (next - ptr) = .ok (valueBytes values) := by
  induction hfields generalizing ptr with
  | nil =>
    cases h
    rw [Nat.sub_self, decodeFields, if_neg (by simp)]
    rfl
  | @cons field value fields values hallows hfields ih =>
    cases h with
    | @domain _ _ hops size name _ h hhops hrest =>
      cases field with
      | name =>
        have hle := hrest.le
        have hname : rdataName msg ptr (next - ptr) =
            .ok ⟨name.rhn, ptr + size, next - (ptr + size)⟩ :=
          rdataName_eq_ok.mpr (decompressName_eq_ok.mpr
            ⟨name, hops, size, h, by omega, by omega, by rw [Nat.sub_sub]⟩)
        rw [decodeFields, hname, Except.bind, ih hproper hrest, Except.map]
        rfl
      | octets count => exact hallows.elim
      | strings count => exact hallows.elim
      | rest => exact hallows.elim
    | @plain _ _ data _ h hrest =>
      have hle := hrest.le
      have hread : readOctets msg ptr (next - ptr) = .ok ((msg.drop ptr).take (next - ptr)) :=
        readOctets_eq_ok.mpr ⟨by omega, rfl⟩
      have hstart : data <+: (msg.drop ptr).take (next - ptr) :=
        List.prefix_take_iff.mpr ⟨h, by omega⟩
      have hlength : fieldLength field ((msg.drop ptr).take (next - ptr)) = some data.length := by
        refine fieldLength_of_allows hallows hstart fun hfield ↦ ?_
        rw [hfield] at hproper
        rw [show fields = [] from hproper] at hfields
        cases hfields
        cases hrest
        rw [Nat.add_sub_cancel_left, List.length_take, List.length_drop]
        omega
      rw [decodeFields_plain hallows.ne_name, hread, Except.bind]
      simp only [hlength]
      rw [Nat.sub_sub, ih hproper.tail hrest, Except.map,
        ← List.prefix_iff_eq_take.mp hstart]
      rfl

/-- A name that is not compressed is decoded as it is. -/
theorem decodeUncompressed_of_start {lead : ℕ} (hname : HasName lead data)
    (hstart : data <+: msg.drop ptr) (hinside : ptr + data.length ≤ msg.length) :
    decodeUncompressed msg ptr data.length lead = .ok data := by
  obtain ⟨hlead, name, hrhn⟩ := hname
  have hnormal : isnormalencdomname (msg.drop (ptr + lead)) (data.length - lead) = true := by
    refine (isnormalencdomname_iff _ _).mpr ⟨name, ?_, ?_⟩
    · rw [← List.drop_drop]
      exact hrhn.trans (hstart.drop lead)
    · have hle := hrhn.length_le
      rwa [List.length_drop] at hle
  rw [decodeUncompressed, if_neg (Nat.not_lt.mpr hlead), if_pos hnormal]
  exact readOctets_eq_ok.mpr ⟨hinside, List.prefix_iff_eq_take.mp hstart⟩

theorem decodeIpseckey_of_start (hgateway : HasGateway data) (hstart : data <+: msg.drop ptr)
    (hinside : ptr + data.length ≤ msg.length) :
    decodeIpseckey msg ptr data.length = .ok data := by
  obtain ⟨hlength, hgateway⟩ := hgateway
  have hread : readOctets msg ptr data.length = .ok data :=
    readOctets_eq_ok.mpr ⟨hinside, List.prefix_iff_eq_take.mp hstart⟩
  rw [decodeIpseckey, if_neg (Nat.not_lt.mpr hlength), hread, Except.bind]
  split at hgateway
  next => rfl
  next => exact if_neg (Nat.not_lt.mpr hgateway)
  next => exact if_neg (Nat.not_lt.mpr hgateway)
  next => exact decodeUncompressed_of_start hgateway hstart hinside
  next => exact hgateway.elim

/-- Data without compressed names are decoded as they are. -/
theorem decodeRdata_of_start {type : ℕ} (hfields : rdataFields type = none)
    (hdata : WellFormedData type data) (hstart : data <+: msg.drop ptr)
    (hinside : ptr + data.length ≤ msg.length) :
    decodeRdata msg type ptr data.length = .ok data := by
  rw [WellFormedData, hfields] at hdata
  obtain ⟨hA, hAAAA, hipseckey, hrrsig, hnsec⟩ := hdata
  rw [decodeRdata, hfields]
  simp only
  rw [if_neg (by rintro (⟨htype, hne⟩ | ⟨htype, hne⟩) <;> simp [hA, hAAAA, htype] at hne)]
  split
  next htype => exact decodeIpseckey_of_start (hipseckey htype) hstart hinside
  split
  next htype => exact decodeUncompressed_of_start (hrrsig htype) hstart hinside
  split
  next htype => exact decodeUncompressed_of_start (hnsec htype) hstart hinside
  · exact readOctets_eq_ok.mpr ⟨hinside, List.prefix_iff_eq_take.mp hstart⟩

theorem addFields_plain {field : RdataField} (hne : field ≠ .name) (offs ilen : ℕ) :
    addFields data offs (field :: fields) ilen out cb =
      (fieldLength field (data.drop ilen)).bind fun length ↦
        if fields ≠ [] ∧ data.length ≤ ilen + length then none
        else
          addFields data offs fields (ilen + length) (out ++ (data.drop ilen).take length) cb := by
  cases field with
  | name => exact absurd rfl hne
  | octets count => rfl
  | strings count => rfl
  | rest => rfl

theorem length_rhn_pos (name : DomainName) : 0 < name.rhn.length := by
  rw [DomainName.rhn, length_encode]
  omega

theorem length_valueBytes_pos (hfields : HasFields fields values) (hname : .name ∈ fields) :
    0 < (valueBytes values).length := by
  induction hfields with
  | nil => cases hname
  | @cons field value fields values hallows _ ih =>
    rw [valueBytes, List.flatMap_cons, List.length_append]
    rcases List.mem_cons.mp hname with rfl | hmem
    · cases value with
      | plain data => exact hallows.elim
      | domain name => exact Nat.add_pos_left (length_rhn_pos name) _
    · exact Nat.add_pos_right _ (ih hmem)

/-- A name that stands in a message up to case, as a name. -/
theorem exists_name_of_found {name : DomainName} {found : List Octets} {hops size : ℕ}
    (h : NameAt msg ptr found hops size) (hfold : foldLabels found = foldLabels name.labels) :
    ∃ result : DomainName, result.labels = found := by
  refine ⟨⟨found, h.isLabel, ?_⟩, rfl⟩
  have hle := name.length_le
  rw [length_encode, ← length_encodeLabels_foldLabels] at hle ⊢
  rwa [hfold]

/-- What the data of a record become in a message that ends with `out`. -/
structure AddedValues (msg out : Octets) (values : List FieldValue) (cb cb' : List Compel)
    (more : Octets) : Prop where
  indexed : Indexed (msg ++ (out ++ more)) cb'
  grows : cb <+: cb'
  length_le : more.length ≤ (valueBytes values).length
  registered : ∀ name, .domain name ∈ values → Registered cb' name
  found : ∃ found, SameValues values found ∧
    ValuesAt (msg ++ (out ++ more)) (msg ++ out).length found (msg ++ (out ++ more)).length

/-- No assertion fails on data that consist of values of the fields, and the values can be found where
they have been written. -/
theorem exists_addFields (hproper : Proper fields) (hfields : HasFields fields values) {ilen : ℕ}
    (h : Indexed (msg ++ out) cb) (hdata : data.drop ilen = valueBytes values)
    (hilen : ilen ≤ data.length) (hout : out.length ≤ ilen) :
    ∃ more cb', addFields data msg.length fields ilen out cb = some (out ++ more, cb') ∧
      AddedValues msg out values cb cb' more := by
  induction hfields generalizing ilen out cb with
  | nil =>
    refine ⟨[], cb, ?_, ?_⟩
    · rw [addFields, if_neg (by omega), List.append_nil]
    · rw [← List.append_nil out] at h
      exact ⟨h, List.prefix_rfl, Nat.le_refl _, by simp, [], .nil, by rw [List.append_nil]; exact .nil⟩
  | @cons field value fields values hallows hfields ih =>
    have hrest : (data.drop ilen).length = data.length - ilen := List.length_drop
    rw [valueBytes, List.flatMap_cons] at hdata
    rw [hdata, List.length_append] at hrest
    cases value with
    | domain name =>
      cases field with
      | octets count => exact hallows.elim
      | strings count => exact hallows.elim
      | rest => exact hallows.elim
      | name =>
        obtain ⟨first, cb₁, hfirst, hcompressed⟩ := compressName_rhn h name (valueBytes values)
        have hindexed := hcompressed.indexed
        have hlength := hcompressed.length_le
        have hdata' : data.drop ilen = name.rhn ++ valueBytes values := hdata
        have hlater : data.drop (ilen + name.rhn.length) = valueBytes values := by
          rw [← List.drop_drop, hdata', List.drop_left]
        rw [List.append_assoc] at hindexed
        obtain ⟨more, cb', hmore, hadded⟩ := ih hproper hindexed hlater
          (by rw [FieldValue.bytes] at hrest; omega) (by rw [List.length_append]; omega)
        refine ⟨first ++ more, cb', ?_, ?_⟩
        · rw [addFields, hdata', ← List.length_append, hfirst, Option.bind_some, rhnlen_rhn]
          simp only
          rw [if_neg, hmore, List.append_assoc]
          rw [List.length_append, FieldValue.bytes] at *
          omega
        · obtain ⟨later, hsame, hat⟩ := hadded.found
          obtain ⟨labels, hops, hname, hhops, hfold⟩ := hcompressed.nameAt
          obtain ⟨result, rfl⟩ := exists_name_of_found hname hfold
          have hname' := hname.append more
          simp only [List.append_assoc] at hname' hat
          constructor
          · rw [← List.append_assoc out]
            exact hadded.indexed
          · exact hcompressed.grows.trans hadded.grows
          · have hle := hadded.length_le
            rw [valueBytes, List.flatMap_cons, List.length_append, List.length_append]
            exact Nat.add_le_add hlength hle
          · intro other hmem
            rcases List.mem_cons.mp hmem with heq | hmem
            · cases heq
              exact hcompressed.registered.mono hadded.grows
            · exact hadded.registered other hmem
          · refine ⟨.domain result :: later, .cons hfold.symm hsame, .domain hname' hhops ?_⟩
            rwa [← List.length_append, List.append_assoc]
    | plain octets =>
      have hstart : octets <+: data.drop ilen := by
        rw [hdata]
        exact List.prefix_append _ _
      have hlater : data.drop (ilen + octets.length) = valueBytes values := by
        rw [← List.drop_drop, hdata]
        exact List.drop_left
      have hfield : fieldLength field (data.drop ilen) = some octets.length := by
        refine fieldLength_of_allows hallows hstart fun hrestfield ↦ ?_
        rw [hrestfield] at hproper
        rw [show fields = [] from hproper] at hfields
        cases hfields
        rw [hdata]
        simp [FieldValue.bytes]
      have htake : (data.drop ilen).take octets.length = octets :=
        (List.prefix_iff_eq_take.mp hstart).symm
      have hnext : fields ≠ [] → 0 < (valueBytes values).length := by
        intro hne
        refine length_valueBytes_pos hfields ?_
        cases field with
        | name => exact hallows.elim
        | octets count => exact hproper.1.resolve_left hne
        | strings count => exact hproper.1.resolve_left hne
        | rest => exact absurd hproper hne
      rw [FieldValue.bytes] at hrest
      have hindexed := h.append octets
      rw [List.append_assoc] at hindexed
      obtain ⟨more, cb', hmore, hadded⟩ := ih hproper.tail hindexed hlater (by omega)
        (by rw [List.length_append]; omega)
      refine ⟨octets ++ more, cb', ?_, ?_⟩
      · rw [addFields_plain hallows.ne_name, hfield, Option.bind_some, if_neg, htake, hmore,
          List.append_assoc]
        rintro ⟨hne, hle⟩
        have hpos := hnext hne
        rw [valueBytes] at hpos
        omega
      · obtain ⟨later, hsame, hat⟩ := hadded.found
        simp only [List.append_assoc] at hat
        constructor
        · rw [← List.append_assoc out]
          exact hadded.indexed
        · exact hadded.grows
        · have hle := hadded.length_le
          rw [valueBytes, List.flatMap_cons, List.length_append, List.length_append]
          exact Nat.add_le_add_left hle _
        · intro other hmem
          rcases List.mem_cons.mp hmem with heq | hmem
          · cases heq
          · exact hadded.registered other hmem
        · refine ⟨.plain octets :: later, .cons rfl hsame, .plain ?_ ?_⟩
          · rw [← List.append_assoc, List.drop_left]
            exact List.prefix_append _ _
          · rwa [← List.length_append, List.append_assoc]

theorem length_valueBytes_of_same {values' : List FieldValue} (h : SameValues values values') :
    (valueBytes values').length = (valueBytes values).length := by
  induction h with
  | nil => rfl
  | @cons value value' values values' hsame _ ih =>
    have hvalue : value'.bytes.length = value.bytes.length := by
      cases value with
      | plain data =>
        cases value' with
        | plain data' => exact congrArg List.length (Eq.symm hsame)
        | domain name' => exact hsame.elim
      | domain name =>
        cases value' with
        | plain data' => exact hsame.elim
        | domain name' =>
          rw [FieldValue.bytes, FieldValue.bytes, DomainName.rhn, DomainName.rhn, length_encode,
            length_encode, ← length_encodeLabels_foldLabels name.labels, hsame,
            length_encodeLabels_foldLabels]
    rw [valueBytes, valueBytes] at ih
    rw [valueBytes, valueBytes, List.flatMap_cons, List.flatMap_cons, List.length_append,
      List.length_append, ih, hvalue]

theorem hasFields_of_same {values' : List FieldValue} (hfields : HasFields fields values)
    (h : SameValues values values') : HasFields fields values' := by
  induction hfields generalizing values' with
  | nil =>
    cases h
    exact .nil
  | @cons field value fields values hallows _ ih =>
    cases h with
    | @cons _ value' _ values' hsame hrest =>
      refine .cons ?_ (ih hrest)
      cases value with
      | plain data =>
        cases value' with
        | plain data' => exact (show data = data' from hsame) ▸ hallows
        | domain name' => exact hsame.elim
      | domain name =>
        cases value' with
        | plain data' => exact hsame.elim
        | domain name' => cases field <;> exact hallows

/-- What `add_rr` writes for the data of a record, and what it adds to the compression buffer. -/
structure AddedData (msg : Octets) (type : ℕ) (data : Octets) (cb : List Compel) (out : Octets)
    (cb' : List Compel) : Prop where
  indexed : Indexed (msg ++ out) cb'
  grows : cb <+: cb'
  length_le : out.length ≤ data.length
  literal : rdataFields type = none → cb' = cb
  registered : ∀ fields values, rdataFields type = some fields → HasFields fields values →
    data = valueBytes values → ∀ name, .domain name ∈ values → Registered cb' name
  decodes : ∃ data', SameData type data data' ∧
    ∀ more, decodeRdata (msg ++ out ++ more) type msg.length out.length = .ok data'

/-- No assertion of `add_rr` fails on the data of a record that the cache keeps, and they are decoded
from the message as they were, up to case. -/
theorem exists_addRdata {type : ℕ} (h : Indexed msg cb) (hdata : WellFormedData type data) :
    ∃ out cb', addRdata type data msg.length cb = some (out, cb') ∧
      AddedData msg type data cb out cb' := by
  cases hfields : rdataFields type with
  | none =>
    refine ⟨data, cb, by rw [addRdata, hfields], h.append data, List.prefix_rfl, le_rfl,
      fun _ ↦ rfl, (by simp [hfields]), data, ?_, ?_⟩
    · rw [SameData, hfields]
    · intro more
      refine decodeRdata_of_start hfields hdata ?_ ?_
      · rw [List.append_assoc, List.drop_left]
        exact List.prefix_append _ _
      · rw [List.length_append, List.length_append]
        omega
  | some fields =>
    have hproper := proper_rdataFields hfields
    have hwell := hdata
    rw [WellFormedData, hfields] at hwell
    obtain ⟨⟨values, hvalues, rfl⟩, hnxt⟩ := hwell
    have hstart : Indexed (msg ++ []) cb := by rwa [List.append_nil]
    obtain ⟨out, cb', hout, hadded⟩ :=
      exists_addFields hproper hvalues hstart (List.drop_zero) (Nat.zero_le _) (Nat.zero_le _)
    have hindexed := hadded.indexed
    obtain ⟨found, hsame, hat⟩ := hadded.found
    rw [List.nil_append] at hindexed
    rw [List.append_nil, List.nil_append] at hat
    rw [List.nil_append] at hout
    have hcall : addRdata type (valueBytes values) msg.length cb = some (out, cb') := by
      rw [addRdata, hfields]
      exact hout
    refine ⟨out, cb', hcall, hindexed, hadded.grows, hadded.length_le, ?_, ?_, valueBytes found, ?_, ?_⟩
    · intro hnone
      rw [hfields] at hnone
      cases hnone
    · intro fields' values' hfields' hvalues' heq name hmem
      rw [hfields] at hfields'
      cases hfields'
      obtain ⟨out', cb₁, hout', hadded'⟩ :=
        exists_addFields hproper hvalues' hstart (List.drop_zero) (Nat.zero_le _) (Nat.zero_le _)
      rw [← heq, hout, List.nil_append] at hout'
      cases hout'
      exact hadded'.registered name hmem
    · rw [SameData, hfields]
      exact ⟨values, found, hvalues, rfl, rfl, hsame⟩
    · intro more
      have hlength : (msg ++ out).length - msg.length = out.length := by
        rw [List.length_append, Nat.add_sub_cancel_left]
      have hdecoded := decodeFields_of_valuesAt hproper (hasFields_of_same hvalues hsame)
        (hat.append more) (by simp only [List.length_append]; omega)
      rw [hlength] at hdecoded
      rw [decodeRdata, hfields]
      simp only
      rw [hdecoded, Except.bind, if_neg]
      rintro ⟨htype, hlt⟩
      rw [length_valueBytes_of_same hsame] at hlt
      exact absurd (hnxt htype) (Nat.not_le.mpr hlt)

/-- A record of a message: one that is passed to the cache, or an OPT pseudo record. -/
inductive Part where
  | record (rr : CachedRr)
  | opt (edns : EdnsInfo)

/-- What `rrs2cent` keeps of a part. -/
def Decoded.add (state : Decoded) : Part → Decoded
  | .record rr => { state with rrs := state.rrs ++ [rr] }
  | .opt edns =>
      { state with
        numopt := state.numopt + 1
        edns := if state.numopt = 0 then some edns else state.edns }

/-- A part stands in a message between two offsets, whatever the message goes on with. -/
def PartAt (msg : Octets) (ptr : ℕ) (part : Part) (next : ℕ) : Prop :=
  ptr ≤ next ∧ next ≤ msg.length ∧ ∀ (more : Octets) (state : Decoded), state.ptr = ptr →
    next ≤ ptr + state.lcnt → ptr + state.lcnt ≤ (msg ++ more).length →
      decodeRr (msg ++ more) state =
        .ok ({ state with ptr := next, lcnt := state.lcnt - (next - ptr) }.add part)

/-- Records that are the same but for upper and lower case in names. -/
structure SameRr (rr rr' : CachedRr) : Prop where
  oname : foldCase rr.oname = foldCase rr'.oname
  type : rr.type = rr'.type
  ttl : rr.ttl = rr'.ttl
  data : SameData rr.type rr.data rr'.data

theorem rrHdr_fields (type cls ttl rdlength : ℕ) :
    (rrHdr type cls ttl rdlength).length = 10 ∧
      (rrHdr type cls ttl rdlength).take 2 = putInt 2 type ∧
      ((rrHdr type cls ttl rdlength).drop 2).take 2 = putInt 2 cls ∧
      ((rrHdr type cls ttl rdlength).drop 4).take 4 = putInt 4 ttl ∧
      (rrHdr type cls ttl rdlength).drop 8 = putInt 2 rdlength := by
  refine ⟨?_, ?_, ?_, ?_, ?_⟩ <;> simp [rrHdr, putInt]

theorem lt_of_cached {type : ℕ} (h : ¬PDNSD_NOT_CACHED_TYPE type) : type ≠ T_OPT ∧ type < 2 ^ 16 := by
  rw [PDNSD_NOT_CACHED_TYPE, not_or, not_or] at h
  refine ⟨?_, ?_⟩
  · rintro rfl
    exact h.2.2 (by simp)
  · have hle := Nat.not_lt.mp h.2.1
    exact Nat.lt_of_le_of_lt hle (by decide)

/-- A record that stands in a message: its owner, its header and its data. -/
theorem partAt_of_record {owner : DomainName} {rr : CachedRr} {hops size rdlength : ℕ}
    (howner : NameAt msg ptr owner.labels hops size) (hhops : hops ≤ 128)
    (honame : rr.oname = owner.rhn) (htype : ¬PDNSD_NOT_CACHED_TYPE rr.type)
    (httl : rr.ttl < 2 ^ 32) (hrdlength : rdlength < 2 ^ 16)
    (hheader : rrHdr rr.type C_IN rr.ttl rdlength <+: msg.drop (ptr + size))
    (hnext : ptr + size + 10 + rdlength = msg.length)
    (hdata : ∀ more, decodeRdata (msg ++ more) rr.type (ptr + size + 10) rdlength = .ok rr.data) :
    PartAt msg ptr (.record rr) msg.length := by
  refine ⟨by omega, le_rfl, fun more state hptr hlcnt hinside ↦ ?_⟩
  obtain ⟨hlength, htype', hcls, httl', hrdlength'⟩ := rrHdr_fields rr.type C_IN rr.ttl rdlength
  have hname : decompressName (msg ++ more) state.ptr state.lcnt =
      .ok ⟨owner.rhn, ptr + size, state.lcnt - size⟩ := by
    rw [hptr]
    exact decompressName_eq_ok.mpr
      ⟨owner, hops, size, howner.append more, by omega, by omega, rfl⟩
  have hread : readOctets (msg ++ more) (ptr + size) 10 =
      .ok (rrHdr rr.type C_IN rr.ttl rdlength) := by
    refine readOctets_eq_ok.mpr ⟨by omega, ?_⟩
    rw [List.drop_append_of_le_length (by omega), ← hlength]
    exact List.prefix_iff_eq_take.mp (hheader.trans (List.prefix_append _ _))
  have hlt := lt_of_cached htype
  have hgettype : getInt (putInt 2 rr.type) = rr.type := getInt_putInt hlt.2
  have hgetttl : getInt (putInt 4 rr.ttl) = rr.ttl := getInt_putInt httl
  have hgetcls : getInt (putInt 2 C_IN) = C_IN := getInt_putInt (by decide)
  have hgetrdlength : getInt (putInt 2 rdlength) = rdlength := getInt_putInt hrdlength
  rw [decodeRr, hname, Except.bind]
  simp only
  rw [if_neg (by omega), hread, Except.bind]
  simp only [htype', hcls, httl', hrdlength', hgettype, hgetttl, hgetcls, hgetrdlength]
  rw [if_neg (by omega), if_neg hlt.1, if_neg (by simp [htype]), hdata, Except.map]
  simp only [Decoded.add, hnext, Except.ok.injEq, Decoded.mk.injEq, true_and, and_true]
  refine ⟨by omega, ?_⟩
  rw [← honame]

/-- What a record adds to an answer. -/
structure AddedRr (header : Octets) (ans : Answer) (owner : DomainName) (type ttl : ℕ)
    (data : Octets) (sect : MessageSection) (udp : Option ℕ) (ans' : Answer) : Prop where
  hdr : ans'.hdr = ans.hdr.count sect
  indexed : Indexed (header ++ ans'.body) ans'.cb
  grows : ans.cb <+: ans'.cb
  body : ans.body <+: ans'.body
  limit : sect = .S_ADDITIONAL → ∀ limit ∈ udp, ans'.sz ≤ limit
  registeredOwner : Registered ans'.cb owner
  registered : ∀ fields values, rdataFields type = some fields → HasFields fields values →
    data = valueBytes values → ∀ name, .domain name ∈ values → Registered ans'.cb name
  partAt : ∃ rr, SameRr ⟨owner.rhn, type, ttl, data⟩ rr ∧
    PartAt (header ++ ans'.body) ans.sz (.record rr) ans'.sz

/-- A record that is taken back. -/
structure DroppedRr (header : Octets) (ans : Answer) (owner : DomainName) (type : ℕ)
    (sect : MessageSection) (ans' : Answer) : Prop where
  sect : sect = .S_ADDITIONAL
  hdr : ans'.hdr = ans.hdr
  body : ans'.body = ans.body
  grows : ans.cb <+: ans'.cb
  indexed : Registered ans.cb owner → rdataFields type = none →
    Indexed (header ++ ans.body) ans'.cb

/-- `add_rr` with a record that the cache keeps: no assertion fails, and the record is taken back or
stands in the message as it was, up to case. -/
theorem exists_addRr {header : Octets} {ans : Answer} (hheader : header.length = 12)
    (h : Indexed (header ++ ans.body) ans.cb) (owner : DomainName) {type ttl : ℕ}
    (htype : ¬PDNSD_NOT_CACHED_TYPE type) (httl : ttl < 2 ^ 32) (hdata : WellFormedData type data)
    (hlength : data.length < 2 ^ 16) (sect : MessageSection) (udp : Option ℕ) :
    ∃ ans', addRr ans owner.rhn type ttl data sect udp = some ans' ∧
      (AddedRr header ans owner type ttl data sect udp ans' ∨
        DroppedRr header ans owner type sect ans') := by
  have hsz : (header ++ ans.body).length = ans.sz := by
    rw [List.length_append, hheader, Answer.sz]
  obtain ⟨out, cb₁, hout, hcompressed⟩ := compressName_rhn h owner []
  rw [List.append_nil, hsz] at hout
  have hrdata (rdlength : ℕ) : ∃ rdata cb₂,
      addRdata type data (ans.sz + out.length + 10) cb₁ = some (rdata, cb₂) ∧
        AddedData (header ++ ans.body ++ out ++ rrHdr type C_IN ttl rdlength) type data cb₁ rdata
          cb₂ := by
    have hptr : (header ++ ans.body ++ out ++ rrHdr type C_IN ttl rdlength).length =
        ans.sz + out.length + 10 := by
      rw [List.length_append, List.length_append, hsz, (rrHdr_fields _ _ _ _).1]
    rw [← hptr]
    exact exists_addRdata (hcompressed.indexed.append _) hdata
  -- the data do not depend on the header of the record, which is filled in afterwards
  obtain ⟨rdata, cb₂, hcall, -⟩ := hrdata 0
  obtain ⟨_, _, hcall', hadded⟩ := hrdata rdata.length
  rw [hcall] at hcall'
  cases hcall'
  rw [addRr, hout]
  simp only [Option.bind_some, hcall, Option.map_some]
  refine ⟨_, rfl, ?_⟩
  split
  next hlimit =>
    right
    refine ⟨hlimit.2, rfl, rfl, hcompressed.grows.trans hadded.grows, fun hregistered hliteral ↦ ?_⟩
    rw [hadded.literal hliteral]
    exact hcompressed.keeps hregistered
  next hlimit =>
    left
    have hbody : header ++ (ans.body ++ (out ++ rrHdr type C_IN ttl rdata.length ++ rdata)) =
        header ++ ans.body ++ out ++ rrHdr type C_IN ttl rdata.length ++ rdata := by
      simp only [List.append_assoc]
    have hlast : (⟨ans.hdr.count sect, ans.body ++ (out ++ rrHdr type C_IN ttl rdata.length ++ rdata),
        cb₂⟩ : Answer).sz = ans.sz + out.length + 10 + rdata.length := by
      simp only [Answer.sz, List.length_append, (rrHdr_fields _ _ _ _).1]
      omega
    refine ⟨rfl, ?_, hcompressed.grows.trans hadded.grows, List.prefix_append _ _, ?_,
      hcompressed.registered.mono hadded.grows, hadded.registered, ?_⟩
    · simp only [hbody]
      exact hadded.indexed
    · intro hsect limit hmem
      rw [hlast]
      by_contra hlt
      refine hlimit ⟨⟨limit, hmem, ?_⟩, hsect⟩
      simp only [List.length_append, (rrHdr_fields _ _ _ _).1]
      omega
    · obtain ⟨data', hsame, hdecodes⟩ := hadded.decodes
      obtain ⟨found, hops, hname, hhops, hfold⟩ := hcompressed.nameAt
      obtain ⟨result, rfl⟩ := exists_name_of_found hname hfold
      refine ⟨⟨result.rhn, type, ttl, data'⟩, ⟨?_, rfl, rfl, hsame⟩, ?_⟩
      · rw [DomainName.rhn, DomainName.rhn, foldCase_encode owner.isLabel, hfold.symm,
          foldCase_encode result.isLabel]
      · have hptr : (header ++ ans.body ++ out).length = ans.sz + out.length := by
          rw [List.length_append, hsz]
        have hend : (header ++ ans.body ++ out ++ rrHdr type C_IN ttl rdata.length ++ rdata).length =
            ans.sz + out.length + 10 + rdata.length := by
          simp only [List.length_append, (rrHdr_fields _ _ _ _).1] at hptr ⊢
          omega
        have hname' := (hname.append (rrHdr type C_IN ttl rdata.length)).append rdata
        have hle := hadded.length_le
        rw [hsz] at hname'
        simp only [hbody]
        rw [hlast, ← hend]
        refine partAt_of_record hname' hhops rfl htype httl (by omega) ?_ hend.symm ?_
        · rw [← hptr, List.append_assoc (header ++ ans.body ++ out), List.drop_left]
          exact List.prefix_append _ _
        · intro more
          have hdecoded := hdecodes more
          rwa [List.length_append, hptr, (rrHdr_fields _ _ _ _).1] at hdecoded

/-- The four octets of the TTL of an OPT pseudo record. -/
def optTtl (rcode ednsver zflags : ℕ) : Octets :=
  [UInt8.ofNat (rcode >>> 4), UInt8.ofNat ednsver] ++ putInt 2 zflags

/-- An OPT pseudo record is found where it was added. -/
theorem partAt_addOptPseudoRr {header : Octets} (hheader : header.length = 12) (ans : Answer)
    {udpsize : ℕ} (hudpsize : udpsize < 2 ^ 16) (rcode ednsver zflags : ℕ) :
    PartAt (header ++ (addOptPseudoRr ans udpsize rcode ednsver zflags).body) ans.sz
      (.opt (ednsInfo header udpsize (optTtl rcode ednsver zflags)))
      (addOptPseudoRr ans udpsize rcode ednsver zflags).sz := by
  have hsz : (header ++ ans.body).length = ans.sz := by
    rw [List.length_append, hheader, Answer.sz]
  have hlength : (optPseudoRr udpsize rcode ednsver zflags).length = 11 := rfl
  have hlast : (addOptPseudoRr ans udpsize rcode ednsver zflags).sz = ans.sz + 11 := by
    simp only [addOptPseudoRr, Answer.sz, List.length_append, hlength, Nat.add_assoc]
  have hbody : header ++ (addOptPseudoRr ans udpsize rcode ednsver zflags).body =
      header ++ ans.body ++ optPseudoRr udpsize rcode ednsver zflags :=
    (List.append_assoc _ _ _).symm
  rw [hlast, hbody]
  refine ⟨by omega, by rw [List.length_append, hsz, hlength], fun more state hptr hlcnt hinside ↦ ?_⟩
  have hdrop (k : ℕ) :
      (header ++ ans.body ++ optPseudoRr udpsize rcode ednsver zflags ++ more).drop (ans.sz + k) =
        (optPseudoRr udpsize rcode ednsver zflags ++ more).drop k := by
    rw [← List.drop_drop, ← hsz, List.append_assoc, List.drop_left]
  have hroot : NameAt (header ++ ans.body ++ optPseudoRr udpsize rcode ednsver zflags ++ more)
      ans.sz [] 0 1 := by
    have hhead := congrArg List.head? (hdrop 0)
    rw [List.drop_zero, List.head?_drop, Nat.add_zero] at hhead
    exact .root hhead
  have hname : decompressName
      (header ++ ans.body ++ optPseudoRr udpsize rcode ednsver zflags ++ more) state.ptr state.lcnt =
        .ok ⟨encode [], ans.sz + 1, state.lcnt - 1⟩ := by
    rw [hptr]
    exact decompressName_eq_ok.mpr
      ⟨⟨[], by simp, by decide⟩, 0, 1, hroot, by omega, by omega, rfl⟩
  have hread : readOctets (header ++ ans.body ++ optPseudoRr udpsize rcode ednsver zflags ++ more)
      (ans.sz + 1) 10 = .ok ((optPseudoRr udpsize rcode ednsver zflags).drop 1) := by
    refine readOctets_eq_ok.mpr ⟨by omega, ?_⟩
    rw [hdrop]
    simp [optPseudoRr, putInt]
  have hgetudpsize : getInt (putInt 2 udpsize) = udpsize := getInt_putInt hudpsize
  have hfields : ((optPseudoRr udpsize rcode ednsver zflags).drop 1).take 2 = putInt 2 T_OPT ∧
      (((optPseudoRr udpsize rcode ednsver zflags).drop 1).drop 2).take 2 = putInt 2 udpsize ∧
      (((optPseudoRr udpsize rcode ednsver zflags).drop 1).drop 4).take 4 =
        optTtl rcode ednsver zflags ∧
      ((optPseudoRr udpsize rcode ednsver zflags).drop 1).drop 8 = putInt 2 0 := by
    refine ⟨?_, ?_, ?_, ?_⟩ <;> simp [optPseudoRr, optTtl, putInt]
  have hopt : getInt (putInt 2 T_OPT) = T_OPT := getInt_putInt (by decide)
  have hzero : getInt (putInt 2 0) = 0 := getInt_putInt (by decide)
  have hinfo : ednsInfo (header ++ ans.body ++ optPseudoRr udpsize rcode ednsver zflags ++ more)
      udpsize (optTtl rcode ednsver zflags) =
        ednsInfo header udpsize (optTtl rcode ednsver zflags) := by
    have hthird : (header ++ ans.body ++ optPseudoRr udpsize rcode ednsver zflags ++ more).getD 3 0 =
        header.getD 3 0 := by
      simp only [List.getD_eq_getElem?_getD, List.append_assoc]
      rw [List.getElem?_append_left (by omega)]
    rw [ednsInfo, ednsInfo, hthird]
  rw [decodeRr, hname, Except.bind]
  simp only
  rw [if_neg (by omega), hread, Except.bind]
  simp only [hfields, hopt, hzero, hgetudpsize, hinfo]
  rw [if_neg (by omega)]
  simp only [if_true, Decoded.add, Except.ok.injEq, Decoded.mk.injEq, true_and, and_true]
  omega

/-- Parts that follow each other in a message. -/
inductive PartsAt (msg : Octets) (ptr : ℕ) : List Part → ℕ → Prop
  | nil : PartsAt msg ptr [] ptr
  | concat {parts : List Part} {part : Part} {mid next : ℕ} (h : PartsAt msg ptr parts mid)
      (hpart : PartAt msg mid part next) : PartsAt msg ptr (parts ++ [part]) next

theorem PartAt.append {part : Part} (h : PartAt msg ptr part next) (more : Octets) :
    PartAt (msg ++ more) ptr part next := by
  obtain ⟨hle, hnext, hreads⟩ := h
  refine ⟨hle, by rw [List.length_append]; omega, fun more' state ↦ ?_⟩
  rw [List.append_assoc]
  exact hreads (more ++ more') state

theorem PartsAt.append {parts : List Part} (h : PartsAt msg ptr parts next) (more : Octets) :
    PartsAt (msg ++ more) ptr parts next := by
  induction h with
  | nil => exact .nil
  | concat _ hpart ih => exact .concat ih (hpart.append more)

theorem PartsAt.le {parts : List Part} (h : PartsAt msg ptr parts next) : ptr ≤ next := by
  induction h with
  | nil => exact le_rfl
  | concat _ hpart ih => exact ih.trans hpart.1

theorem rrs2cent_succ {recnum : ℕ} {state mid final : Decoded}
    (h : rrs2cent msg recnum state = .ok mid) (hlast : decodeRr msg mid = .ok final) :
    rrs2cent msg (recnum + 1) state = .ok final := by
  induction recnum generalizing state with
  | zero =>
    obtain rfl := Except.ok.inj h
    simp only [rrs2cent, hlast]
  | succ recnum ih =>
    rw [rrs2cent] at h ⊢
    cases hfirst : decodeRr msg state with
    | error stop =>
      rw [hfirst] at h
      cases h
    | ok next =>
      rw [hfirst] at h
      exact ih h

/-- `rrs2cent` decodes the parts of a message one after the other. -/
theorem rrs2cent_of_partsAt {parts : List Part} (h : PartsAt msg ptr parts next)
    (hinside : next ≤ msg.length) {state : Decoded} (hptr : state.ptr = ptr)
    (hlcnt : ptr + state.lcnt = msg.length) :
    rrs2cent msg parts.length state =
      .ok { parts.foldl Decoded.add state with ptr := next, lcnt := msg.length - next } := by
  induction h with
  | nil =>
    subst hptr
    rw [List.length_nil, rrs2cent, ← hlcnt, Nat.add_sub_cancel_left]
    rfl
  | @concat parts part mid next h hpart ih =>
    obtain ⟨hle, -, hreads⟩ := hpart
    have hone := hreads [] { parts.foldl Decoded.add state with ptr := mid, lcnt := msg.length - mid }
      rfl (by simp only; omega) (by simp only [List.append_nil]; omega)
    have hlater : msg.length - mid - (next - mid) = msg.length - next := by omega
    rw [List.append_nil] at hone
    rw [List.length_append, List.length_singleton]
    refine (rrs2cent_succ (ih (by omega)) hone).trans ?_
    simp only [hlater, List.foldl_append, List.foldl_cons, List.foldl_nil]
    cases part <;> rfl

end Orbot.Pdnsd
