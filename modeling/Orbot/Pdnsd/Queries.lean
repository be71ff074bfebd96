import Orbot.Pdnsd.Composition

/-!
# Queries

`decode_query` reads the questions of a message, and `decode_query_additional` looks for an OPT pseudo
record in its additional section.
-/

namespace Orbot.Pdnsd

/-- The header at the beginning of a message, by the order of the bit fields. -/
def DnsHdr.read (data : Octets) : DnsHdr :=
  let query := (data.getD 2 0).toNat
  let reply := (data.getD 3 0).toNat
  let field (offset : ℕ) := UInt16.ofNat (getInt ((data.drop offset).take 2))
  { id := field 0
    rd := query.testBit 0
    tc := query.testBit 1
    aa := query.testBit 2
    opcode := nibble (query / 8)
    qr := query.testBit 7
    rcode := nibble reply
    cd := reply.testBit 4
    ad := reply.testBit 5
    z := reply.testBit 6
    ra := reply.testBit 7
    qdcount := field 4
    ancount := field 6
    nscount := field 8
    arcount := field 10 }

/-- `dns_queryel_t`. -/
structure DnsQueryel where
  qtype : ℕ
  qclass : ℕ
  query : Octets
  deriving DecidableEq

/-- How far the questions have been read, and whether the message ended too early. -/
structure DecodedQuery where
  ql : List DnsQueryel
  ptrrem : ℕ
  lenrem : ℕ
  truncated : Bool
  deriving DecidableEq

/-- The loop of `decode_query`. -/
def decodeQuestions (data : Octets) : ℕ → DecodedQuery → Except Stop DecodedQuery
  | 0, state => .ok state
  | qdcount + 1, state =>
      match decompressName data state.ptrrem state.lenrem with
      | .error (.code .RC_TRUNC) => .ok { state with truncated := true }
      | .error stop => .error stop
      | .ok name =>
          if name.sz < 4 then .ok { state with truncated := true }
          else
            (readOctets data name.src 4).bind fun octets ↦
              decodeQuestions data qdcount
                { ql := state.ql ++ [⟨getInt (octets.take 2), getInt (octets.drop 2), name.tgt⟩]
                  ptrrem := name.src + 4
                  lenrem := name.sz - 4
                  truncated := false }

/-- `decode_query`. -/
def decodeQuery (data : Octets) : Except Stop DecodedQuery :=
  decodeQuestions data (DnsHdr.read data).qdcount.toNat ⟨[], 12, data.length - 12, false⟩

/-- `decode_query_additional`: what has been found, and why the scan has ended too early. -/
def decodeQueryAdditional (data : Octets) : ℕ → Decoded → Decoded × Option Stop
  | 0, state => (state, none)
  | numrr + 1, state =>
      match decompressName data state.ptr state.lcnt with
      | .error stop => (state, some stop)
      | .ok name =>
          if name.sz < 10 then (state, some (.code .RC_TRUNC))
          else
            match readOctets data name.src 10 with
            | .error stop => (state, some stop)
            | .ok header =>
                let rdlen := getInt (header.drop 8)
                let next : Decoded :=
                  { state with
                    ptr := name.src + 10 + rdlen
                    lcnt := name.sz - 10 - rdlen }
                if name.sz - 10 < rdlen then (state, some (.code .RC_TRUNC))
                else if getInt (header.take 2) = T_OPT then
                  decodeQueryAdditional data numrr
                    (next.add (.opt
                      (ednsInfo data (getInt ((header.drop 2).take 2)) ((header.drop 4).take 4))))
                else decodeQueryAdditional data numrr next

@[simp] theorem DnsHdr.length_bytes (hdr : DnsHdr) : hdr.bytes.length = 12 := by
  simp [DnsHdr.bytes]

theorem queryFlags_bits : ∀ (rd tc aa qr : Bool) (opcode : Fin 16),
    let flags := rd.toNat + 2 * tc.toNat + 4 * aa.toNat + 8 * opcode.val + 128 * qr.toNat
    flags < 256 ∧ flags.testBit 0 = rd ∧ flags.testBit 1 = tc ∧ flags.testBit 2 = aa ∧
      nibble (flags / 8) = opcode ∧ flags.testBit 7 = qr := by
  decide +kernel

theorem replyFlags_bits : ∀ (cd ad z ra : Bool) (rcode : Fin 16),
    let flags := rcode.val + 16 * cd.toNat + 32 * ad.toNat + 64 * z.toNat + 128 * ra.toNat
    flags < 256 ∧ nibble flags = rcode ∧ flags.testBit 4 = cd ∧ flags.testBit 5 = ad ∧
      flags.testBit 6 = z ∧ flags.testBit 7 = ra := by
  decide +kernel

theorem ofNat_getInt_putInt (n : UInt16) : UInt16.ofNat (getInt (putInt 2 n.toNat)) = n := by
  rw [getInt_putInt n.toNat_lt, UInt16.ofNat_toNat]

theorem DnsHdr.getD_bytes_three (hdr : DnsHdr) (rest : Octets) :
    ((hdr.bytes ++ rest).getD 3 0).toNat = hdr.replyFlags := by
  simp only [bytes, putInt, List.nil_append, List.cons_append, List.getD_cons_succ,
    List.getD_cons_zero, UInt8.toNat_ofNat']
  exact Nat.mod_eq_of_lt (replyFlags_bits hdr.cd hdr.ad hdr.z hdr.ra hdr.rcode).1

/-- A header is read as it was written. -/
theorem DnsHdr.read_bytes (hdr : DnsHdr) (rest : Octets) :
    DnsHdr.read (hdr.bytes ++ rest) = hdr := by
  obtain ⟨hquery, hrd, htc, haa, hopcode, hqr⟩ :=
    queryFlags_bits hdr.rd hdr.tc hdr.aa hdr.qr hdr.opcode
  obtain ⟨-, hrcode, hcd, had, hz, hra⟩ :=
    replyFlags_bits hdr.cd hdr.ad hdr.z hdr.ra hdr.rcode
  have hthird : ((hdr.bytes ++ rest).getD 2 0).toNat = hdr.queryFlags := by
    simp only [bytes, putInt, List.nil_append, List.cons_append, List.getD_cons_succ,
      List.getD_cons_zero, UInt8.toNat_ofNat']
    exact Nat.mod_eq_of_lt hquery
  have hcounts : ((hdr.bytes ++ rest).drop 0).take 2 = putInt 2 hdr.id.toNat ∧
      ((hdr.bytes ++ rest).drop 4).take 2 = putInt 2 hdr.qdcount.toNat ∧
      ((hdr.bytes ++ rest).drop 6).take 2 = putInt 2 hdr.ancount.toNat ∧
      ((hdr.bytes ++ rest).drop 8).take 2 = putInt 2 hdr.nscount.toNat ∧
      ((hdr.bytes ++ rest).drop 10).take 2 = putInt 2 hdr.arcount.toNat := by
    refine ⟨?_, ?_, ?_, ?_, ?_⟩ <;> simp [bytes, putInt]
  rw [DnsHdr.read]
  simp only [hthird, getD_bytes_three, hcounts, ofNat_getInt_putInt]
  simp only [DnsHdr.queryFlags, DnsHdr.replyFlags, hrd, htc, haa, hopcode, hqr, hrcode, hcd, had,
    hz, hra]

/-- A question as it comes out of a message. -/
structure DnsQueryel.WellFormed (qe : DnsQueryel) : Prop where
  qtype : qe.qtype < 2 ^ 16
  qclass : qe.qclass < 2 ^ 16
  query : ∃ name : DomainName, qe.query = name.rhn

variable {data msg : Octets} {state : DecodedQuery}

/-- The questions are read within the message, and are well formed. -/
theorem decodeQuestions_spec {qdcount : ℕ} (hinside : state.lenrem ≤ data.length - state.ptrrem)
    (hwf : ∀ qe ∈ state.ql, qe.WellFormed) :
    decodeQuestions data qdcount state ≠ .error .outside ∧
      ∀ query, decodeQuestions data qdcount state = .ok query →
        query.ql.length ≤ state.ql.length + qdcount ∧ (∀ qe ∈ query.ql, qe.WellFormed) ∧
          query.lenrem ≤ data.length - query.ptrrem := by
  fun_induction decodeQuestions data qdcount state with
  | case1 state =>
    refine ⟨by simp, fun query hquery ↦ ?_⟩
    obtain rfl := Except.ok.inj hquery
    exact ⟨Nat.le_refl _, hwf, hinside⟩
  | case2 qdcount state =>
    refine ⟨by simp, fun query hquery ↦ ?_⟩
    obtain rfl := Except.ok.inj hquery
    exact ⟨Nat.le_add_right _ _, hwf, hinside⟩
  | case3 qdcount state stop _ hstop =>
    refine ⟨fun heq ↦ ?_, fun query hquery ↦ by cases hquery⟩
    rw [Except.error.inj heq] at hstop
    exact decompressName_ne_outside _ _ _ hstop
  | case4 qdcount state =>
    refine ⟨by simp, fun query hquery ↦ ?_⟩
    obtain rfl := Except.ok.inj hquery
    exact ⟨Nat.le_add_right _ _, hwf, hinside⟩
  | case5 qdcount state name hname hroom ih =>
    obtain ⟨result, hops, size, hat, -, hsize, rfl⟩ := decompressName_eq_ok.mp hname
    have hpos := hat.size_pos
    simp only at hroom ih ⊢
    have hread := readOctets_ne_outside
      (show state.ptrrem + size + 4 ≤ data.length by omega)
    have hnext (octets : Octets) (hoctets : readOctets data (state.ptrrem + size) 4 = .ok octets) :=
      ih octets (by omega) (by
        intro qe hmem
        rcases List.mem_append.mp hmem with hmem | hmem
        · exact hwf qe hmem
        · rw [List.mem_singleton.mp hmem]
          have hlength := length_of_readOctets hoctets
          have htype := getInt_lt (octets.take 2)
          have hclass := getInt_lt (octets.drop 2)
          rw [List.length_take, hlength] at htype
          rw [List.length_drop, hlength] at hclass
          exact ⟨htype, hclass, result, rfl⟩)
    constructor
    · exact bind_ne_outside hread fun octets hoctets ↦ (hnext octets hoctets).1
    · intro query hquery
      obtain ⟨octets, hoctets, hrest⟩ := bind_eq_ok.mp hquery
      obtain ⟨hcount, hrest⟩ := (hnext octets hoctets).2 query hrest
      refine ⟨?_, hrest⟩
      rw [List.length_append, List.length_singleton] at hcount
      omega

theorem decodeQuery_spec (data : Octets) :
    decodeQuery data ≠ .error .outside ∧
      ∀ query, decodeQuery data = .ok query →
        query.ql.length < 2 ^ 16 ∧ (∀ qe ∈ query.ql, qe.WellFormed) ∧
          query.lenrem ≤ data.length - query.ptrrem := by
  have hstart : ∀ qe ∈ ([] : List DnsQueryel), qe.WellFormed := by simp
  obtain ⟨hne, hok⟩ := @decodeQuestions_spec data ⟨[], 12, data.length - 12, false⟩
    (DnsHdr.read data).qdcount.toNat le_rfl hstart
  refine ⟨hne, fun query hquery ↦ ?_⟩
  obtain ⟨hcount, hrest⟩ := hok query hquery
  have hlt := (DnsHdr.read data).qdcount.toNat_lt
  rw [List.length_nil, Nat.zero_add] at hcount
  exact ⟨Nat.lt_of_le_of_lt hcount hlt, hrest⟩

/-- The additional section is read within the message. -/
theorem decodeQueryAdditional_ne_outside {numrr : ℕ} {state : Decoded}
    (hinside : state.lcnt ≤ data.length - state.ptr) :
    (decodeQueryAdditional data numrr state).2 ≠ some .outside := by
  have hnames {state : Decoded} {name : Decompressed}
      (h : decompressName data state.ptr state.lcnt = .ok name) :
      state.ptr < name.src ∧ name.src + name.sz = state.ptr + state.lcnt := by
    obtain ⟨result, hops, size, hat, -, hsize, rfl⟩ := decompressName_eq_ok.mp h
    have hpos := hat.size_pos
    exact ⟨by simp only; omega, by simp only; omega⟩
  fun_induction decodeQueryAdditional data numrr state with
  | case1 => simp
  | case2 numrr state stop hstop =>
    intro heq
    rw [Option.some.inj heq] at hstop
    exact decompressName_ne_outside _ _ _ hstop
  | case3 => simp
  | case4 numrr state name hname hroom stop hstop =>
    obtain ⟨hforward, hend⟩ := hnames hname
    intro heq
    rw [Option.some.inj heq] at hstop
    exact readOctets_ne_outside (by omega) hstop
  | case5 => simp
  | case6 numrr state name hname hroom header _ rdlen next hrdlen _ ih =>
    obtain ⟨hforward, hend⟩ := hnames hname
    exact ih (by simp only [Decoded.add, next]; omega)
  | case7 numrr state name hname hroom header _ rdlen next hrdlen _ ih =>
    obtain ⟨hforward, hend⟩ := hnames hname
    exact ih (by simp only [next]; omega)

/-- Questions that stand in a message between two offsets. -/
inductive QuestionsAt (msg : Octets) : ℕ → List DnsQueryel → ℕ → Prop
  | nil {ptr : ℕ} : QuestionsAt msg ptr [] ptr
  | cons {ptr next hops size qtype qclass : ℕ} {name : DomainName} {ql : List DnsQueryel}
      (hname : NameAt msg ptr name.labels hops size) (hhops : hops ≤ 128)
      (hqtype : qtype < 2 ^ 16) (hqclass : qclass < 2 ^ 16)
      (h : putInt 2 qtype ++ putInt 2 qclass <+: msg.drop (ptr + size))
      (hrest : QuestionsAt msg (ptr + size + 4) ql next) :
      QuestionsAt msg ptr (⟨qtype, qclass, name.rhn⟩ :: ql) next

variable {ptr next : ℕ} {ql : List DnsQueryel}

theorem QuestionsAt.append (h : QuestionsAt msg ptr ql next) (more : Octets) :
    QuestionsAt (msg ++ more) ptr ql next := by
  induction h with
  | nil => exact .nil
  | cons hname hhops hqtype hqclass h _ ih =>
    refine .cons (hname.append more) hhops hqtype hqclass (h.trans ?_) ih
    rw [List.drop_append]
    exact List.prefix_append _ _

/-- `decode_query` reads the questions that stand in a message. -/
theorem decodeQuestions_of_questionsAt (h : QuestionsAt msg ptr ql next) (hptr : state.ptrrem = ptr)
    (hlenrem : ptr + state.lenrem = msg.length) (htruncated : state.truncated = false) :
    decodeQuestions msg ql.length state =
      .ok ⟨state.ql ++ ql, next, msg.length - next, false⟩ := by
  induction h generalizing state with
  | nil =>
    subst hptr
    rw [List.length_nil, decodeQuestions, ← hlenrem, Nat.add_sub_cancel_left, ← htruncated,
      List.append_nil]
  | @cons ptr next hops size qtype qclass name ql hname hhops hqtype hqclass h _ ih =>
    have hroom := h.length_le
    rw [List.length_append, length_putInt, length_putInt, List.length_drop] at hroom
    have hfound : decompressName msg state.ptrrem state.lenrem =
        .ok ⟨name.rhn, ptr + size, state.lenrem - size⟩ := by
      rw [hptr]
      exact decompressName_eq_ok.mpr ⟨name, hops, size, hname, by omega, by omega, rfl⟩
    have hread : readOctets msg (ptr + size) 4 = .ok (putInt 2 qtype ++ putInt 2 qclass) :=
      readOctets_eq_ok.mpr ⟨by omega, List.prefix_iff_eq_take.mp h⟩
    have hfields : (putInt 2 qtype ++ putInt 2 qclass).take 2 = putInt 2 qtype ∧
        (putInt 2 qtype ++ putInt 2 qclass).drop 2 = putInt 2 qclass := ⟨rfl, rfl⟩
    rw [List.length_cons, decodeQuestions, hfound]
    simp only
    rw [if_neg (by omega), hread, Except.bind, hfields.1, hfields.2,
      getInt_putInt (show qtype < 256 ^ 2 from hqtype),
      getInt_putInt (show qclass < 256 ^ 2 from hqclass), ih rfl (by simp only; omega) rfl,
      List.append_assoc, List.singleton_append]

end Orbot.Pdnsd
