import Orbot.Pdnsd.ComposedAnswers

/-!
# Replies

`process_query` checks a query, and answers it or replies with an error code. A failed assertion ends
the daemon; memory does not run out.
-/

namespace Orbot.Pdnsd

section Process

variable {σ : Type} (host : Host σ) (conf : Global) (queryts : ℤ)

/-- `mk_error_reply`, with the OPT pseudo record for an extended response code. -/
def mkErrorReply (id : UInt16) (opcode : Fin 16) (rescode : ℕ) : Reply :=
  let hdr := { replyHdr id opcode false with rcode := nibble rescode }
  if rescode / 16 ≠ 0 then
    let ans := addOptPseudoRr ⟨hdr, [], []⟩ (conf.udpbufsize % 2 ^ 16) rescode 0 0
    ⟨ans.hdr, ans.body, rescode⟩
  else ⟨hdr, [], rescode⟩

/-- What becomes of a query: it is discarded, answered with an error code only, or answered from the
cache. -/
inductive Plan where
  | discard
  | fail (rescode : ℕ)
  | answer (ql : List DnsQueryel) (ednsinfo : Option EdnsInfo)

/-- The checks of the OPT pseudo records of a query. -/
def checkEdns (ql : List DnsQueryel) (found : Decoded) : Plan :=
  match found.edns with
  | none => .answer ql none
  | some ednsinfo =>
      if ednsinfo.version ≠ 0 then .fail RC_BADVERS
      else if ednsinfo.rcode ≠ 0 then .fail RC_FORMAT
      else .answer ql (some ednsinfo)

/-- The checks of the header of a query; none if the query can be read. -/
def checkHeader (hdr : DnsHdr) (rlen : ℕ) : Option Plan :=
  if rlen < 2 then some .discard
  else if rlen < 12 then some (.fail RC_FORMAT)
  else if hdr.qr then some .discard
  else if hdr.opcode ≠ nibble 0 then some (.fail RC_NOTSUPP)
  else if hdr.z then some (.fail RC_FORMAT)
  else if hdr.rcode ≠ nibble 0 then some .discard
  else if hdr.ancount ≠ 0 then some (.fail RC_FORMAT)
  else if hdr.nscount ≠ 0 then some (.fail RC_FORMAT)
  else none

/-- The additional section of a query; none if a read is outside of the query. -/
def readAdditional (hdr : DnsHdr) (data : Octets) (query : DecodedQuery) : Option Plan :=
  match decodeQueryAdditional data hdr.arcount.toNat ⟨query.ptrrem, query.lenrem, [], 0, none⟩ with
  | (_, some .outside) => none
  | (found, some (.code rc)) =>
      some (if rc = .RC_TRUNC ∧ hdr.tc then checkEdns query.ql found else .fail RC_FORMAT)
  | (found, none) => some (checkEdns query.ql found)

/-- The questions and the additional section of a query. -/
def readSections (hdr : DnsHdr) (data : Octets) : Option Plan :=
  match decodeQuery data with
  | .error .outside => none
  | .error (.code _) => some (.fail RC_FORMAT)
  | .ok query =>
      if query.truncated ∧ (¬hdr.tc ∨ query.ql = []) then some (.fail RC_FORMAT)
      else if hdr.arcount = 0 then some (.answer query.ql none)
      else if query.truncated then some (.fail RC_FORMAT)
      else readAdditional hdr data query

/-- The part of `process_query` that reads the query. -/
def readQuery (data : Octets) : Option Plan :=
  match checkHeader (DnsHdr.read data) data.length with
  | some plan => some plan
  | none => readSections (DnsHdr.read data) data

/-- The limit of the length of a reply, which the query can raise. -/
def replyLimit (udp : Option ℕ) (ednsinfo : Option EdnsInfo) : Option ℕ :=
  match udp, ednsinfo with
  | some limit, some ednsinfo =>
      if UDP_BUFSIZE < ednsinfo.udpsize then some (min conf.udpbufsize ednsinfo.udpsize)
      else some limit
  | udp, _ => udp

/-- How `process_query` ends: the daemon ends, or there is a reply or none. -/
inductive Outcome where
  | stopped
  | discarded
  | replied (reply : Reply)
  deriving DecidableEq

/-- `process_query`: the outcome, the limit of the length, and the state of the rest of the daemon. -/
def processQuery (data : Octets) (udp : Option ℕ) (world : σ) : Outcome × Option ℕ × σ :=
  let hdr := DnsHdr.read data
  let errorReply := mkErrorReply conf hdr.id (if 3 ≤ data.length then hdr.opcode else nibble 0)
  match readQuery data with
  | none => (.stopped, udp, world)
  | some .discard => (.discarded, udp, world)
  | some (.fail rescode) => (.replied (errorReply rescode), udp, world)
  | some (.answer ql ednsinfo) =>
      let limit := replyLimit conf udp ednsinfo
      if ql = [] then (.replied (errorReply RC_FORMAT), limit, world)
      else
        match composeAnswer host conf queryts ql hdr ednsinfo.isSome limit world with
        | none => (.stopped, limit, world)
        | some (reply, world) => (.replied reply, limit, world)

end Process

/-- The records that a part of a reply is made of. -/
def recordsOf (parts : List (MessageSection × Part)) : List CachedRr :=
  parts.filterMap fun part ↦
    match part.2 with
    | .record rr => some rr
    | .opt _ => none

section Correctness

variable {σ : Type} {host : Host σ} {conf : Global} {queryts : ℤ} {udp : Option ℕ}
  {ql : List DnsQueryel} {ednsinfo : Bool} {reply : Reply}

/-- The octets of a reply are a message with the questions `ql`, and with records of the cache in the
order of the sections. -/
structure Parses (host : Host σ) (conf : Global) (queryts : ℤ) (ql : List DnsQueryel)
    (ednsinfo : Bool) (udp : Option ℕ) (reply : Reply) : Prop where
  rcode : reply.hdr.rcode = nibble reply.rcode
  parts : ∃ found ptr parts final, SameQuestions ql found ∧
    decodeQuery reply.msg = .ok ⟨found, ptr, reply.msg.length - ptr, false⟩ ∧
    rrs2cent reply.msg parts.length ⟨ptr, reply.msg.length - ptr, [], 0, none⟩ = .ok final ∧
    final.ptr = reply.msg.length ∧ final.rrs = recordsOf parts ∧
    (∀ rr ∈ final.rrs, FromCache host queryts rr) ∧ InOrder parts ∧
    reply.hdr.ancount = sectionCount parts .S_ANSWER ∧
    reply.hdr.nscount = sectionCount parts .S_AUTHORITY ∧
    reply.hdr.arcount = sectionCount parts .S_ADDITIONAL ∧
    final.numopt ≤ ednsinfo.toNat ∧
    (∀ edns ∈ final.edns, edns = ⟨conf.udpbufsize % 2 ^ 16, reply.rcode, 0, 0⟩) ∧
    ((∃ part ∈ parts, part.1 = .S_ADDITIONAL ∧ part.2.isOpt = false) →
      ∀ limit ∈ udp, reply.msg.length ≤ limit)

theorem foldl_add (parts : List (MessageSection × Part)) (state : Decoded) :
    ((parts.map Prod.snd).foldl Decoded.add state).rrs = state.rrs ++ recordsOf parts ∧
      ((parts.map Prod.snd).foldl Decoded.add state).numopt =
        state.numopt + parts.countP (·.2.isOpt) ∧
      ∀ edns ∈ ((parts.map Prod.snd).foldl Decoded.add state).edns,
        edns ∈ state.edns ∨ ∃ sect, (sect, Part.opt edns) ∈ parts := by
  induction parts generalizing state with
  | nil => exact ⟨by simp [recordsOf], rfl, fun edns hmem ↦ .inl hmem⟩
  | cons part parts ih =>
    obtain ⟨sect, part⟩ := part
    obtain ⟨hrrs, hnumopt, hedns⟩ := ih (state.add part)
    cases part with
    | record rr =>
      refine ⟨?_, ?_, fun edns hmem ↦ ?_⟩
      · rw [List.map_cons, List.foldl_cons, hrrs]
        simp [Decoded.add, recordsOf]
      · rw [List.map_cons, List.foldl_cons, hnumopt]
        simp [Decoded.add, Part.isOpt]
      · rcases hedns edns hmem with hold | ⟨sect', hmem'⟩
        · exact .inl hold
        · exact .inr ⟨sect', List.mem_cons_of_mem _ hmem'⟩
    | opt info =>
      refine ⟨?_, ?_, fun edns hmem ↦ ?_⟩
      · rw [List.map_cons, List.foldl_cons, hrrs]
        simp [Decoded.add, recordsOf]
      · rw [List.map_cons, List.foldl_cons, hnumopt]
        simp [Decoded.add, Part.isOpt, Nat.add_assoc, Nat.add_comm]
      · rcases hedns edns hmem with hold | ⟨sect', hmem'⟩
        · simp only [Decoded.add] at hold
          split at hold
          · cases hold
            exact .inr ⟨sect, List.mem_cons_self⟩
          · exact .inl hold
        · exact .inr ⟨sect', List.mem_cons_of_mem _ hmem'⟩

/-- The information of the OPT pseudo record of a reply, with its response code. -/
theorem ednsInfo_bytes {hdr : DnsHdr} {rcode : ℕ} (hrcode : hdr.rcode = nibble rcode)
    (hlt : rcode < 4096) (udpsize : ℕ) :
    ednsInfo hdr.bytes udpsize (optTtl rcode 0 0) = ⟨udpsize, rcode, 0, 0⟩ := by
  have hfourth := hdr.getD_bytes_three []
  rw [List.append_nil] at hfourth
  have hlow : hdr.replyFlags &&& 0xf = rcode % 16 := by
    have hval : hdr.rcode.val = rcode % 16 := by
      rw [hrcode]
      rfl
    rw [Nat.and_two_pow_sub_one_eq_mod hdr.replyFlags 4, DnsHdr.replyFlags, hval]
    omega
  have hhigh : ((optTtl rcode 0 0).getD 0 0).toNat = rcode / 16 := by
    rw [optTtl, Nat.shiftRight_eq_div_pow]
    simp only [List.cons_append, List.getD_cons_zero, UInt8.toNat_ofNat']
    omega
  have hversion : ((optTtl rcode 0 0).getD 1 0).toNat = 0 ∧
      ((optTtl rcode 0 0).getD 2 0).toNat = 0 := by simp [optTtl, putInt]
  rw [ednsInfo, hfourth, hlow, hhigh, ← Nat.shiftLeft_add_eq_or_of_lt (Nat.mod_lt _ (by decide)),
    Nat.shiftLeft_eq, show rcode / 16 * 2 ^ 4 + rcode % 16 = rcode by omega, hversion.1, hversion.2]
  rfl

theorem SameQuestions.length_eq {found : List DnsQueryel} (h : SameQuestions ql found) :
    found.length = ql.length := (List.Forall₂.length_eq h).symm

theorem exists_of_mem_recordsOf {parts : List (MessageSection × Part)} {rr : CachedRr}
    (h : rr ∈ recordsOf parts) : ∃ sect, (sect, Part.record rr) ∈ parts := by
  obtain ⟨⟨sect, part⟩, hmem, hpart⟩ := List.mem_filterMap.mp h
  cases part with
  | record rr' =>
    cases hpart
    exact ⟨sect, hmem⟩
  | opt edns => cases hpart

/-- Questions and records that stand in a reply are read from it. -/
theorem parses_of_partsAt {found : List DnsQueryel} {front : Octets}
    {parts : List (MessageSection × Part)} (hql : ql.length < 2 ^ 16) (hsame : SameQuestions ql found)
    (hquestions : QuestionsAt (reply.hdr.bytes ++ front) 12 found (12 + front.length))
    (hstarts : front <+: reply.body)
    (hparts : PartsAt reply.msg (12 + front.length) (parts.map Prod.snd) reply.msg.length)
    (hrcode : reply.hdr.rcode = nibble reply.rcode)
    (hqdcount : reply.hdr.qdcount = UInt16.ofNat ql.length)
    (hcounts : reply.hdr.ancount = sectionCount parts .S_ANSWER ∧
      reply.hdr.nscount = sectionCount parts .S_AUTHORITY ∧
      reply.hdr.arcount = sectionCount parts .S_ADDITIONAL)
    (hrecord : ∀ sect rr, (sect, Part.record rr) ∈ parts → FromCache host queryts rr)
    (hopt : ∀ sect edns, (sect, Part.opt edns) ∈ parts →
      edns = ⟨conf.udpbufsize % 2 ^ 16, reply.rcode, 0, 0⟩)
    (hwithOpt : WithOpt ednsinfo parts)
    (hfits : (∃ part ∈ parts, part.1 = .S_ADDITIONAL ∧ part.2.isOpt = false) →
      ∀ limit ∈ udp, reply.msg.length ≤ limit) :
    Parses host conf queryts ql ednsinfo udp reply := by
  have hquery : decodeQuery reply.msg =
      .ok ⟨found, 12 + front.length, reply.msg.length - (12 + front.length), false⟩ := by
    obtain ⟨more, hmore⟩ := hstarts
    have hat : QuestionsAt reply.msg 12 found (12 + front.length) := by
      rw [Reply.msg, ← hmore, ← List.append_assoc]
      exact hquestions.append more
    have hcount : (DnsHdr.read reply.msg).qdcount.toNat = found.length := by
      rw [Reply.msg, DnsHdr.read_bytes, hqdcount, UInt16.toNat_ofNat', hsame.length_eq]
      exact Nat.mod_eq_of_lt hql
    rw [decodeQuery, hcount]
    refine decodeQuestions_of_questionsAt hat rfl ?_ rfl
    have hle : 12 ≤ reply.msg.length := (Nat.le_add_right _ _).trans hparts.le
    simp only
    omega
  have hrecords : rrs2cent reply.msg (parts.map Prod.snd).length
      ⟨12 + front.length, reply.msg.length - (12 + front.length), [], 0, none⟩ = .ok _ :=
    rrs2cent_of_partsAt hparts le_rfl rfl (Nat.add_sub_cancel' hparts.le)
  obtain ⟨hrrs, hnumopt, hedns⟩ := foldl_add parts
    ⟨12 + front.length, reply.msg.length - (12 + front.length), [], 0, none⟩
  rw [List.length_map] at hrecords
  refine ⟨hrcode, found, _, parts, _, hsame, hquery, hrecords, rfl, ?_, ?_, hwithOpt.1,
    hcounts.1, hcounts.2.1, hcounts.2.2, ?_, ?_, hfits⟩
  · simp only [hrrs, List.nil_append]
  · intro rr hmem
    simp only [hrrs, List.nil_append] at hmem
    obtain ⟨sect, hpart⟩ := exists_of_mem_recordsOf hmem
    exact hrecord sect rr hpart
  · simp only [hnumopt, Nat.zero_add]
    exact hwithOpt.2
  · intro edns hmem
    rcases hedns edns hmem with hnone | ⟨sect, hpart⟩
    · cases hnone
    · exact hopt sect edns hpart

/-- A reply is read as it was composed. -/
theorem parses_of_composed {id : UInt16} {opcode : Fin 16} {rd : Bool} (hql : ql.length < 2 ^ 16)
    (h : Composed host conf queryts reply.hdr.bytes ql ednsinfo udp id opcode rd reply) :
    Parses host conf queryts ql ednsinfo udp reply := by
  obtain ⟨front, cb, found, parts, hsame, hquestions, hwritten, hopt, hfits, hextended⟩ := h.parts
  have hsz : (⟨reply.hdr, reply.body, cb⟩ : Answer).sz = reply.msg.length := by
    rw [Reply.msg, List.length_append, DnsHdr.length_bytes, Answer.sz]
  have hrcode : reply.hdr.rcode = nibble reply.rcode := congrArg DnsHdr.rcode hwritten.hdr
  refine parses_of_partsAt hql hsame hquestions hwritten.starts (hsz ▸ hwritten.partsAt) hrcode
    (congrArg DnsHdr.qdcount hwritten.hdr) ⟨congrArg DnsHdr.ancount hwritten.hdr,
      congrArg DnsHdr.nscount hwritten.hdr, congrArg DnsHdr.arcount hwritten.hdr⟩
    (fun sect rr hmem ↦ hwritten.partOk _ hmem) ?_ hopt (hsz ▸ hfits)
  intro sect edns hpart
  have hlt : reply.rcode < 16 := by
    by_contra hle
    have hfalse := hextended (Nat.not_lt.mp hle) _ hpart
    cases hfalse
  have hzero : optTtl reply.rcode 0 0 = [0, 0, 0, 0] := by
    rw [optTtl, Nat.shiftRight_eq_div_pow, Nat.div_eq_of_lt hlt]
    rfl
  obtain ⟨-, hinfo⟩ := hwritten.partOk _ hpart
  rw [hinfo, ← hzero]
  exact ednsInfo_bytes hrcode (by omega) _

/-- An error reply has no questions, and no records but an OPT pseudo record. -/
theorem mkErrorReply_parses (id : UInt16) (opcode : Fin 16) {rescode : ℕ} (hlt : rescode < 4096) :
    Parses host conf queryts [] true udp (mkErrorReply conf id opcode rescode) := by
  let hdr := { replyHdr id opcode false with rcode := nibble rescode }
  rw [mkErrorReply]
  split
  next =>
    let ans := addOptPseudoRr ⟨hdr, [], []⟩ (conf.udpbufsize % 2 ^ 16) rescode 0 0
    have hpart := partAt_addOptPseudoRr ans.hdr.length_bytes ⟨hdr, [], []⟩
      (Nat.mod_lt conf.udpbufsize (by decide : 0 < 2 ^ 16)) rescode 0 0
    rw [ednsInfo_bytes rfl hlt] at hpart
    have hend : ans.sz = (ans.hdr.bytes ++ ans.body).length := by
      rw [List.length_append, DnsHdr.length_bytes, Answer.sz]
    have hparts : PartsAt (ans.hdr.bytes ++ ans.body) 12
        ([(MessageSection.S_ADDITIONAL,
          Part.opt ⟨conf.udpbufsize % 2 ^ 16, rescode, 0, 0⟩)].map Prod.snd)
        (ans.hdr.bytes ++ ans.body).length := by
      rw [← hend]
      exact .concat .nil hpart
    exact parses_of_partsAt (by decide) .nil .nil List.nil_prefix hparts rfl rfl
      ⟨rfl, rfl, rfl⟩ (by simp) (by simp) ⟨by simp [InOrder], by simp [Part.isOpt]⟩ (by simp [Part.isOpt])
  next =>
    have hend : (hdr.bytes ++ []).length = 12 := by
      rw [List.append_nil, DnsHdr.length_bytes]
    have hparts : PartsAt (hdr.bytes ++ []) 12
        (([] : List (MessageSection × Part)).map Prod.snd) (hdr.bytes ++ []).length := by
      rw [hend]
      exact .nil
    exact parses_of_partsAt (by decide) .nil .nil List.nil_prefix hparts rfl rfl
      ⟨rfl, rfl, rfl⟩ (by simp) (by simp) ⟨.nil, Nat.zero_le _⟩ (by simp)

/-- What can be said of a query from what becomes of it. -/
def PlanOk (data : Octets) : Plan → Prop
  | .discard => data.length < 2 ∨ (DnsHdr.read data).qr = true ∨ (DnsHdr.read data).rcode ≠ nibble 0
  | .fail rescode => rescode < 4096 ∧ rescode ≠ RC_OK
  | .answer ql _ => ∃ query, decodeQuery data = .ok query ∧ query.ql = ql

theorem planOk_checkEdns {data : Octets} {query : DecodedQuery} (hquery : decodeQuery data = .ok query)
    (found : Decoded) : PlanOk data (checkEdns query.ql found) := by
  rw [checkEdns]
  split
  · exact ⟨query, hquery, rfl⟩
  split
  · exact show RC_BADVERS < 4096 ∧ RC_BADVERS ≠ RC_OK by decide
  split
  · exact show RC_FORMAT < 4096 ∧ RC_FORMAT ≠ RC_OK by decide
  · exact ⟨query, hquery, rfl⟩

theorem planOk_checkHeader {data : Octets} {plan : Plan}
    (h : checkHeader (DnsHdr.read data) data.length = some plan) : PlanOk data plan := by
  have hcodes : (RC_FORMAT < 4096 ∧ RC_FORMAT ≠ RC_OK) ∧ RC_NOTSUPP < 4096 ∧ RC_NOTSUPP ≠ RC_OK := by
    decide
  rw [checkHeader] at h
  split at h
  next hlength =>
    cases h
    exact .inl hlength
  split at h
  · cases h
    exact hcodes.1
  split at h
  next hqr =>
    cases h
    exact .inr (.inl hqr)
  split at h
  · cases h
    exact hcodes.2
  split at h
  · cases h
    exact hcodes.1
  split at h
  next hrcode =>
    cases h
    exact .inr (.inr hrcode)
  split at h
  · cases h
    exact hcodes.1
  split at h
  · cases h
    exact hcodes.1
  · cases h

/-- The sections of a query are read within its octets. -/
theorem exists_readSections (hdr : DnsHdr) (data : Octets) :
    ∃ plan, readSections hdr data = some plan ∧ PlanOk data plan := by
  have hformat : PlanOk data (.fail RC_FORMAT) :=
    show RC_FORMAT < 4096 ∧ RC_FORMAT ≠ RC_OK by decide
  obtain ⟨hne, hok⟩ := decodeQuery_spec data
  rw [readSections]
  split
  next houtside => exact absurd houtside hne
  next => exact ⟨_, rfl, hformat⟩
  next query hquery =>
    split
    · exact ⟨_, rfl, hformat⟩
    split
    · exact ⟨_, rfl, query, hquery, rfl⟩
    split
    · exact ⟨_, rfl, hformat⟩
    have hadditional : (decodeQueryAdditional data hdr.arcount.toNat
        ⟨query.ptrrem, query.lenrem, [], 0, none⟩).2 ≠ some .outside :=
      decodeQueryAdditional_ne_outside (hok query hquery).2.2
    rw [readAdditional]
    split
    next found houtside =>
      rw [houtside] at hadditional
      exact absurd rfl hadditional
    next found rc _ =>
      refine ⟨_, rfl, ?_⟩
      split
      · exact planOk_checkEdns hquery _
      · exact hformat
    next => exact ⟨_, rfl, planOk_checkEdns hquery _⟩

theorem exists_readQuery (data : Octets) :
    ∃ plan, readQuery data = some plan ∧ PlanOk data plan := by
  rw [readQuery]
  split
  next plan hplan => exact ⟨plan, rfl, planOk_checkHeader hplan⟩
  next => exact exists_readSections _ data

theorem mkErrorReply_hdr (id : UInt16) (opcode : Fin 16) (rescode : ℕ) :
    (mkErrorReply conf id opcode rescode).hdr.id = id ∧
      (mkErrorReply conf id opcode rescode).hdr.qr = true ∧
      (mkErrorReply conf id opcode rescode).rcode = rescode := by
  rw [mkErrorReply]
  split
  · exact ⟨rfl, rfl, rfl⟩
  · exact ⟨rfl, rfl, rfl⟩

/-- What a reply tells the client, and what it can be read as. -/
def Answers (host : Host σ) (conf : Global) (queryts : ℤ) (data : Octets) (limit : Option ℕ)
    (reply : Reply) : Prop :=
  reply.hdr.id = (DnsHdr.read data).id ∧ reply.hdr.qr = true ∧
    ∃ ql, Parses host conf queryts ql true limit reply ∧
      (ql = [] ∧ reply.rcode ≠ RC_OK ∨ ∃ query, decodeQuery data = .ok query ∧ query.ql = ql)

theorem answers_mkErrorReply (data : Octets) (opcode : Fin 16) {rescode : ℕ} (limit : Option ℕ)
    (hrescode : rescode < 4096 ∧ rescode ≠ RC_OK) :
    Answers host conf queryts data limit
      (mkErrorReply conf (DnsHdr.read data).id opcode rescode) := by
  obtain ⟨hid, hqr, hrcode⟩ := @mkErrorReply_hdr conf (DnsHdr.read data).id opcode rescode
  exact ⟨hid, hqr, [], mkErrorReply_parses _ _ hrescode.1, .inl ⟨rfl, by rw [hrcode]; exact hrescode.2⟩⟩

theorem Parses.mono (h : Parses host conf queryts ql ednsinfo udp reply) :
    Parses host conf queryts ql true udp reply := by
  obtain ⟨hrcode, found, ptr, parts, final, hsame, hquery, hrecords, hptr, hrrs, hcache, horder, han,
    hns, har, hopt, hedns, hfits⟩ := h
  exact ⟨hrcode, found, ptr, parts, final, hsame, hquery, hrecords, hptr, hrrs, hcache, horder, han,
    hns, har, hopt.trans ednsinfo.toNat_le, hedns, hfits⟩

variable (host conf queryts) in
theorem exists_answers {data : Octets} {query : DecodedQuery} (hquery : decodeQuery data = .ok query)
    (ednsinfo : Bool) (limit : Option ℕ) (world : σ) :
    ∃ reply world', composeAnswer host conf queryts query.ql (DnsHdr.read data) ednsinfo limit world =
        some (reply, world') ∧ Answers host conf queryts data limit reply := by
  obtain ⟨hcount, hwf, -⟩ := (decodeQuery_spec data).2 query hquery
  have hcompose (header : Octets) (hheader : header.length = 12) :
      ∃ reply world', composeAnswer host conf queryts query.ql (DnsHdr.read data) ednsinfo limit
          world = some (reply, world') ∧
        Composed host conf queryts header query.ql ednsinfo limit (DnsHdr.read data).id (nibble 0)
          (DnsHdr.read data).rd reply :=
    exists_composeAnswer hheader hwf (DnsHdr.read data) ednsinfo limit world
  -- the octets do not depend on the header, which is complete only at the end
  obtain ⟨reply, world', hreply, -⟩ := hcompose (List.replicate 12 0) List.length_replicate
  obtain ⟨_, _, hreply', hcomposed⟩ := hcompose reply.hdr.bytes reply.hdr.length_bytes
  rw [hreply] at hreply'
  cases hreply'
  obtain ⟨front, cb, found, parts, -, -, hwritten, -⟩ := hcomposed.parts
  have hhdr : reply.hdr = _ := hwritten.hdr
  have hid : reply.hdr.id = (DnsHdr.read data).id := by
    rw [hhdr]
    rfl
  have hqr : reply.hdr.qr = true := by
    rw [hhdr]
    rfl
  exact ⟨reply, world', hreply, hid, hqr, query.ql, (parses_of_composed hcount hcomposed).mono,
    .inr ⟨query, hquery, rfl⟩⟩

/-- Whatever octets arrive as a query, and whatever well formed records the cache holds: no assertion
fails, and nothing is read outside of the query. Only what is too short or is no query is discarded.
Every reply has the identifier of the query, and is a message that the decoders of the daemon read
completely: an error code without questions, or the questions of the query and records of the cache
in the order of the sections. Address records are in the additional section only if the message is not
longer than it may be. -/
theorem processQuery_correct (host : Host σ) (conf : Global) (queryts : ℤ) (data : Octets)
    (udp : Option ℕ) (world : σ) :
    match processQuery host conf queryts data udp world with
    | (.stopped, _, _) => False
    | (.discarded, _, _) =>
        data.length < 2 ∨ (DnsHdr.read data).qr = true ∨ (DnsHdr.read data).rcode ≠ nibble 0
    | (.replied reply, limit, _) => Answers host conf queryts data limit reply := by
  obtain ⟨plan, hplan, hok⟩ := exists_readQuery data
  rw [processQuery]
  simp only [hplan]
  cases plan with
  | discard => exact hok
  | fail rescode => exact answers_mkErrorReply data _ udp hok
  | answer ql ednsinfo =>
    obtain ⟨query, hquery, rfl⟩ := hok
    simp only
    by_cases hempty : query.ql = []
    · rw [if_pos hempty]
      exact answers_mkErrorReply data _ _ (by decide)
    · rw [if_neg hempty]
      obtain ⟨reply, world', hreply, hanswers⟩ := exists_answers host conf queryts hquery
        ednsinfo.isSome (replyLimit conf udp ednsinfo) world
      rw [hreply]
      exact hanswers

end Correctness

end Orbot.Pdnsd
