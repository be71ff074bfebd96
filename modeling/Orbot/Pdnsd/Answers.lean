import Mathlib.Data.List.Rotate
import Orbot.Pdnsd.Queries

/-!
# Answers

`process_query` answers a query from the cache. The cache and the name servers are given by what the
calls into them return, and by the state that the calls change. A failed assertion or a read outside
of the record data is none; memory does not run out.
-/

namespace Orbot.Pdnsd

/-- The data of a record of a type. A record of a message has 16 bits for their length. -/
structure RrData (type : ℕ) where
  data : Octets
  wellFormed : WellFormedData type data
  length_lt : data.length < 2 ^ 16

/-- `rr_set_t`. -/
structure RrSet (type : ℕ) where
  ttl : ℤ
  ts : ℤ
  isLocal : Bool
  isNegative : Bool
  rrs : List (RrData type)

/-- `dns_cent_t`. -/
structure DnsCent where
  qname : DomainName
  isNegative : Bool
  isLocal : Bool
  rrmu : (type : ℕ) → Option (RrSet type)
  rrext : Option ((type : ℕ) → Option (RrSet type))
  c_ns : ℕ
  c_soa : ℕ

def cundef : ℕ := 0xff

def T_MIN : ℕ := 1
def T_TXT : ℕ := 16
def QT_IXFR : ℕ := 251
def QT_AXFR : ℕ := 252
def QT_MAILB : ℕ := 253
def QT_MAILA : ℕ := 254
def QT_ALL : ℕ := 255
def QC_ALL : ℕ := 255

def RC_OK : ℕ := 0
def RC_FORMAT : ℕ := 1
def RC_SERVFAIL : ℕ := 2
def RC_NAMEERR : ℕ := 3
def RC_NOTSUPP : ℕ := 4
def RC_BADVERS : ℕ := 16

def MAX_HOPS : ℕ := 20
def UDP_BUFSIZE : ℕ := 512

/-- The types that every entry has room for. -/
def rrmuiterlist : List ℕ := [T_A, T_NS, T_CNAME, T_SOA, T_PTR, T_MX, T_TXT, T_AAAA]

/-- The types that can be cached, in ascending order. -/
def rrcachiterlist : List ℕ := (List.range' T_MIN T_MAX).filter (¬PDNSD_NOT_CACHED_TYPE ·)

def DnsCent.getrrset (cent : DnsCent) (type : ℕ) : Option (RrSet type) :=
  if cent.isNegative then none
  else if type ∈ rrmuiterlist then cent.rrmu type
  else if PDNSD_NOT_CACHED_TYPE type then none
  else cent.rrext.bind fun rrext ↦ rrext type

def DnsCent.haveRr (cent : DnsCent) (type : ℕ) : Prop :=
  ∃ rrset ∈ cent.getrrset type, rrset.rrs ≠ []

instance (cent : DnsCent) (type : ℕ) : Decidable (cent.haveRr type) :=
  match h : cent.getrrset type with
  | none => isFalse (by simp [DnsCent.haveRr, h])
  | some rrset =>
      decidable_of_iff (rrset.rrs.isEmpty = false) (by simp [DnsCent.haveRr, h])

/-- `RRITERLIST`. -/
def DnsCent.iterlist (cent : DnsCent) : List ℕ :=
  if cent.isNegative then [] else if cent.rrext.isSome then rrcachiterlist else rrmuiterlist

/-- `ans_ttl`, as an unsigned number of 32 bits. -/
def ansTtl {type : ℕ} (rrset : RrSet type) (queryts : ℤ) : ℕ :=
  let ttl :=
    if rrset.isLocal then rrset.ttl
    else max (rrset.ttl - max (queryts - rrset.ts) 0) 0
  (ttl % 2 ^ 32).toNat

/-- What `dns_cached_resolve` returns: an entry, or the error and the number of labels of the zone. -/
inductive Resolved where
  | cached (cent : DnsCent)
  | failed (rc : ℕ) (c_soa : ℕ)

/-- The functions of other parts of the daemon. -/
structure Host (σ : Type) where
  dnsCachedResolve : σ → Octets → ℕ → Resolved × σ
  lookupCache : σ → Octets → Option DnsCent × σ
  getlocalowner : σ → Octets → ℕ → Option Octets × σ
  random : σ → ℕ × σ

/-- The options of `global` that are used. -/
structure Global where
  rnd_recs : Bool
  udpbufsize : ℕ

/-- `sva_t`. -/
structure Sva where
  tp : ℕ
  nm : Octets
  data : Octets

/-- `rr_ext_t`. -/
structure RrExt where
  tp : ℕ
  tnm : Octets
  nm : Octets
  ttl : ℕ

/-- The variables of `compose_answer`. -/
structure Composing (σ : Type) where
  world : σ
  ans : Answer
  sva : List Sva
  ar : List RrExt
  aa : Bool

/-- The type of an element of `ar` for other records than those of name servers and zones. -/
def RRETP_ADD : ℕ := 0

/-- The offset of the server name in the data of a type, from `ar_recs` and `ar_offs`. -/
def arOffs (tp : ℕ) : Option ℕ :=
  if tp ∈ [T_NS, T_MD, T_MF, T_MB] then some 0
  else if tp = T_MX then some 2
  else if tp = T_SRV then some 6
  else none

section Compose

variable {σ : Type} (host : Host σ) (conf : Global) (queryts : ℤ) (udp : Option ℕ)

/-- The order of the records of a set: `randrr` selects the first one, if the option says so. -/
def randrr {α : Type} (world : σ) (rrs : List α) : List α × σ :=
  if conf.rnd_recs ∧ rrs ≠ [] then
    let cnt := host.random world
    (rrs.rotate (cnt.1 % rrs.length), cnt.2)
  else (rrs, world)

/-- The body of the loop of `add_rrset`. -/
def addRrsetRr (rrn : Octets) (tp ttl : ℕ) (c : Composing σ) (b : RrData tp) :
    Option (Composing σ) :=
  (addRr c.ans rrn tp ttl b.data .S_ANSWER udp).map fun ans ↦
    { c with
      ans := ans
      sva :=
        if tp ∈ [T_NS, T_A, T_AAAA] then c.sva ++ [⟨tp, rrn.take (rhnlen rrn), b.data⟩] else c.sva
      ar :=
        match arOffs tp with
        | some offs => c.ar ++ [⟨RRETP_ADD, b.data.drop offs, [], 0⟩]
        | none => c.ar }

def addRrset (rrn : Octets) (cached : DnsCent) (c : Composing σ) (tp : ℕ) : Option (Composing σ) :=
  match cached.getrrset tp with
  | none => some c
  | some crrset =>
      let order := randrr host conf c.world crrset.rrs
      order.1.foldlM (addRrsetRr udp rrn tp (ansTtl crrset queryts)) { c with world := order.2 }

/-- The types of the records that answer a question; none for zone transfers, which fail. -/
def answerTypes (cached : DnsCent) (qtype : ℕ) : Option (List ℕ) :=
  if qtype = QT_AXFR ∨ qtype = QT_IXFR then none
  else if qtype = QT_MAILB then some [T_MB, T_MG, T_MR]
  else if qtype = QT_MAILA then some [T_MD, T_MF]
  else if qtype = QT_ALL then some cached.iterlist
  else if T_MIN ≤ qtype ∧ qtype ≤ T_MAX then some [qtype]
  else none

/-- There are no records of the type that is asked for, but there may be an alias. -/
def NeedsCname (cached : DnsCent) (qtype : ℕ) : Prop :=
  qtype ≠ T_CNAME ∧ qtype ≠ QT_ALL ∧ ¬((T_MIN ≤ qtype ∧ qtype ≤ T_MAX) ∧ cached.haveRr qtype)

instance (cached : DnsCent) (qtype : ℕ) : Decidable (NeedsCname cached qtype) :=
  inferInstanceAs (Decidable (_ ∧ _ ∧ ¬(_ ∧ _)))

def addToResponse (rrn : Octets) (qtype : ℕ) (cached : DnsCent) (c : Composing σ) :
    Option (Composing σ) :=
  (if NeedsCname cached qtype then addRrset host conf queryts udp rrn cached c T_CNAME
    else some c).bind fun c ↦
      (answerTypes cached qtype).bind fun types ↦
        types.foldlM (addRrset host conf queryts udp rrn cached) c

/-- `follow_cname_chain`, with its assertion. -/
def followCnameChain (cached : DnsCent) : Option (Option Octets) :=
  match (cached.getrrset T_CNAME).bind fun rrset ↦ rrset.rrs.head? with
  | none => some none
  | some rr => if DNSNAMEBUFSIZE < rr.data.length then none else some (some rr.data)

/-- `add_additional_rr`. -/
def addAdditionalRr (rhn : Octets) (tp ttl : ℕ) (data : Octets) (sect : MessageSection)
    (c : Composing σ) : Option (Composing σ) :=
  if c.sva.any fun st ↦ st.tp = tp ∧ rhnicmp st.nm rhn ∧ st.data = data then some c
  else
    (addRr c.ans rhn tp ttl data sect udp).map fun ans ↦
      { c with ans := ans, sva := c.sva ++ [⟨tp, rhn.take (rhnlen rhn), data⟩] }

/-- `add_additional_rrs`. -/
def addAdditionalRrs (rhn : Octets) (tp : ℕ) (rrset : RrSet tp) (sect : MessageSection)
    (c : Composing σ) : Option (Composing σ) :=
  let order := randrr host conf c.world rrset.rrs
  order.1.foldlM
    (fun c rr ↦ addAdditionalRr udp rhn tp (ansTtl rrset queryts) rr.data sect c)
    { c with world := order.2 }

/-- The records of a type of an entry, for the additional section. -/
def addAdditionalSet (rhn : Octets) (ae : DnsCent) (c : Composing σ) (tp : ℕ) :
    Option (Composing σ) :=
  match ae.getrrset tp with
  | none => some c
  | some rrset => addAdditionalRrs host conf queryts udp rhn tp rrset .S_ADDITIONAL c

/-- `add_additional_a`. -/
def addAdditionalA (rhn : Octets) (c : Composing σ) : Option (Composing σ) :=
  let ae := host.lookupCache c.world rhn
  match ae.1 with
  | none => some { c with world := ae.2 }
  | some cent =>
      [T_A, T_AAAA].foldlM (addAdditionalSet host conf queryts udp rhn cent) { c with world := ae.2 }

/-- The set of a type that is not negative. -/
def DnsCent.positiveSet (cent : DnsCent) (type : ℕ) : Option (RrSet type) :=
  (cent.getrrset type).filter fun rrset ↦ !rrset.isNegative

/-- The entry of a zone that a name ends with, if the number of its labels is known. -/
def lookupZone (world : σ) (qname : Octets) (tcnt : ℕ) : Option DnsCent × σ :=
  let scnt := rhnsegcnt qname
  host.lookupCache world
    (if tcnt ≠ cundef ∧ tcnt < scnt then skipsegs qname (scnt - tcnt) else qname)

/-- The name servers or the zone of an entry, from a name higher up in the hierarchy if need be. -/
def findAuthority (world : σ) (prev : DnsCent) (rretp : ℕ) :
    Option (DnsCent × RrSet rretp) × σ :=
  match prev.positiveSet rretp with
  | some rrset => (some (prev, rrset), world)
  | none =>
      let zone := lookupZone host world prev.qname.rhn (if rretp = T_NS then prev.c_ns else prev.c_soa)
      match zone.1.bind fun cent ↦ (cent.positiveSet rretp).map (Prod.mk cent) with
      | some found => (some found, zone.2)
      | none =>
          if prev.isLocal then
            let nm := host.getlocalowner zone.2 prev.qname.rhn rretp
            match nm.1 with
            | none => (none, nm.2)
            | some owner =>
                let cached := host.lookupCache nm.2 owner
                (cached.1.bind fun cent ↦ (cent.getrrset rretp).map (Prod.mk cent), cached.2)
          else (none, zone.2)

/-- There is no record of the requested type in the answer section. -/
def LacksRr (cached : DnsCent) (qtype : ℕ) : Prop :=
  (T_MIN ≤ qtype ∧ qtype ≤ T_MAX) ∧ ¬cached.haveRr qtype ∨
    qtype = QT_MAILB ∧ ¬cached.haveRr T_MB ∧ ¬cached.haveRr T_MG ∧ ¬cached.haveRr T_MR ∨
    qtype = QT_MAILA ∧ ¬cached.haveRr T_MD ∧ ¬cached.haveRr T_MF

instance (cached : DnsCent) (qtype : ℕ) : Decidable (LacksRr cached qtype) :=
  inferInstanceAs (Decidable (_ ∧ ¬_ ∨ _ ∧ ¬_ ∧ ¬_ ∧ ¬_ ∨ _ ∧ ¬_ ∧ ¬_))

/-- The elements of `ar` for the authority section. -/
def addAuthority (qtype : ℕ) (cached : DnsCent) (c : Composing σ) : Composing σ :=
  let rretp := if LacksRr cached qtype then T_SOA else T_NS
  let found := findAuthority host c.world cached rretp
  match found.1 with
  | none => { c with world := found.2 }
  | some authority =>
      { c with
        world := found.2
        ar := c.ar ++ authority.2.rrs.map fun rr ↦
          ⟨rretp, rr.data, authority.1.qname.rhn, ansTtl authority.2 queryts⟩ }

/-- The records of the zone of a name that does not exist. -/
def addZone (qname : Octets) (c_soa : ℕ) (c : Composing σ) : Option (Composing σ) :=
  let scnt := rhnsegcnt qname
  if c_soa ≠ cundef ∧ c_soa < scnt then
    let cached := host.lookupCache c.world (skipsegs qname (scnt - c_soa))
    match cached.1.bind fun cent ↦ (cent.positiveSet T_SOA).map (Prod.mk cent) with
    | none => some { c with world := cached.2 }
    | some zone =>
        zone.2.rrs.foldlM
          (fun c rr ↦
            (addRr c.ans zone.1.qname.rhn T_SOA (ansTtl zone.2 queryts) rr.data .S_AUTHORITY udp).map
              fun ans ↦ { c with ans := ans })
          { c with world := cached.2 }
  else some c

/-- The OPT pseudo record of a reply to a query that has one. -/
def addOpt (ednsinfo : Bool) (rcode : ℕ) (c : Composing σ) : Composing σ :=
  if ednsinfo then
    { c with ans := addOptPseudoRr c.ans (conf.udpbufsize % 2 ^ 16) rcode 0 0 }
  else c

/-- The end of `compose_answer` if a name could not be resolved. -/
def failQuestion (ednsinfo : Bool) (qname : Octets) (rc c_soa : ℕ) (c : Composing σ) :
    Option (Composing σ) :=
  let failed := { c with ans.hdr.rcode := nibble rc }
  if rc = RC_NAMEERR then
    (addZone host queryts udp qname c_soa failed).map (addOpt conf ednsinfo rc)
  else some failed

/-- How a round of the loop along a chain of aliases ends: with the next name, with the last answer,
or with an error code. -/
inductive Round where
  | target (qname : Octets)
  | done
  | failed (rc : ℕ)

def answerRound (rd ednsinfo : Bool) (qtype : ℕ) (qname : Octets) (c : Composing σ) :
    Option (Composing σ × Round) :=
  match host.dnsCachedResolve c.world qname qtype with
  | (.failed rc c_soa, world) =>
      (failQuestion host conf queryts udp ednsinfo qname rc c_soa { c with world := world }).map
        fun c ↦ (c, .failed rc)
  | (.cached cached, world) =>
      (addToResponse host conf queryts udp qname qtype cached
        { c with world := world, aa := c.aa && cached.isLocal }).bind fun c ↦
          (if rd ∧ NeedsCname cached qtype then followCnameChain cached else some none).map fun
            | some target => (c, .target target)
            | none => (addAuthority host queryts qtype cached c, .done)

/-- The answer to a question, with the error code if there is an error. -/
def answerQuestion (rd ednsinfo : Bool) (qtype : ℕ) :
    ℕ → Octets → Composing σ → Option (Composing σ × Option ℕ)
  | hops, qname, c =>
      match answerRound host conf queryts udp rd ednsinfo qtype qname c with
      | none => none
      | some (c, .failed rc) => some (c, some rc)
      | some (c, .done) => some (c, none)
      | some (c, .target target) =>
          match hops with
          | 0 => some (c, none)
          | hops + 1 => answerQuestion rd ednsinfo qtype hops target c

/-- The answers to the questions, up to an error. -/
def answerQuestions (rd ednsinfo : Bool) : List DnsQueryel → Composing σ →
    Option (Composing σ × Option ℕ)
  | [], c => some (c, none)
  | qe :: ql, c =>
      (answerQuestion host conf queryts udp rd ednsinfo qe.qtype MAX_HOPS
        (qe.query.take (rhnlen qe.query)) c).bind fun
        | (c, some rc) => some (c, some rc)
        | (c, none) => answerQuestions rd ednsinfo ql c

/-- The loop over `ar` for the authority section. -/
def addAuthorityRr (c : Composing σ) (rre : RrExt) : Option (Composing σ) :=
  if rre.tp = T_NS ∨ rre.tp = T_SOA then
    addAdditionalRr udp rre.nm rre.tp rre.ttl rre.tnm .S_AUTHORITY c
  else some c

/-- The loop over `ar` for the addresses of name servers. -/
def addAddresses (c : Composing σ) (rre : RrExt) : Option (Composing σ) :=
  if rre.tp = T_NS ∨ rre.tp = RRETP_ADD then addAdditionalA host conf queryts udp rre.tnm c
  else some c

/-- The authority section and the additional section. -/
def addSections (ednsinfo : Bool) (c : Composing σ) : Option (Composing σ) :=
  (c.ar.foldlM (addAuthorityRr udp) c).bind fun c ↦
    if ∃ limit ∈ udp, limit < c.ans.sz + 11 then some c
    else c.ar.foldlM (addAddresses host conf queryts udp) (addOpt conf ednsinfo RC_OK c)

end Compose

/-- A question that is put into the reply. -/
def addQuestion (ans : Answer) (qe : DnsQueryel) : Option Answer :=
  (compressName qe.query ans.sz ans.cb).map fun name ↦
    ⟨{ ans.hdr with qdcount := ans.hdr.qdcount + 1 },
      ans.body ++ name.1 ++ putInt 2 qe.qtype ++ putInt 2 qe.qclass, name.2⟩

/-- A question that cannot be answered. -/
def Unsupported (qe : DnsQueryel) : Prop :=
  PDNSD_NOT_CACHED_TYPE qe.qtype ∧ qe.qtype ∉ [QT_MAILB, QT_MAILA, QT_ALL] ∨
    qe.qclass ≠ C_IN ∧ qe.qclass ≠ QC_ALL

instance (qe : DnsQueryel) : Decidable (Unsupported qe) :=
  inferInstanceAs (Decidable (_ ∧ _ ∨ _ ∧ _))

/-- The header of a reply before anything is counted. -/
def replyHdr (id : UInt16) (opcode : Fin 16) (rd : Bool) : DnsHdr where
  id := id
  rd := rd
  tc := false
  aa := false
  opcode := opcode
  qr := true
  rcode := nibble 0
  cd := false
  ad := false
  z := false
  ra := true
  qdcount := 0
  ancount := 0
  nscount := 0
  arcount := 0

/-- A reply, and the response code that is reported. -/
structure Reply where
  hdr : DnsHdr
  body : Octets
  rcode : ℕ
  deriving DecidableEq

def Reply.msg (reply : Reply) : Octets := reply.hdr.bytes ++ reply.body

section Answer

variable {σ : Type} (host : Host σ) (conf : Global) (queryts : ℤ)

def composeAnswer (ql : List DnsQueryel) (hdr : DnsHdr) (ednsinfo : Bool) (udp : Option ℕ)
    (world : σ) : Option (Reply × σ) :=
  (ql.foldlM addQuestion ⟨replyHdr hdr.id (nibble 0) hdr.rd, [], []⟩).bind fun ans ↦
    if ∃ qe ∈ ql, Unsupported qe then
      some (⟨{ ans.hdr with rcode := nibble RC_NOTSUPP }, ans.body, RC_NOTSUPP⟩, world)
    else
      (answerQuestions host conf queryts udp hdr.rd ednsinfo ql ⟨world, ans, [], [], true⟩).bind fun
        | (c, some rc) => some (⟨c.ans.hdr, c.ans.body, rc⟩, c.world)
        | (c, none) =>
            (addSections host conf queryts udp ednsinfo c).map fun c ↦
              (⟨{ c.ans.hdr with aa := c.ans.hdr.aa || c.aa }, c.ans.body, RC_OK⟩, c.world)

end Answer

end Orbot.Pdnsd
