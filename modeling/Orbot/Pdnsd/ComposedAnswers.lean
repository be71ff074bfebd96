import Orbot.Foundation.PartialFolds
import Orbot.Pdnsd.Answers

/-!
# Composed answers

`compose_answer` only writes records of the cache. The records that have been written stand in the
message, section by section; the names that a record of the additional section can belong to have
been written before, so that its names need not stay in the message.
-/

namespace Orbot.Pdnsd

open Orbot.Foundation

/-- An entry that the rest of the daemon has given. -/
inductive Host.Returns {σ : Type} (host : Host σ) : DnsCent → Prop
  | resolved {world world' : σ} {qname : Octets} {qtype : ℕ} {cent : DnsCent}
      (h : host.dnsCachedResolve world qname qtype = (.cached cent, world')) : host.Returns cent
  | lookedUp {world : σ} {name : Octets} {cent : DnsCent}
      (h : (host.lookupCache world name).1 = some cent) : host.Returns cent

section Correctness

variable {σ : Type} (host : Host σ) (conf : Global) (queryts : ℤ) (header : Octets) (base : DnsHdr)
  (front : Octets)

/-- A set of records of a type that an entry of the cache has. -/
structure Cached (tp : ℕ) (rrset : RrSet tp) : Prop where
  fromCache : ∃ cent, host.Returns cent ∧ cent.getrrset tp = some rrset

/-- A record whose data and whose time to live are those of a record in the cache. -/
def FromCache (rr : CachedRr) : Prop :=
  ∃ rrset : RrSet rr.type, Cached host rr.type rrset ∧ rr.ttl = ansTtl rrset queryts ∧
    ∃ b ∈ rrset.rrs, SameData rr.type b.data rr.data

/-- A record that belongs into its section of a reply. -/
def PartOk : MessageSection × Part → Prop
  | (_, .record rr) => FromCache host queryts rr
  | (sect, .opt edns) => sect = .S_ADDITIONAL ∧
      edns = ednsInfo header (conf.udpbufsize % 2 ^ 16) [0, 0, 0, 0]

/-- The number of records of a section, as far as 16 bits can give it. -/
def sectionCount (parts : List (MessageSection × Part)) (sect : MessageSection) : UInt16 :=
  UInt16.ofNat (parts.countP fun part ↦ part.1 = sect)

/-- The records that have been written so far. -/
structure Written (ans : Answer) (parts : List (MessageSection × Part)) : Prop where
  indexed : Indexed (header ++ ans.body) ans.cb
  starts : front <+: ans.body
  partsAt : PartsAt (header ++ ans.body) (12 + front.length) (parts.map Prod.snd) ans.sz
  hdr : ans.hdr =
    { base with
      ancount := sectionCount parts .S_ANSWER
      nscount := sectionCount parts .S_AUTHORITY
      arcount := sectionCount parts .S_ADDITIONAL }
  partOk : ∀ part ∈ parts, PartOk host conf queryts header part

/-- A name that has been written before. -/
def ServerName (cb : List Compel) (tnm : Octets) : Prop :=
  ∃ name : DomainName, tnm = name.rhn ∧ Registered cb name

/-- A record of `ar` for the authority section. -/
def AuthorityOk (re : RrExt) : Prop :=
  (∃ owner : DomainName, re.nm = owner.rhn) ∧ ∃ rrset : RrSet re.tp, Cached host re.tp rrset ∧
    re.ttl = ansTtl rrset queryts ∧ ∃ b ∈ rrset.rrs, re.tnm = b.data

/-- The lists of what has been written, and of what may be added. -/
structure Listed (cb : List Compel) (sva : List Sva) (ar : List RrExt) : Prop where
  sva : ∀ st ∈ sva, st.tp = T_NS → ServerName cb st.data
  ar : ∀ re ∈ ar, re.tp = RRETP_ADD ∧ ServerName cb re.tnm ∨
    (re.tp = T_NS ∨ re.tp = T_SOA) ∧ AuthorityOk host queryts re

/-- The state of `compose_answer`, with records of which `P` is true. -/
structure Holds (P : List (MessageSection × Part) → Prop) (c : Composing σ) : Prop where
  written : ∃ parts, Written host conf queryts header base front c.ans parts ∧ P parts
  listed : Listed host queryts c.ans.cb c.sva c.ar

variable {host conf queryts header base front} {udp : Option ℕ} {ans ans' : Answer}
  {parts : List (MessageSection × Part)} {cb cb' : List Compel} {tnm : Octets}
  {sva : List Sva} {ar : List RrExt} {tp : ℕ} {rrset : RrSet tp} {sect : MessageSection}

theorem ServerName.mono (h : ServerName cb tnm) (hgrows : cb <+: cb') : ServerName cb' tnm := by
  obtain ⟨name, htnm, hregistered⟩ := h
  exact ⟨name, htnm, hregistered.mono hgrows⟩

theorem Listed.mono (h : Listed host queryts cb sva ar) (hgrows : cb <+: cb') :
    Listed host queryts cb' sva ar :=
  ⟨fun st hmem htp ↦ (h.sva st hmem htp).mono hgrows,
    fun re hmem ↦ (h.ar re hmem).imp_left fun hadd ↦ ⟨hadd.1, hadd.2.mono hgrows⟩⟩

theorem ansTtl_lt (rrset : RrSet tp) : ansTtl rrset queryts < 2 ^ 32 := by
  have hpos : (0 : ℤ) < 2 ^ 32 := by decide
  rw [ansTtl]
  generalize (if rrset.isLocal then rrset.ttl else _ : ℤ) = ttl
  have hlt := Int.emod_lt_of_pos ttl hpos
  have hnonneg := Int.emod_nonneg ttl (Int.ne_of_gt hpos)
  omega

/-- The types with a set of records can be cached. -/
theorem Cached.type (h : Cached host tp rrset) : ¬PDNSD_NOT_CACHED_TYPE tp := by
  obtain ⟨cent, -, hset⟩ := h.fromCache
  rw [DnsCent.getrrset] at hset
  split at hset
  · cases hset
  split at hset
  next hmem =>
    have hall : ∀ tp ∈ rrmuiterlist, ¬PDNSD_NOT_CACHED_TYPE tp := by decide
    exact hall tp hmem
  split at hset
  · cases hset
  next hcached => exact hcached

theorem sectionCount_concat (parts : List (MessageSection × Part)) (part : Part)
    (sect sect' : MessageSection) :
    sectionCount (parts ++ [(sect, part)]) sect' =
      if sect = sect' then sectionCount parts sect' + 1 else sectionCount parts sect' := by
  rw [sectionCount, sectionCount, List.countP_append]
  split
  next heq =>
    subst heq
    simp
  next hne => simp [hne]

theorem Written.withRcode (h : Written host conf queryts header base front ans parts)
    (rcode : Fin 16) :
    Written host conf queryts header { base with rcode := rcode } front
      { ans with hdr.rcode := rcode } parts :=
  ⟨h.indexed, h.starts, h.partsAt, by simp only; rw [h.hdr], h.partOk⟩

theorem Written.withAa (h : Written host conf queryts header base front ans parts) (aa : Bool) :
    Written host conf queryts header { base with aa := aa } front { ans with hdr.aa := aa } parts :=
  ⟨h.indexed, h.starts, h.partsAt, by simp only; rw [h.hdr], h.partOk⟩

/-- One more record. -/
theorem Written.concat (h : Written host conf queryts header base front ans parts) {part : Part}
    (hhdr : ans'.hdr = ans.hdr.count sect) (hindexed : Indexed (header ++ ans'.body) ans'.cb)
    (hbody : ans.body <+: ans'.body)
    (hpart : PartAt (header ++ ans'.body) ans.sz part ans'.sz)
    (hok : PartOk host conf queryts header (sect, part)) :
    Written host conf queryts header base front ans' (parts ++ [(sect, part)]) := by
  have hstarts := h.starts.trans hbody
  obtain ⟨more, hmore⟩ := hbody
  refine ⟨hindexed, hstarts, ?_, ?_, ?_⟩
  · rw [List.map_append]
    refine .concat ?_ hpart
    rw [← hmore, ← List.append_assoc]
    exact h.partsAt.append more
  · rw [hhdr, h.hdr]
    cases sect <;> simp [DnsHdr.count, sectionCount_concat]
  · intro other hmem
    rcases List.mem_append.mp hmem with hmem | hmem
    · exact h.partOk other hmem
    · rw [List.mem_singleton.mp hmem]
      exact hok

/-- What one call of `add_rr` with a record of the cache does. -/
structure Extended (host : Host σ) (conf : Global) (queryts : ℤ) (header : Octets) (base : DnsHdr)
    (front : Octets) (udp : Option ℕ) (parts : List (MessageSection × Part)) (sect : MessageSection)
    (tp : ℕ) (data : Octets) (ans ans' : Answer) : Prop where
  written : ∃ new, Written host conf queryts header base front ans' (parts ++ new) ∧
    ∀ part ∈ new, part.1 = sect ∧ ∃ rr, part.2 = .record rr
  grows : ans.cb <+: ans'.cb
  registered : sect ≠ .S_ADDITIONAL → ∀ fields values, rdataFields tp = some fields →
    HasFields fields values → data = valueBytes values →
      ∀ name, .domain name ∈ values → Registered ans'.cb name
  limit : sect = .S_ADDITIONAL → ∀ limit ∈ udp, ans.sz ≤ limit → ans'.sz ≤ limit

theorem Written.exists_addRr (hheader : header.length = 12)
    (h : Written host conf queryts header base front ans parts) (owner : DomainName)
    (hset : Cached host tp rrset) {b : RrData tp} (hb : b ∈ rrset.rrs) (sect : MessageSection)
    (udp : Option ℕ)
    (hadd : sect = .S_ADDITIONAL → rdataFields tp = none ∧ Registered ans.cb owner) :
    ∃ ans', addRr ans owner.rhn tp (ansTtl rrset queryts) b.data sect udp = some ans' ∧
      Extended host conf queryts header base front udp parts sect tp b.data ans ans' := by
  obtain ⟨ans', hans', hcases⟩ := Pdnsd.exists_addRr hheader h.indexed owner hset.type
    (ansTtl_lt rrset) b.wellFormed b.length_lt sect udp
  refine ⟨ans', hans', ?_⟩
  cases hcases with
  | inl hadded =>
    obtain ⟨rr, hsame, hpart⟩ := hadded.partAt
    obtain ⟨oname, type, ttl, data⟩ := rr
    obtain ⟨hname, htype, httl, hdata⟩ := hsame
    simp only at hname htype httl hdata
    subst htype httl
    refine ⟨⟨[(sect, .record ⟨oname, tp, ansTtl rrset queryts, data⟩)], ?_, by simp⟩, hadded.grows,
      fun _ ↦ hadded.registered, fun hsect limit hmem _ ↦ hadded.limit hsect limit hmem⟩
    exact h.concat hadded.hdr hadded.indexed hadded.body hpart
      ⟨rrset, hset, rfl, b, hb, hdata⟩
  | inr hdropped =>
    obtain ⟨hliteral, hregistered⟩ := hadd hdropped.sect
    have hsz : ans'.sz = ans.sz := by rw [Answer.sz, Answer.sz, hdropped.body]
    refine ⟨⟨[], ?_, by simp⟩, hdropped.grows, fun hne ↦ absurd hdropped.sect hne,
      fun _ limit _ hle ↦ hsz ▸ hle⟩
    rw [List.append_nil]
    refine ⟨?_, ?_, ?_, ?_, h.partOk⟩
    · rw [hdropped.body]
      exact hdropped.indexed hregistered hliteral
    · rw [hdropped.body]
      exact h.starts
    · rw [hdropped.body, hsz]
      exact h.partsAt
    · rw [hdropped.hdr]
      exact h.hdr

theorem fields_of_arOffs {offs : ℕ} (h : arOffs tp = some offs) :
    rdataFields tp = some [.name] ∧ offs = 0 ∨ rdataFields tp = some [.octets offs, .name] := by
  rw [arOffs] at h
  split at h
  next hmem =>
    have hname : ∀ tp ∈ [T_NS, T_MD, T_MF, T_MB], rdataFields tp = some [.name] := by decide
    exact .inl ⟨hname tp hmem, (Option.some.inj h).symm⟩
  split at h
  next htp =>
    cases h
    rw [htp]
    exact .inr (by decide)
  split at h
  next htp =>
    cases h
    rw [htp]
    exact .inr (by decide)
  · cases h

/-- Data that consist of a name. -/
theorem exists_name_of_single (hfields : rdataFields tp = some [.name]) (b : RrData tp) :
    ∃ name : DomainName, HasFields [.name] [.domain name] ∧
      b.data = valueBytes [.domain name] ∧ b.data = name.rhn := by
  have hwell := b.wellFormed
  rw [WellFormedData, hfields] at hwell
  obtain ⟨⟨values, hvalues, hdata⟩, -⟩ := hwell
  cases hvalues with
  | cons hallows hnil =>
    cases hnil
    rename_i value
    cases value with
    | domain name =>
      exact ⟨name, .cons hallows .nil, hdata, by rw [hdata]; exact List.append_nil _⟩
    | plain data => exact hallows.elim

/-- The server name in the data of a record, which is the last of their fields. -/
theorem exists_serverName {offs : ℕ} (h : arOffs tp = some offs) (b : RrData tp) :
    ∃ fields values name, rdataFields tp = some fields ∧ HasFields fields values ∧
      b.data = valueBytes values ∧ FieldValue.domain name ∈ values ∧
      b.data.drop offs = name.rhn := by
  have hwell := b.wellFormed
  rw [WellFormedData] at hwell
  rcases fields_of_arOffs h with ⟨hfields, rfl⟩ | hfields
  · obtain ⟨name, hvalues, hdata, hname⟩ := exists_name_of_single hfields b
    exact ⟨_, _, name, hfields, hvalues, hdata, List.mem_cons_self, by rw [hname, List.drop_zero]⟩
  · rw [hfields] at hwell
    obtain ⟨⟨values, hvalues, hdata⟩, -⟩ := hwell
    cases hvalues with
    | cons hlength hrest =>
      cases hrest with
      | cons hallows hnil =>
        cases hnil
        rename_i first second
        cases first with
        | domain name => exact hlength.elim
        | plain data =>
          cases second with
          | plain data' => exact hallows.elim
          | domain name =>
            have hoffs : data.length = offs := hlength
            refine ⟨_, _, name, hfields, .cons hlength (.cons hallows .nil), hdata, by simp, ?_⟩
            rw [hdata, ← hoffs]
            simp [valueBytes, FieldValue.bytes]

/-- What is true of the records is true of them with more records of a section. -/
def Admits (P : List (MessageSection × Part) → Prop) (sect : MessageSection) : Prop :=
  ∀ parts new, P parts → (∀ part ∈ new, part.1 = sect ∧ ∃ rr, part.2 = .record rr) →
    P (parts ++ new)

variable {P : List (MessageSection × Part) → Prop} {c : Composing σ} {cent : DnsCent}

/-- The state of the rest of the daemon does not matter. -/
theorem Holds.withWorld (h : Holds host conf queryts header base front P c) (world : σ) (aa : Bool) :
    Holds host conf queryts header base front P { c with world := world, aa := aa } :=
  ⟨h.written, h.listed⟩

theorem Holds.exists_addRrsetRr (hheader : header.length = 12) (hP : Admits P .S_ANSWER)
    (h : Holds host conf queryts header base front P c) (name : DomainName)
    (hset : Cached host tp rrset) {b : RrData tp} (hb : b ∈ rrset.rrs) :
    ∃ c', addRrsetRr udp name.rhn tp (ansTtl rrset queryts) c b = some c' ∧
      Holds host conf queryts header base front P c' := by
  obtain ⟨⟨parts, hwritten, hparts⟩, hlisted⟩ := h
  obtain ⟨ans', hans', hextended⟩ :=
    hwritten.exists_addRr hheader name hset hb .S_ANSWER udp (by simp)
  obtain ⟨new, hwritten', hnew⟩ := hextended.written
  have hregistered := hextended.registered (by simp)
  obtain ⟨hsva, har⟩ := hlisted.mono hextended.grows
  have hserver {offs : ℕ} (hoffs : arOffs tp = some offs) :
      ServerName ans'.cb (b.data.drop offs) := by
    obtain ⟨fields, values, server, hfields, hvalues, hdata, hmem, hdrop⟩ :=
      exists_serverName hoffs b
    exact ⟨server, hdrop, hregistered fields values hfields hvalues hdata server hmem⟩
  rw [addRrsetRr, hans']
  refine ⟨_, rfl, ⟨_, hwritten', hP _ _ hparts hnew⟩, ?_, ?_⟩
  · intro st hmem htp
    simp only at hmem
    split at hmem
    · rcases List.mem_append.mp hmem with hmem | hmem
      · exact hsva st hmem htp
      · rw [List.mem_singleton.mp hmem] at htp ⊢
        have hoffs : arOffs tp = some 0 := by
          rw [show tp = T_NS from htp]
          rfl
        exact hserver hoffs
    · exact hsva st hmem htp
  · intro re hmem
    simp only at hmem
    split at hmem
    next offs hoffs =>
      rcases List.mem_append.mp hmem with hmem | hmem
      · exact har re hmem
      · rw [List.mem_singleton.mp hmem]
        exact .inl ⟨rfl, hserver hoffs⟩
    next => exact har re hmem

theorem mem_randrr {α : Type} {world : σ} {rrs : List α} {rr : α}
    (h : rr ∈ (randrr host conf world rrs).1) : rr ∈ rrs := by
  rw [randrr] at h
  split at h
  · exact List.mem_rotate.mp h
  · exact h

theorem Holds.exists_addRrset (hheader : header.length = 12) (hP : Admits P .S_ANSWER)
    (h : Holds host conf queryts header base front P c) (name : DomainName)
    (hcent : host.Returns cent) (tp : ℕ) :
    ∃ c', addRrset host conf queryts udp name.rhn cent c tp = some c' ∧
      Holds host conf queryts header base front P c' := by
  rw [addRrset]
  cases hset : cent.getrrset tp with
  | none => exact ⟨c, rfl, h⟩
  | some rrset =>
    exact exists_foldlM (h.withWorld _ _) fun b hb c hc ↦
      hc.exists_addRrsetRr hheader hP name ⟨cent, hcent, hset⟩ (mem_randrr hb)

/-- The questions that are not refused ask for types that can be answered. -/
theorem exists_answerTypes (cent : DnsCent) {qtype : ℕ}
    (h : ¬PDNSD_NOT_CACHED_TYPE qtype ∨ qtype ∈ [QT_MAILB, QT_MAILA, QT_ALL]) :
    ∃ types, answerTypes cent qtype = some types := by
  rw [answerTypes]
  rcases h with hcached | hmem
  · rw [PDNSD_NOT_CACHED_TYPE, not_or, not_or, Nat.not_lt, Nat.not_lt] at hcached
    have hne {other : ℕ} (hother : T_MAX < other) : qtype ≠ other :=
      Nat.ne_of_lt (Nat.lt_of_le_of_lt hcached.2.1 hother)
    rw [if_neg (not_or.mpr ⟨hne (by decide), hne (by decide)⟩), if_neg (hne (by decide)),
      if_neg (hne (by decide)), if_neg (hne (by decide)), if_pos ⟨hcached.1, hcached.2.1⟩]
    exact ⟨_, rfl⟩
  · simp only [List.mem_cons, List.not_mem_nil, or_false] at hmem
    rcases hmem with rfl | rfl | rfl <;> exact ⟨_, rfl⟩

variable (udp) in
theorem Holds.exists_addToResponse (hheader : header.length = 12) (hP : Admits P .S_ANSWER)
    (h : Holds host conf queryts header base front P c) (name : DomainName)
    (hcent : host.Returns cent) {qtype : ℕ}
    (hqtype : ¬PDNSD_NOT_CACHED_TYPE qtype ∨ qtype ∈ [QT_MAILB, QT_MAILA, QT_ALL]) :
    ∃ c', addToResponse host conf queryts udp name.rhn qtype cent c = some c' ∧
      Holds host conf queryts header base front P c' := by
  have hfirst : ∃ c', (if NeedsCname cent qtype then
      addRrset host conf queryts udp name.rhn cent c T_CNAME else some c) = some c' ∧
        Holds host conf queryts header base front P c' := by
    split
    · exact h.exists_addRrset hheader hP name hcent T_CNAME
    · exact ⟨c, rfl, h⟩
  obtain ⟨first, hfirst, hholds⟩ := hfirst
  obtain ⟨types, htypes⟩ := exists_answerTypes cent hqtype
  rw [addToResponse, hfirst, Option.bind_some, htypes, Option.bind_some]
  exact exists_foldlM hholds fun tp _ c hc ↦ hc.exists_addRrset hheader hP name hcent tp

/-- The chain of aliases goes on with a name. -/
theorem followCnameChain_eq (cent : DnsCent) :
    followCnameChain cent = some none ∨
      ∃ name : DomainName, followCnameChain cent = some (some name.rhn) := by
  rw [followCnameChain]
  split
  · exact .inl rfl
  next rr _ =>
    obtain ⟨name, -, -, hname⟩ := exists_name_of_single (show rdataFields T_CNAME = _ by decide) rr
    refine .inr ⟨name, ?_⟩
    rw [hname, if_neg (show ¬_ < name.rhn.length from Nat.not_lt.mpr name.length_le)]

theorem Cached.of_positiveSet (hcent : host.Returns cent) (h : cent.positiveSet tp = some rrset) :
    Cached host tp rrset := by
  obtain ⟨hset, -⟩ := Option.filter_eq_some_iff.mp h
  exact ⟨cent, hcent, hset⟩

/-- The records for the authority section are those of an entry of the cache. -/
theorem cached_of_findAuthority {world : σ} {prev found : DnsCent} {rretp : ℕ} {rrset : RrSet rretp}
    (hprev : host.Returns prev) (h : (findAuthority host world prev rretp).1 = some (found, rrset)) :
    Cached host rretp rrset := by
  rw [findAuthority] at h
  split at h
  next rrset' hset =>
    cases h
    exact .of_positiveSet hprev hset
  next =>
    simp only at h
    split at h
    next pair hzone =>
      cases h
      obtain ⟨cent, hcent, hrest⟩ := Option.bind_eq_some_iff.mp hzone
      obtain ⟨_, hset, heq⟩ := Option.map_eq_some_iff.mp hrest
      cases heq
      exact .of_positiveSet (.lookedUp hcent) hset
    next =>
      split at h
      · split at h
        · cases h
        · obtain ⟨cent, hcent, hrest⟩ := Option.bind_eq_some_iff.mp h
          obtain ⟨_, hset, heq⟩ := Option.map_eq_some_iff.mp hrest
          cases heq
          exact ⟨found, .lookedUp hcent, hset⟩
      · cases h

theorem Holds.addAuthority (h : Holds host conf queryts header base front P c)
    (hcent : host.Returns cent) (qtype : ℕ) :
    Holds host conf queryts header base front P (addAuthority host queryts qtype cent c) := by
  rw [Pdnsd.addAuthority]
  split
  · exact ⟨h.written, h.listed⟩
  next authority hfound =>
    refine ⟨h.written, h.listed.sva, fun re hmem ↦ ?_⟩
    rcases List.mem_append.mp hmem with hmem | hmem
    · exact h.listed.ar re hmem
    · obtain ⟨rr, hrr, rfl⟩ := List.mem_map.mp hmem
      refine .inr ⟨?_, ⟨_, rfl⟩, authority.2, cached_of_findAuthority hcent hfound, rfl, rr, hrr, rfl⟩
      simp only
      split
      · exact .inr rfl
      · exact .inl rfl

theorem Holds.exists_addZone (hheader : header.length = 12) (hP : Admits P .S_AUTHORITY)
    (h : Holds host conf queryts header base front P c) (qname : Octets) (c_soa : ℕ) :
    ∃ c', addZone host queryts udp qname c_soa c = some c' ∧
      Holds host conf queryts header base front P c' := by
  rw [addZone]
  simp only
  split
  next =>
    split
    · exact ⟨_, rfl, h.written, h.listed⟩
    next zone hzone =>
      obtain ⟨cent, hcent, hrest⟩ := Option.bind_eq_some_iff.mp hzone
      obtain ⟨rrset, hset, rfl⟩ := Option.map_eq_some_iff.mp hrest
      have hcached : Cached host T_SOA rrset := .of_positiveSet (.lookedUp hcent) hset
      refine exists_foldlM ⟨h.written, h.listed⟩ fun rr hrr c hc ↦ ?_
      obtain ⟨⟨parts, hwritten, hparts⟩, hlisted⟩ := hc
      obtain ⟨ans', hans', hextended⟩ :=
        hwritten.exists_addRr hheader cent.qname hcached hrr .S_AUTHORITY udp (by simp)
      obtain ⟨new, hwritten', hnew⟩ := hextended.written
      rw [hans']
      exact ⟨_, rfl, ⟨_, hwritten', hP _ _ hparts hnew⟩, hlisted.mono hextended.grows⟩
  next => exact ⟨c, rfl, h⟩

/-- The number of a section. -/
def MessageSection.number : MessageSection → ℕ
  | .S_ANSWER => 1
  | .S_AUTHORITY => 2
  | .S_ADDITIONAL => 3

def Part.isOpt : Part → Bool
  | .record _ => false
  | .opt _ => true

/-- The sections follow each other. -/
def InOrder (parts : List (MessageSection × Part)) : Prop :=
  parts.Pairwise fun part part' ↦ part.1.number ≤ part'.1.number

def AnswersOnly (parts : List (MessageSection × Part)) : Prop :=
  ∀ part ∈ parts, part.1 = .S_ANSWER

def NoAdditional (parts : List (MessageSection × Part)) : Prop :=
  InOrder parts ∧ ∀ part ∈ parts, part.1 ≠ .S_ADDITIONAL

/-- There is an OPT pseudo record only if there may be one. -/
def WithOpt (ednsinfo : Bool) (parts : List (MessageSection × Part)) : Prop :=
  InOrder parts ∧ parts.countP (·.2.isOpt) ≤ ednsinfo.toNat

theorem inOrder_append {new : List (MessageSection × Part)} (h : InOrder parts)
    (hle : ∀ part ∈ parts, part.1.number ≤ sect.number) (hnew : ∀ part ∈ new, part.1 = sect) :
    InOrder (parts ++ new) := by
  refine List.pairwise_append.mpr ⟨h, ?_, fun part hmem part' hmem' ↦ ?_⟩
  · refine List.pairwise_of_forall_mem_list fun part hmem part' hmem' ↦ ?_
    rw [hnew part hmem, hnew part' hmem']
  · rw [hnew part' hmem']
    exact hle part hmem

theorem admits_answersOnly : Admits AnswersOnly .S_ANSWER := fun _ _ h hnew part hmem ↦
  (List.mem_append.mp hmem).elim (h part) fun hmem ↦ (hnew part hmem).1

theorem AnswersOnly.noAdditional (h : AnswersOnly parts) : NoAdditional parts := by
  refine ⟨List.pairwise_of_forall_mem_list fun part hmem part' hmem' ↦ ?_, fun part hmem ↦ ?_⟩
  · rw [h part hmem, h part' hmem']
  · rw [h part hmem]
    simp

theorem admits_noAdditional : Admits NoAdditional .S_AUTHORITY := by
  intro parts new h hnew
  refine ⟨inOrder_append h.1 (fun part hmem ↦ ?_) fun part hmem ↦ (hnew part hmem).1, ?_⟩
  · have hne := h.2 part hmem
    generalize part.1 = sect at hne
    cases sect with
    | S_ANSWER => decide
    | S_AUTHORITY => decide
    | S_ADDITIONAL => exact absurd rfl hne
  · intro part hmem
    rcases List.mem_append.mp hmem with hmem | hmem
    · exact h.2 part hmem
    · rw [(hnew part hmem).1]
      simp

theorem number_le_additional (sect : MessageSection) :
    sect.number ≤ MessageSection.S_ADDITIONAL.number := by
  cases sect <;> decide

theorem admits_withOpt (ednsinfo : Bool) : Admits (WithOpt ednsinfo) .S_ADDITIONAL := by
  intro parts new h hnew
  refine ⟨inOrder_append h.1 (fun part _ ↦ number_le_additional _) fun part hmem ↦ (hnew part hmem).1,
    ?_⟩
  have hrecords : new.countP (·.2.isOpt) = 0 := by
    refine List.countP_eq_zero.mpr fun part hmem ↦ ?_
    obtain ⟨rr, hrr⟩ := (hnew part hmem).2
    simp [hrr, Part.isOpt]
  rw [List.countP_append, hrecords, Nat.add_zero]
  exact h.2

/-- There is no OPT pseudo record before the additional section. -/
theorem Written.countP_isOpt (h : Written host conf queryts header base front ans parts)
    (hparts : NoAdditional parts) : parts.countP (·.2.isOpt) = 0 := by
  refine List.countP_eq_zero.mpr fun part hmem ↦ ?_
  have hok := h.partOk part hmem
  match part, hok with
  | (_, .record _), _ => simp [Part.isOpt]
  | (_, .opt _), hok => exact absurd hok.1 (hparts.2 _ hmem)

theorem Written.addOptPseudoRr (hheader : header.length = 12)
    (h : Written host conf queryts header base front ans parts) {rcode : ℕ} (hrcode : rcode < 16) :
    Written host conf queryts header base front
      (addOptPseudoRr ans (conf.udpbufsize % 2 ^ 16) rcode 0 0)
      (parts ++ [(.S_ADDITIONAL, .opt
        (ednsInfo header (conf.udpbufsize % 2 ^ 16) [0, 0, 0, 0]))]) := by
  have hpart := partAt_addOptPseudoRr hheader ans
    (Nat.mod_lt conf.udpbufsize (by decide : 0 < 2 ^ 16)) rcode 0 0
  have hzero : optTtl rcode 0 0 = [0, 0, 0, 0] := by
    rw [optTtl, Nat.shiftRight_eq_div_pow, Nat.div_eq_of_lt hrcode]
    rfl
  rw [hzero] at hpart
  refine h.concat rfl ?_ (List.prefix_append _ _) hpart ⟨rfl, rfl⟩
  rw [Pdnsd.addOptPseudoRr]
  simp only [← List.append_assoc]
  exact h.indexed.append _

/-- The OPT pseudo record of a reply comes first in the additional section. -/
theorem Written.addOpt (hheader : header.length = 12)
    (h : Written host conf queryts header base front c.ans parts) (hparts : NoAdditional parts)
    (ednsinfo : Bool) {rcode : ℕ} (hrcode : rcode < 16) :
    ∃ parts', Written host conf queryts header base front (addOpt conf ednsinfo rcode c).ans parts' ∧
      WithOpt ednsinfo parts' ∧ ∀ part ∈ parts', part.1 = .S_ADDITIONAL → part.2.isOpt = true := by
  have hnone := h.countP_isOpt hparts
  cases ednsinfo with
  | false =>
    refine ⟨parts, h, ⟨hparts.1, by rw [hnone]; exact Nat.zero_le _⟩, fun part hmem hsect ↦ ?_⟩
    exact absurd hsect (hparts.2 part hmem)
  | true =>
    refine ⟨_, h.addOptPseudoRr hheader hrcode, ⟨?_, ?_⟩, fun part hmem hsect ↦ ?_⟩
    · exact inOrder_append hparts.1 (fun part _ ↦ number_le_additional _) (by simp)
    · exact Nat.le_of_eq (by rw [List.countP_append, hnone]; rfl)
    · rcases List.mem_append.mp hmem with hmem | hmem
      · exact absurd hsect (hparts.2 part hmem)
      · rw [List.mem_singleton.mp hmem]
        rfl

/-- The records of a reply to a query that has led to an error code. -/
def FailedParts (host : Host σ) (conf : Global) (queryts : ℤ) (header : Octets) (base : DnsHdr)
    (front : Octets) (ednsinfo : Bool) (rc : ℕ) (ans : Answer) : Prop :=
  ∃ parts, Written host conf queryts header { base with rcode := nibble rc } front ans parts ∧
    WithOpt ednsinfo parts ∧ (∀ part ∈ parts, part.1 = .S_ADDITIONAL → part.2.isOpt = true) ∧
      (16 ≤ rc → ∀ part ∈ parts, part.2.isOpt = false)

variable (udp) in
theorem Holds.exists_failQuestion (hheader : header.length = 12)
    (h : Holds host conf queryts header base front AnswersOnly c) (ednsinfo : Bool)
    (qname : Octets) (rc c_soa : ℕ) :
    ∃ c', failQuestion host conf queryts udp ednsinfo qname rc c_soa c = some c' ∧
      FailedParts host conf queryts header base front ednsinfo rc c'.ans := by
  obtain ⟨⟨parts, hwritten, hparts⟩, hlisted⟩ := h
  have hfailed := hwritten.withRcode (nibble rc)
  rw [failQuestion]
  simp only
  split
  next hrc =>
    have hholds : Holds host conf queryts header { base with rcode := nibble rc } front
        NoAdditional { c with ans.hdr.rcode := nibble rc } :=
      ⟨⟨parts, hfailed, hparts.noAdditional⟩, hlisted⟩
    obtain ⟨c', hc', ⟨parts', hwritten', hparts'⟩, -⟩ :=
      hholds.exists_addZone hheader admits_noAdditional qname c_soa
    have hlt : rc < 16 := hrc ▸ by decide
    obtain ⟨last, hlast, hopt, hadditional⟩ := hwritten'.addOpt hheader hparts' ednsinfo hlt
    rw [hc']
    exact ⟨_, rfl, last, hlast, hopt, hadditional, fun hle ↦ absurd hlt (Nat.not_lt.mpr hle)⟩
  next =>
    have hnone := hfailed.countP_isOpt hparts.noAdditional
    refine ⟨_, rfl, parts, hfailed, ⟨hparts.noAdditional.1, hnone ▸ Nat.zero_le _⟩,
      fun part hmem hsect ↦ absurd hsect (hparts.noAdditional.2 part hmem), fun _ part hmem ↦ ?_⟩
    exact Bool.eq_false_iff.mpr (List.countP_eq_zero.mp hnone part hmem)

variable (udp) in
/-- One round of the loop along a chain of aliases. -/
theorem Holds.exists_answerRound (hheader : header.length = 12) (rd ednsinfo : Bool) {qtype : ℕ}
    (hqtype : ¬PDNSD_NOT_CACHED_TYPE qtype ∨ qtype ∈ [QT_MAILB, QT_MAILA, QT_ALL])
    (h : Holds host conf queryts header base front AnswersOnly c) (name : DomainName) :
    ∃ c' round, answerRound host conf queryts udp rd ednsinfo qtype name.rhn c =
        some (c', round) ∧
      match round with
      | .failed rc => FailedParts host conf queryts header base front ednsinfo rc c'.ans
      | .done => Holds host conf queryts header base front AnswersOnly c'
      | .target qname => Holds host conf queryts header base front AnswersOnly c' ∧
          ∃ target : DomainName, qname = target.rhn := by
  rw [answerRound]
  split
  next rc c_soa world hresolve =>
    obtain ⟨c', hc', hfailed⟩ :=
      (h.withWorld world c.aa).exists_failQuestion udp hheader ednsinfo name.rhn rc c_soa
    rw [hc']
    exact ⟨c', .failed rc, rfl, hfailed⟩
  next cached world hresolve =>
    have hcent : host.Returns cached := .resolved hresolve
    obtain ⟨c', hc', hholds⟩ := (h.withWorld world (c.aa && cached.isLocal)).exists_addToResponse
      udp hheader admits_answersOnly name hcent hqtype
    rw [hc', Option.bind_some]
    split
    · rcases followCnameChain_eq cached with hchain | ⟨target, hchain⟩
      · rw [hchain]
        exact ⟨_, .done, rfl, hholds.addAuthority hcent qtype⟩
      · rw [hchain]
        exact ⟨c', .target target.rhn, rfl, hholds, target, rfl⟩
    · exact ⟨_, .done, rfl, hholds.addAuthority hcent qtype⟩

/-- How the answer to a question ends. -/
def Answered (host : Host σ) (conf : Global) (queryts : ℤ) (header : Octets) (base : DnsHdr)
    (front : Octets) (ednsinfo : Bool) (result : Option (Composing σ × Option ℕ)) : Prop :=
  ∃ c rc, result = some (c, rc) ∧
    match rc with
    | none => Holds host conf queryts header base front AnswersOnly c
    | some rc => FailedParts host conf queryts header base front ednsinfo rc c.ans

variable (udp) in
/-- A question is answered from the cache, or there is an error code. -/
theorem Holds.answered (hheader : header.length = 12) (rd ednsinfo : Bool) {qtype : ℕ}
    (hqtype : ¬PDNSD_NOT_CACHED_TYPE qtype ∨ qtype ∈ [QT_MAILB, QT_MAILA, QT_ALL]) (hops : ℕ)
    (h : Holds host conf queryts header base front AnswersOnly c) (name : DomainName) :
    Answered host conf queryts header base front ednsinfo
      (answerQuestion host conf queryts udp rd ednsinfo qtype hops name.rhn c) := by
  induction hops generalizing c name with
  | zero =>
    obtain ⟨c', round, hround, hends⟩ :=
      h.exists_answerRound udp hheader rd ednsinfo hqtype name
    rw [answerQuestion, hround]
    cases round with
    | failed rc => exact ⟨c', some rc, rfl, hends⟩
    | done => exact ⟨c', none, rfl, hends⟩
    | target qname => exact ⟨c', none, rfl, hends.1⟩
  | succ hops ih =>
    obtain ⟨c', round, hround, hends⟩ :=
      h.exists_answerRound udp hheader rd ednsinfo hqtype name
    rw [answerQuestion, hround]
    cases round with
    | failed rc => exact ⟨c', some rc, rfl, hends⟩
    | done => exact ⟨c', none, rfl, hends⟩
    | target qname =>
      obtain ⟨hholds, target, rfl⟩ := hends
      exact ih hholds target

variable (udp) in
theorem Holds.answeredAll (hheader : header.length = 12) (rd ednsinfo : Bool)
    {ql : List DnsQueryel} (hql : ∀ qe ∈ ql, qe.WellFormed ∧ ¬Unsupported qe)
    (h : Holds host conf queryts header base front AnswersOnly c) :
    Answered host conf queryts header base front ednsinfo
      (answerQuestions host conf queryts udp rd ednsinfo ql c) := by
  induction ql generalizing c with
  | nil => exact ⟨c, none, rfl, h⟩
  | cons qe ql ih =>
    obtain ⟨hwf, hsupported⟩ := hql qe List.mem_cons_self
    obtain ⟨name, hname⟩ := hwf.query
    have hquery : qe.query.take (rhnlen qe.query) = name.rhn := by
      have hlength := rhnlen_rhn name []
      rw [List.append_nil] at hlength
      rw [hname, hlength, List.take_length]
    have hqtype : ¬PDNSD_NOT_CACHED_TYPE qe.qtype ∨ qe.qtype ∈ [QT_MAILB, QT_MAILA, QT_ALL] := by
      rw [Unsupported, not_or, not_and_or, not_not] at hsupported
      exact hsupported.1
    obtain ⟨c', rc, hc', hanswered⟩ := h.answered udp hheader rd ednsinfo hqtype MAX_HOPS name
    rw [answerQuestions, hquery, hc', Option.bind_some]
    cases rc with
    | some rc => exact ⟨c', some rc, rfl, hanswered⟩
    | none => exact ih (fun qe hmem ↦ hql qe (List.mem_cons_of_mem _ hmem)) hanswered

variable (udp) in
/-- A record that is added once, and the server name in it. -/
theorem Holds.exists_addAdditionalRr (hheader : header.length = 12) (hP : Admits P sect)
    (h : Holds host conf queryts header base front P c) (owner : DomainName)
    (hset : Cached host tp rrset) {b : RrData tp} (hb : b ∈ rrset.rrs)
    (hadd : sect = .S_ADDITIONAL → rdataFields tp = none ∧ Registered c.ans.cb owner) :
    ∃ c', addAdditionalRr udp owner.rhn tp (ansTtl rrset queryts) b.data sect c = some c' ∧
      Holds host conf queryts header base front P c' ∧ c'.ar = c.ar ∧ c.ans.cb <+: c'.ans.cb ∧
      (tp = T_NS → ServerName c'.ans.cb b.data) ∧
      (sect = .S_ADDITIONAL → ∀ limit ∈ udp, c.ans.sz ≤ limit → c'.ans.sz ≤ limit) := by
  rw [addAdditionalRr]
  split
  next hany =>
    refine ⟨c, rfl, h, rfl, List.prefix_rfl, fun htp ↦ ?_, fun _ _ _ hle ↦ hle⟩
    obtain ⟨st, hmem, hst⟩ := List.any_eq_true.mp hany
    simp only [Bool.decide_and, Bool.and_eq_true, decide_eq_true_eq] at hst
    obtain ⟨hsttp, -, hdata⟩ := hst
    exact hdata ▸ h.listed.sva st hmem (hsttp.trans htp)
  next =>
    obtain ⟨⟨parts, hwritten, hparts⟩, hlisted⟩ := h
    obtain ⟨ans', hans', hextended⟩ := hwritten.exists_addRr hheader owner hset hb sect udp hadd
    obtain ⟨new, hwritten', hnew⟩ := hextended.written
    have hserver (htp : tp = T_NS) : ServerName ans'.cb b.data := by
      have hoffs : arOffs tp = some 0 := by
        rw [htp]
        rfl
      have hne : sect ≠ .S_ADDITIONAL := by
        intro hsect
        have hnone := (hadd hsect).1
        rw [htp] at hnone
        exact absurd hnone (by decide)
      obtain ⟨fields, values, server, hfields, hvalues, hdata, hmem, hdrop⟩ :=
        exists_serverName hoffs b
      rw [List.drop_zero] at hdrop
      exact ⟨server, hdrop, hextended.registered hne fields values hfields hvalues hdata server hmem⟩
    have hlisted' := hlisted.mono hextended.grows
    rw [hans']
    refine ⟨_, rfl, ⟨⟨_, hwritten', hP _ _ hparts hnew⟩, fun st hmem htp ↦ ?_, hlisted'.ar⟩, rfl,
      hextended.grows, hserver, hextended.limit⟩
    rcases List.mem_append.mp hmem with hmem | hmem
    · exact hlisted'.sva st hmem htp
    · rw [List.mem_singleton.mp hmem] at htp ⊢
      exact hserver htp

variable (udp) in
/-- The authority section. After it, the names of all name servers of `ar` have been written. -/
theorem Holds.exists_authority (hheader : header.length = 12)
    (h : Holds host conf queryts header base front NoAdditional c) :
    ∃ c', c.ar.foldlM (addAuthorityRr udp) c = some c' ∧
      Holds host conf queryts header base front NoAdditional c' ∧
      ∀ re ∈ c'.ar, re.tp = T_NS ∨ re.tp = RRETP_ADD → ServerName c'.ans.cb re.tnm := by
  have hstep : ∀ re ∈ c.ar, ∀ s : Composing σ,
      Holds host conf queryts header base front NoAdditional s ∧ s.ar = c.ar →
        ∃ s', addAuthorityRr udp s re = some s' ∧
          (Holds host conf queryts header base front NoAdditional s' ∧ s'.ar = c.ar) ∧
          (re.tp = T_NS → ServerName s'.ans.cb re.tnm) ∧
          ∀ re' ∈ c.ar, (re'.tp = T_NS → ServerName s.ans.cb re'.tnm) →
            re'.tp = T_NS → ServerName s'.ans.cb re'.tnm := by
    rintro re hmem s ⟨hs, hsar⟩
    rw [addAuthorityRr]
    split
    next htp =>
      rcases h.listed.ar re hmem with ⟨hadd, -⟩ | ⟨-, ⟨owner, howner⟩, hauthority⟩
      · rw [hadd] at htp
        exact absurd htp (by decide)
      · obtain ⟨rrset, hset, httl, b, hb, htnm⟩ := hauthority
        obtain ⟨s', hs', hholds, har, hgrows, hserver, -⟩ :=
          hs.exists_addAdditionalRr udp hheader admits_noAdditional owner hset hb (by simp)
        rw [howner, httl, htnm]
        exact ⟨s', hs', ⟨hholds, har.trans hsar⟩, hserver,
          fun re' _ hre' htp' ↦ (hre' htp').mono hgrows⟩
    next htp =>
      exact ⟨s, rfl, ⟨hs, hsar⟩, fun hns ↦ absurd (.inl hns) htp, fun _ _ hre' ↦ hre'⟩
  obtain ⟨c', hc', ⟨hholds, har⟩, hservers⟩ := exists_foldlM_each ⟨h, rfl⟩ hstep
  refine ⟨c', hc', hholds, fun re hmem htp ↦ ?_⟩
  rcases htp with hns | hadd
  · exact hservers re (har ▸ hmem) hns
  · rcases hholds.listed.ar re hmem with ⟨-, hserver⟩ | ⟨hother, -⟩
    · exact hserver
    · rw [hadd] at hother
      exact absurd hother (by decide)

/-- The message is not longer than a reply over UDP may be. -/
def Fits (udp : Option ℕ) (ans : Answer) : Prop := ∀ limit ∈ udp, ans.sz ≤ limit

/-- The addresses of a name that has been written before. -/
theorem Holds.exists_addAdditionalSet (hheader : header.length = 12) {ednsinfo : Bool}
    (h : Holds host conf queryts header base front (WithOpt ednsinfo) c) (hfits : Fits udp c.ans)
    (name : DomainName) (hname : Registered c.ans.cb name) (hcent : host.Returns cent)
    (htp : rdataFields tp = none) :
    ∃ c', addAdditionalSet host conf queryts udp name.rhn cent c tp = some c' ∧
      Holds host conf queryts header base front (WithOpt ednsinfo) c' ∧ Fits udp c'.ans ∧
      c.ans.cb <+: c'.ans.cb := by
  rw [addAdditionalSet]
  cases hset : cent.getrrset tp with
  | none => exact ⟨c, rfl, h, hfits, List.prefix_rfl⟩
  | some rrset =>
    refine exists_foldlM (I := fun s ↦
      Holds host conf queryts header base front (WithOpt ednsinfo) s ∧ Fits udp s.ans ∧
        c.ans.cb <+: s.ans.cb) ⟨h.withWorld _ _, hfits, List.prefix_rfl⟩ ?_
    rintro b hb s ⟨hs, hsfits, hsgrows⟩
    obtain ⟨s', hs', hholds, -, hgrows, -, hlimit⟩ := hs.exists_addAdditionalRr udp hheader
      (admits_withOpt ednsinfo) name ⟨cent, hcent, hset⟩ (mem_randrr hb)
      fun _ ↦ ⟨htp, hname.mono hsgrows⟩
    exact ⟨s', hs', hholds, fun limit hmem ↦ hlimit rfl limit hmem (hsfits limit hmem),
      hsgrows.trans hgrows⟩

theorem Holds.exists_addAdditionalA (hheader : header.length = 12) {ednsinfo : Bool}
    (h : Holds host conf queryts header base front (WithOpt ednsinfo) c) (hfits : Fits udp c.ans)
    {tnm : Octets} (hserver : ServerName c.ans.cb tnm) :
    ∃ c', addAdditionalA host conf queryts udp tnm c = some c' ∧
      Holds host conf queryts header base front (WithOpt ednsinfo) c' ∧ Fits udp c'.ans ∧
      c.ans.cb <+: c'.ans.cb := by
  obtain ⟨name, rfl, hname⟩ := hserver
  rw [addAdditionalA]
  split
  next => exact ⟨_, rfl, h.withWorld _ _, hfits, List.prefix_rfl⟩
  next cent hcent =>
    refine exists_foldlM (I := fun s ↦
      Holds host conf queryts header base front (WithOpt ednsinfo) s ∧ Fits udp s.ans ∧
        c.ans.cb <+: s.ans.cb) ⟨h.withWorld _ _, hfits, List.prefix_rfl⟩ ?_
    rintro tp htp s ⟨hs, hsfits, hsgrows⟩
    have hliteral : ∀ tp ∈ [T_A, T_AAAA], rdataFields tp = none := by decide
    obtain ⟨s', hs', hholds, hfits', hgrows⟩ := hs.exists_addAdditionalSet hheader hsfits name
      (hname.mono hsgrows) (.lookedUp hcent) (hliteral tp htp)
    exact ⟨s', hs', hholds, hfits', hsgrows.trans hgrows⟩

/-- Address records of the additional section are there only if the message is short enough. -/
def AdditionalFits (udp : Option ℕ) (ans : Answer) (parts : List (MessageSection × Part)) : Prop :=
  (∃ part ∈ parts, part.1 = .S_ADDITIONAL ∧ part.2.isOpt = false) → Fits udp ans

/-- The records of a finished reply. -/
def Finished (host : Host σ) (conf : Global) (queryts : ℤ) (header : Octets) (base : DnsHdr)
    (front : Octets) (ednsinfo : Bool) (udp : Option ℕ) (ans : Answer) : Prop :=
  ∃ parts, Written host conf queryts header base front ans parts ∧ WithOpt ednsinfo parts ∧
    AdditionalFits udp ans parts

theorem additionalFits_of_opt
    (h : ∀ part ∈ parts, part.1 = .S_ADDITIONAL → part.2.isOpt = true) :
    AdditionalFits udp ans parts := by
  rintro ⟨part, hmem, hsect, hopt⟩
  rw [h part hmem hsect] at hopt
  cases hopt

theorem addOpt_frame (conf : Global) (ednsinfo : Bool) (rcode : ℕ) (c : Composing σ) :
    (addOpt conf ednsinfo rcode c).ar = c.ar ∧ (addOpt conf ednsinfo rcode c).sva = c.sva ∧
      (addOpt conf ednsinfo rcode c).ans.cb = c.ans.cb ∧
      (addOpt conf ednsinfo rcode c).ans.sz ≤ c.ans.sz + 11 := by
  cases ednsinfo with
  | false => exact ⟨rfl, rfl, rfl, Nat.le_add_right _ _⟩
  | true =>
    refine ⟨rfl, rfl, rfl, ?_⟩
    simp [addOpt, Pdnsd.addOptPseudoRr, Answer.sz, optPseudoRr, Nat.add_assoc]

variable (udp) in
theorem Holds.exists_addSections (hheader : header.length = 12) (ednsinfo : Bool)
    (h : Holds host conf queryts header base front AnswersOnly c) :
    ∃ c', addSections host conf queryts udp ednsinfo c = some c' ∧
      Finished host conf queryts header base front ednsinfo udp c'.ans := by
  obtain ⟨⟨parts, hwritten, hparts⟩, hlisted⟩ := h
  have hholds : Holds host conf queryts header base front NoAdditional c :=
    ⟨⟨parts, hwritten, hparts.noAdditional⟩, hlisted⟩
  obtain ⟨first, hfirst, ⟨⟨parts', hwritten', hparts'⟩, hlisted'⟩, hservers⟩ :=
    hholds.exists_authority udp hheader
  rw [addSections, hfirst, Option.bind_some]
  split
  next =>
    refine ⟨first, rfl, parts', hwritten', ⟨hparts'.1, ?_⟩, additionalFits_of_opt fun part hmem hsect ↦ ?_⟩
    · rw [hwritten'.countP_isOpt hparts']
      exact Nat.zero_le _
    · exact absurd hsect (hparts'.2 part hmem)
  next hlimit =>
    obtain ⟨har, hsva, hcb, hsz⟩ := addOpt_frame conf ednsinfo RC_OK first
    obtain ⟨parts₂, hwritten₂, hopt, -⟩ :=
      hwritten'.addOpt hheader hparts' ednsinfo (show RC_OK < 16 by decide)
    have hlisted₂ : Listed host queryts (addOpt conf ednsinfo RC_OK first).ans.cb
        (addOpt conf ednsinfo RC_OK first).sva (addOpt conf ednsinfo RC_OK first).ar := by
      rw [har, hsva, hcb]
      exact hlisted'
    have hfits : Fits udp (addOpt conf ednsinfo RC_OK first).ans := by
      intro limit hmem
      have hle : ¬limit < first.ans.sz + 11 := fun hlt ↦ hlimit ⟨limit, hmem, hlt⟩
      omega
    have hstep : ∀ re ∈ first.ar, ∀ s : Composing σ,
        (Holds host conf queryts header base front (WithOpt ednsinfo) s ∧ Fits udp s.ans ∧
          first.ans.cb <+: s.ans.cb) →
        ∃ s', addAddresses host conf queryts udp s re = some s' ∧
          Holds host conf queryts header base front (WithOpt ednsinfo) s' ∧ Fits udp s'.ans ∧
            first.ans.cb <+: s'.ans.cb := by
      rintro re hmem s ⟨hs, hsfits, hsgrows⟩
      rw [addAddresses]
      split
      next htp =>
        obtain ⟨s', hs', hholds', hfits', hgrows⟩ :=
          hs.exists_addAdditionalA hheader hsfits ((hservers re hmem htp).mono hsgrows)
        exact ⟨s', hs', hholds', hfits', hsgrows.trans hgrows⟩
      next => exact ⟨s, rfl, hs, hsfits, hsgrows⟩
    obtain ⟨last, hlast, ⟨⟨parts₃, hwritten₃, hopt₃⟩, -⟩, hfits₃, -⟩ :=
      exists_foldlM ⟨⟨⟨parts₂, hwritten₂, hopt⟩, hlisted₂⟩, hfits, hcb ▸ List.prefix_rfl⟩ hstep
    exact ⟨last, hlast, parts₃, hwritten₃, hopt₃, fun _ ↦ hfits₃⟩

/-- Questions that are the same but for upper and lower case. -/
def SameQuestions (ql ql' : List DnsQueryel) : Prop :=
  List.Forall₂ (fun qe qe' ↦ qe.qtype = qe'.qtype ∧ qe.qclass = qe'.qclass ∧
    foldCase qe.query = foldCase qe'.query) ql ql'

/-- The questions of a reply. -/
theorem exists_addQuestions (hheader : header.length = 12) {ql : List DnsQueryel}
    (hql : ∀ qe ∈ ql, qe.WellFormed) (h : Indexed (header ++ ans.body) ans.cb) :
    ∃ ans', ql.foldlM addQuestion ans = some ans' ∧ Indexed (header ++ ans'.body) ans'.cb ∧
      ans.body <+: ans'.body ∧
      ans'.hdr = { ans.hdr with qdcount := ans.hdr.qdcount + UInt16.ofNat ql.length } ∧
      ∃ found, SameQuestions ql found ∧
        QuestionsAt (header ++ ans'.body) ans.sz found ans'.sz := by
  induction ql generalizing ans with
  | nil =>
    refine ⟨ans, rfl, h, List.prefix_rfl, ?_, [], .nil, .nil⟩
    simp
  | cons qe ql ih =>
    obtain ⟨hwf, hql⟩ := List.forall_mem_cons.mp hql
    obtain ⟨name, hname⟩ := hwf.query
    have hsz : (header ++ ans.body).length = ans.sz := by
      rw [List.length_append, hheader, Answer.sz]
    obtain ⟨out, cb', hout, hcompressed⟩ := compressName_rhn h name []
    rw [List.append_nil, hsz] at hout
    have hindexed := (hcompressed.indexed.append (putInt 2 qe.qtype)).append (putInt 2 qe.qclass)
    simp only [List.append_assoc] at hindexed
    let next : Answer := ⟨{ ans.hdr with qdcount := ans.hdr.qdcount + 1 },
      ans.body ++ out ++ putInt 2 qe.qtype ++ putInt 2 qe.qclass, cb'⟩
    have hnext : addQuestion ans qe = some next := by
      rw [addQuestion, hname, hout]
      rfl
    have hnextsz : next.sz = ans.sz + out.length + 4 := by
      simp only [next, Answer.sz, List.length_append, length_putInt]
      omega
    obtain ⟨ans', hans', hindexed', ⟨more, hmore⟩, hhdr, found, hsame, hat⟩ :=
      ih hql (show Indexed (header ++ next.body) next.cb by
        simp only [next, List.append_assoc]
        exact hindexed)
    obtain ⟨labels, hops, hlabels, hhops, hfold⟩ := hcompressed.nameAt
    obtain ⟨result, rfl⟩ := exists_name_of_found hlabels hfold
    have hbody : header ++ ans'.body = header ++ ans.body ++ out ++
        (putInt 2 qe.qtype ++ putInt 2 qe.qclass ++ more) := by
      rw [← hmore]
      simp only [next, List.append_assoc]
    refine ⟨ans', ?_, hindexed', ?_, ?_, ⟨qe.qtype, qe.qclass, result.rhn⟩ :: found, ?_, ?_⟩
    · rw [List.foldlM_cons, hnext]
      exact hans'
    · rw [← hmore]
      simp only [next, List.append_assoc]
      exact List.prefix_append _ _
    · rw [hhdr]
      simp only [next, List.length_cons, UInt16.ofNat_add]
      simp [UInt16.add_assoc, UInt16.add_comm]
    · refine .cons ⟨rfl, rfl, ?_⟩ hsame
      rw [hname, DomainName.rhn, DomainName.rhn, foldCase_encode name.isLabel, hfold.symm,
        foldCase_encode result.isLabel]
    · rw [hsz] at hlabels
      rw [hnextsz] at hat
      rw [hbody] at hat ⊢
      refine .cons (hlabels.append _) hhops hwf.qtype hwf.qclass ?_ hat
      rw [← hsz, ← List.length_append, List.drop_left]
      exact List.prefix_append _ _

/-- What a finished reply consists of. -/
structure Composed (host : Host σ) (conf : Global) (queryts : ℤ) (header : Octets)
    (ql : List DnsQueryel) (ednsinfo : Bool) (udp : Option ℕ) (id : UInt16) (opcode : Fin 16)
    (rd : Bool) (reply : Reply) : Prop where
  parts : ∃ front cb found parts, SameQuestions ql found ∧
    QuestionsAt (header ++ front) 12 found (12 + front.length) ∧
    Written host conf queryts header
      { replyHdr id opcode rd with
        rcode := nibble reply.rcode
        aa := reply.hdr.aa
        qdcount := UInt16.ofNat ql.length } front ⟨reply.hdr, reply.body, cb⟩ parts ∧
    WithOpt ednsinfo parts ∧ AdditionalFits udp ⟨reply.hdr, reply.body, cb⟩ parts ∧
    (16 ≤ reply.rcode → ∀ part ∈ parts, part.2.isOpt = false)

/-- Nothing has been written behind the questions. -/
theorem written_nil {hdr : DnsHdr} {body : Octets} (hindexed : Indexed (header ++ body) cb)
    (hhdr : hdr = { base with ancount := 0, nscount := 0, arcount := 0 }) :
    Written host conf queryts header base body ⟨hdr, body, cb⟩ [] :=
  ⟨hindexed, List.prefix_rfl, .nil, hhdr, by simp⟩

/-- `compose_answer` always gives a reply. -/
theorem exists_composeAnswer (hheader : header.length = 12) {ql : List DnsQueryel}
    (hql : ∀ qe ∈ ql, qe.WellFormed) (hdr : DnsHdr) (ednsinfo : Bool) (udp : Option ℕ)
    (world : σ) :
    ∃ reply world', composeAnswer host conf queryts ql hdr ednsinfo udp world =
        some (reply, world') ∧
      Composed host conf queryts header ql ednsinfo udp hdr.id (nibble 0) hdr.rd reply := by
  have hnil : Indexed (header ++ (⟨replyHdr hdr.id (nibble 0) hdr.rd, [], []⟩ : Answer).body) [] := .nil
  obtain ⟨ans, hans, hindexed, -, hhdr, found, hsame, hquestions⟩ :=
    exists_addQuestions hheader hql hnil
  simp only [replyHdr, UInt16.zero_add] at hhdr
  have hfront : QuestionsAt (header ++ ans.body) 12 found (12 + ans.body.length) := hquestions
  rw [composeAnswer, hans, Option.bind_some]
  split
  next =>
    refine ⟨_, _, rfl, ans.body, ans.cb, found, [], hsame, hfront, ?_, ⟨.nil, Nat.zero_le _⟩, ?_, ?_⟩
    · exact written_nil hindexed (by rw [hhdr]; rfl)
    · rintro ⟨part, hmem, -⟩
      cases hmem
    · simp
  next hsupported =>
    have hstart : Holds host conf queryts header
        { replyHdr hdr.id (nibble 0) hdr.rd with qdcount := UInt16.ofNat ql.length } ans.body AnswersOnly
        ⟨world, ans, [], [], true⟩ :=
      ⟨⟨[], written_nil hindexed (by rw [hhdr]; rfl), by simp [AnswersOnly]⟩, by simp, by simp⟩
    obtain ⟨c, rc, hc, hends⟩ := hstart.answeredAll udp hheader hdr.rd ednsinfo
      fun qe hmem ↦ ⟨hql qe hmem, fun h ↦ hsupported ⟨qe, hmem, h⟩⟩
    rw [hc, Option.bind_some]
    cases rc with
    | some rc =>
      obtain ⟨parts, hwritten, hopt, hadditional, hrc⟩ := hends
      have haa : c.ans.hdr.aa = false := by
        rw [hwritten.hdr]
        rfl
      refine ⟨_, _, rfl, ans.body, c.ans.cb, found, parts, hsame, hfront, ?_, hopt,
        additionalFits_of_opt hadditional, hrc⟩
      simp only [haa]
      exact hwritten
    | none =>
      obtain ⟨c', hc', parts, hwritten, hopt, hfits⟩ :=
        hends.exists_addSections udp hheader ednsinfo
      simp only [hc', Option.map_some]
      refine ⟨_, _, rfl, ans.body, c'.ans.cb, found, parts, hsame, hfront, hwritten.withAa _, hopt,
        hfits, fun hle ↦ absurd hle (show ¬16 ≤ RC_OK by decide)⟩

end Correctness

end Orbot.Pdnsd
