import Orbot.Foundation.TextParts
import Orbot.Service.Publication

/-!
# The listeners that Tor reports

Tor answers a query with the listeners of a kind: quoted IPv4 addresses, or IPv6 addresses in
brackets, with a port each. `initControlConnection` stores the port of each answer before the next
query, asks for a SOCKS and an HTTP listener, and takes the text after the first colon for the port.
-/

namespace Orbot.Service

open Orbot.Foundation

/-! ## Answers -/

def IsIpv4 (address : String) : Prop := ∀ c ∈ address.toList, c.isDigit = true ∨ c = '.'

instance : DecidablePred IsIpv4 := fun address ↦
  List.decidableBAll (fun c : Char ↦ c.isDigit = true ∨ c = '.') address.toList

/-- An IPv6 address in brackets. -/
def IsIpv6 (address : String) : Prop :=
  ∃ body : String, address = "[" ++ body ++ "]" ∧ 2 ≤ body.toList.count ':' ∧
    ∀ c ∈ body.toList, c.isAlphanum = true ∨ c = ':' ∨ c = '.'

/-- An entry of an answer. -/
structure Listener where
  address : String
  port : Int32
  wellFormed : IsIpv4 address ∨ IsIpv6 address

def Listener.text (l : Listener) : String := listenerText l.address l.port

/-- The entries of the four answers, `none` for an `IOException`. -/
structure ListedAnswers where
  socks : Option (List Listener)
  httptunnel : Option (List Listener)
  dns : Option (List Listener)
  trans : Option (List Listener)

/-- The answer has the entries with spaces between them. -/
def HasEntries (answer : Option String) (list : Option (List Listener)) : Prop :=
  answer.map (tokens ' ') = list.map (List.map Listener.text)

structure Answers.HaveEntries (answers : Answers) (lists : ListedAnswers) : Prop where
  socks : HasEntries answers.socks lists.socks
  httptunnel : HasEntries answers.httptunnel lists.httptunnel
  dns : HasEntries answers.dns lists.dns
  trans : HasEntries answers.trans lists.trans

/-- The port of the first entry, or the one that is kept when there is none. -/
def firstPort (list : Option (List Listener)) (port : Int32) : Int32 :=
  ((list.bind List.head?).map Listener.port).getD port

def ListedAnswers.ports (lists : ListedAnswers) (ports : Ports) : Ports where
  mPortSOCKS := firstPort lists.socks ports.mPortSOCKS
  mPortHTTP := firstPort lists.httptunnel ports.mPortHTTP
  mPortDns := firstPort lists.dns ports.mPortDns
  mPortTrans := firstPort lists.trans ports.mPortTrans

/-- The service after it has sent these ports. -/
def PortService.published (answers : Answers) (ports : Ports) (s : PortService) : PortService :=
  { s with ports := ports }.record fun start ↦
    { start with reported := some answers, callbacks := start.callbacks ++ [ports] }

/-- Nothing is thrown; the ports of the first entries are published, or the ports are as before and
an error stops Tor. -/
def AllOrNothing (answers : Answers) (lists : ListedAnswers) (s : PortService) : Prop :=
  (s.initControlConnection answers).crashed = false ∧
    ((s.initControlConnection answers = s.published answers (lists.ports s.ports)) ∨
      ((s.initControlConnection answers).ports = s.ports ∧
        (s.initControlConnection answers).service =
          { stopTorOnError s.service with conn := none }))

instance (answers : Answers) (lists : ListedAnswers) (s : PortService) :
    Decidable (AllOrNothing answers lists s) :=
  inferInstanceAs (Decidable (_ ∧ (_ ∨ (_ ∧ _))))

/-! ## The port that is read -/

/-- The text from the first colon up to the next, without its last character, is the port. -/
def Listener.ReadAs (l : Listener) (port : Int32) : Prop :=
  (IsIpv4 l.address ∧ l.port = port) ∨
    ∃ first group rest : String, l.address = first ++ ":" ++ group ++ ":" ++ rest ∧
      ':' ∉ first.toList ∧ ':' ∉ group.toList ∧ group ≠ "" ∧
      parseInt (String.ofList group.toList.dropLast) = some port

theorem colon_not_mem_of_isIpv4 {address : String} (h : IsIpv4 address) : ':' ∉ address.toList := by
  intro hmem
  rcases h ':' hmem with hdigit | hdot
  · exact absurd hdigit (by decide)
  · exact absurd hdot (by decide)

/-- An IPv6 address has a text between its first two colons. -/
theorem exists_group_of_isIpv6 {address : String} (h : IsIpv6 address) :
    ∃ first group rest : List Char, address.toList = first ++ ':' :: (group ++ ':' :: rest) ∧
      ':' ∉ first ∧ ':' ∉ group := by
  obtain ⟨body, rfl, hcount, -⟩ := h
  have hcolon : ':' ∈ body.toList := List.count_pos_iff.mp (by omega)
  obtain ⟨first, later, hbody, hfirst⟩ := List.eq_append_cons_of_mem hcolon
  have hlater : ':' ∈ later := by
    rw [hbody, List.count_append, List.count_cons_self, List.count_eq_zero.mpr hfirst] at hcount
    exact List.count_pos_iff.mp (by omega)
  obtain ⟨group, rest, rfl, hgroup⟩ := List.eq_append_cons_of_mem hlater
  refine ⟨'[' :: first, group, rest ++ [']'], ?_, ?_, hgroup⟩
  · simp [hbody]
  · simpa using hfirst

theorem portOfToken_of_group {l : Listener} {first group rest : List Char}
    (haddress : l.address.toList = first ++ ':' :: (group ++ ':' :: rest)) (hfirst : ':' ∉ first)
    (hgroup : ':' ∉ group) :
    portOfToken l.text =
      if group = [] then none else parseInt (String.ofList group.dropLast) := by
  have htext : l.text.toList = ('"' :: first) ++ ':' :: (group ++ ':' ::
      (rest ++ ':' :: ((decimal l.port).toList ++ ['"']))) := by
    simp [Listener.text, listenerText, haddress]
  have hlast : l.text.toList.rdropWhile (· = ':') = l.text.toList := by
    rw [List.rdropWhile_eq_self_iff]
    intro hne
    simp [htext]
  have hne : l.text.toList.rdropWhile (· = ':') ≠ [] := by simp [htext]
  have hsplit := split_of_rdropWhile hne
  rw [hlast, htext, List.splitOn_append_cons_self_of_not_mem (by simpa using hfirst),
    List.splitOn_append_cons_self_of_not_mem hgroup] at hsplit
  rw [portOfToken, hsplit]
  simp

theorem portOfToken_eq_some_iff (l : Listener) (port : Int32) :
    portOfToken l.text = some port ↔ l.ReadAs port := by
  rcases l.wellFormed with hipv4 | hipv6
  · have hcolon := colon_not_mem_of_isIpv4 hipv4
    rw [Listener.text, portOfToken_listenerText hcolon, Option.some_inj]
    refine ⟨fun hport ↦ .inl ⟨hipv4, hport⟩, ?_⟩
    rintro (⟨-, hport⟩ | ⟨first, group, rest, haddress, -⟩)
    · exact hport
    · exact absurd (by simp [haddress]) hcolon
  · obtain ⟨first, group, rest, haddress, hfirst, hgroup⟩ := exists_group_of_isIpv6 hipv6
    rw [portOfToken_of_group haddress hfirst hgroup]
    constructor
    · intro hport
      split at hport
      · cases hport
      · next hne =>
        refine .inr ⟨String.ofList first, String.ofList group, String.ofList rest, ?_, ?_⟩
        · apply String.toList_inj.mp
          simp [haddress]
        · simpa [hfirst, hgroup, hne] using hport
    · rintro (⟨hipv4, -⟩ | ⟨first', group', rest', haddress', hfirst', hgroup', hne, hport⟩)
      · exact absurd (by simp [haddress]) (colon_not_mem_of_isIpv4 hipv4)
      · have hchars : first ++ ':' :: (group ++ ':' :: rest) =
            first'.toList ++ ':' :: (group'.toList ++ ':' :: rest'.toList) := by
          rw [← haddress, haddress']
          simp
        have hlater := (append_delimiter_inj hfirst hfirst' hchars).2
        obtain rfl := (append_delimiter_inj hgroup hgroup' hlater).1
        rw [if_neg (by simpa using hne), hport]

/-! ## The queries -/

/-- A query ends with a port: that of the first entry as it is read, or the one that is kept when
no entry is required and there is none. -/
def Answered (required : Bool) (list : Option (List Listener)) (port port' : Int32) : Prop :=
  (required = false ∧ list = some [] ∧ port' = port) ∨
    ∃ l more, list = some (l :: more) ∧ l.ReadAs port'

section Query

variable {required : Bool} {answer : Option String} {list : Option (List Listener)}
  {port port' : Int32}

theorem query_eq_ok_iff (h : HasEntries answer list) :
    query required answer port = .ok port' ↔ Answered required list port port' := by
  unfold Answered query
  cases answer with
  | none =>
    have hnone : list = none := by simpa [HasEntries] using h.symm
    simp [hnone]
  | some text =>
    obtain ⟨entries, hlist, htokens⟩ : ∃ entries, list = some entries ∧
        tokens ' ' text = entries.map Listener.text := by
      cases list <;> simp_all [HasEntries]
    subst hlist
    dsimp only
    rw [htokens]
    cases entries with
    | nil => cases required <;> simp [eq_comm]
    | cons l more =>
      simp only [List.map_cons]
      cases hport : portOfToken l.text with
      | none =>
        have hnot (p : Int32) : ¬ l.ReadAs p := fun hread ↦ by
          simp [(portOfToken_eq_some_iff l p).mpr hread] at hport
        simp [hnot]
      | some p => simp [← portOfToken_eq_some_iff, hport]

theorem query_eq_ioException_iff (required : Bool) (port : Int32) (h : HasEntries answer list) :
    query required answer port = .error .ioException ↔ list = none := by
  cases answer with
  | none => simpa [query, HasEntries] using h.symm
  | some text =>
    have hsome : list ≠ none := by
      rintro rfl
      simp [HasEntries] at h
    refine iff_of_false (fun hquery ↦ ?_) hsome
    rw [query] at hquery
    split at hquery
    · split at hquery <;> cases hquery
    · next token _ _ => cases hport : portOfToken token <;> simp [hport] at hquery

end Query

/-- The first entries are there and read as their ports. -/
structure ListedAnswers.ReadRightly (lists : ListedAnswers) (ports : Ports) : Prop where
  socks : Answered true lists.socks ports.mPortSOCKS (lists.ports ports).mPortSOCKS
  httptunnel : Answered true lists.httptunnel ports.mPortHTTP (lists.ports ports).mPortHTTP
  dns : Answered false lists.dns ports.mPortDns (lists.ports ports).mPortDns
  trans : Answered false lists.trans ports.mPortTrans (lists.ports ports).mPortTrans

/-- A query fails, and each one before it ends with the port that was there. -/
def ListedAnswers.FailsUnchanged (lists : ListedAnswers) (ports : Ports) : Prop :=
  lists.socks = none ∨ Answered true lists.socks ports.mPortSOCKS ports.mPortSOCKS ∧
    (lists.httptunnel = none ∨ Answered true lists.httptunnel ports.mPortHTTP ports.mPortHTTP ∧
      (lists.dns = none ∨ Answered false lists.dns ports.mPortDns ports.mPortDns ∧
        lists.trans = none))

section Reading

variable {answers : Answers} {lists : ListedAnswers} {ports ports' : Ports}

theorem readListeners_eq_ok_iff (h : answers.HaveEntries lists) :
    readListeners answers ports = (ports', none) ↔
      Answered true lists.socks ports.mPortSOCKS ports'.mPortSOCKS ∧
        Answered true lists.httptunnel ports.mPortHTTP ports'.mPortHTTP ∧
        Answered false lists.dns ports.mPortDns ports'.mPortDns ∧
        Answered false lists.trans ports.mPortTrans ports'.mPortTrans := by
  rw [← query_eq_ok_iff h.socks, ← query_eq_ok_iff h.httptunnel, ← query_eq_ok_iff h.dns,
    ← query_eq_ok_iff h.trans]
  obtain ⟨socks, http, dns, trans⟩ := ports'
  cases hsocks : query true answers.socks ports.mPortSOCKS with
  | error => simp [readListeners, hsocks]
  | ok socksPort =>
    cases hhttp : query true answers.httptunnel ports.mPortHTTP with
    | error => simp [readListeners, hsocks, hhttp]
    | ok httpPort =>
      cases hdns : query false answers.dns ports.mPortDns with
      | error => simp [readListeners, hsocks, hhttp, hdns]
      | ok dnsPort =>
        cases htrans : query false answers.trans ports.mPortTrans with
        | error => simp [readListeners, hsocks, hhttp, hdns, htrans]
        | ok transPort => simp [readListeners, hsocks, hhttp, hdns, htrans]

theorem readListeners_eq_ioException_iff (h : answers.HaveEntries lists) :
    readListeners answers ports = (ports, some .ioException) ↔ lists.FailsUnchanged ports := by
  unfold ListedAnswers.FailsUnchanged
  rw [← query_eq_ok_iff h.socks, ← query_eq_ok_iff h.httptunnel, ← query_eq_ok_iff h.dns,
    ← query_eq_ioException_iff true ports.mPortSOCKS h.socks,
    ← query_eq_ioException_iff true ports.mPortHTTP h.httptunnel,
    ← query_eq_ioException_iff false ports.mPortDns h.dns,
    ← query_eq_ioException_iff false ports.mPortTrans h.trans]
  obtain ⟨socks, http, dns, trans⟩ := ports
  cases hsocks : query true answers.socks socks with
  | error => simp [readListeners, hsocks]
  | ok socksPort =>
    cases hhttp : query true answers.httptunnel http with
    | error => simp [readListeners, hsocks, hhttp]
    | ok httpPort =>
      cases hdns : query false answers.dns dns with
      | error => simp [readListeners, hsocks, hhttp, hdns, and_assoc]
      | ok dnsPort =>
        cases htrans : query false answers.trans trans with
        | error => simp [readListeners, hsocks, hhttp, hdns, htrans, and_assoc]
        | ok transPort => simp [readListeners, hsocks, hhttp, hdns, htrans]

theorem readRightly_iff (h : answers.HaveEntries lists) :
    lists.ReadRightly ports ↔ readListeners answers ports = (lists.ports ports, none) := by
  rw [readListeners_eq_ok_iff h]
  exact ⟨fun hread ↦ ⟨hread.socks, hread.httptunnel, hread.dns, hread.trans⟩,
    fun ⟨hsocks, hhttp, hdns, htrans⟩ ↦ ⟨hsocks, hhttp, hdns, htrans⟩⟩

end Reading

/-! ## All or nothing -/

section Outcomes

variable {answers : Answers} {s : PortService} {connection : ℕ}

theorem initControlConnection_of_read (hconn : s.service.conn = some connection) {ports : Ports}
    (hread : readListeners answers s.ports = (ports, none)) :
    s.initControlConnection answers = s.published answers ports := by
  simp only [PortService.initControlConnection, hconn, hread, PortService.published]

theorem initControlConnection_of_ioException (hconn : s.service.conn = some connection)
    {ports : Ports} (hread : readListeners answers s.ports = (ports, some .ioException)) :
    s.initControlConnection answers =
      { s with
        ports := ports
        service := { stopTorOnError s.service with conn := none }
        start := none } := by
  simp only [PortService.initControlConnection, hconn, hread, Service.initControlConnection,
    if_true]

theorem crashed_of_uncaught (hconn : s.service.conn = some connection) {ports : Ports}
    (hread : readListeners answers s.ports = (ports, some .uncaught)) :
    (s.initControlConnection answers).crashed = true := by
  simp only [PortService.initControlConnection, hconn, hread]

end Outcomes

/-- Reading the listeners is all or nothing exactly when all answers are read rightly, or one of the
queries fails and those before it have changed nothing. -/
theorem allOrNothing_iff {answers : Answers} {lists : ListedAnswers} {s : PortService}
    (h : answers.HaveEntries lists) (hconn : s.service.conn.isSome) (hcrashed : s.crashed = false) :
    AllOrNothing answers lists s ↔
      lists.ReadRightly s.ports ∨ lists.FailsUnchanged s.ports := by
  obtain ⟨connection, hconn⟩ := Option.isSome_iff_exists.mp hconn
  -- a connection tells apart the service that has published and the one that was stopped
  have hpublished (ports : Ports) :
      (s.published answers ports).service.conn = some connection := hconn
  rw [readRightly_iff h, ← readListeners_eq_ioException_iff h, AllOrNothing]
  rcases hread : readListeners answers s.ports with ⟨ports, error⟩
  rcases error with _ | _ | _
  · rw [initControlConnection_of_read hconn hread]
    constructor
    · rintro ⟨-, hsame | ⟨-, hstopped⟩⟩
      · exact .inl (congrArg (·, none) (congrArg PortService.ports hsame))
      · have hnone := congrArg OrbotService.conn hstopped
        rw [hpublished] at hnone
        cases hnone
    · rintro (hsame | herror)
      · rw [(Prod.mk.inj hsame).1]
        exact ⟨hcrashed, .inl rfl⟩
      · cases (Prod.mk.inj herror).2
  · rw [initControlConnection_of_ioException hconn hread]
    constructor
    · rintro ⟨-, hsame | ⟨hports, -⟩⟩
      · have hnone := congrArg (fun s : PortService ↦ s.service.conn) hsame
        rw [hpublished] at hnone
        cases hnone
      · exact .inr (congrArg (·, some _) hports)
    · rintro (hnone | hsame)
      · cases (Prod.mk.inj hnone).2
      · exact ⟨hcrashed, .inr ⟨(Prod.mk.inj hsame).1, rfl⟩⟩
  · refine iff_of_false (fun hall ↦ ?_) ?_
    · rw [crashed_of_uncaught hconn hread] at hall
      cases hall.1
    · rintro (hnone | hother)
      · cases (Prod.mk.inj hnone).2
      · cases Option.some_inj.mp (Prod.mk.inj hother).2

/-- A service that has found its control connection. -/
def connectedService : PortService :=
  portSystem.run PortService.new
    [.service (.startTor .bound false), .service (.onServiceConnected 0 (.accepts 0))]

def localListener (port : Int32) : Listener where
  address := "127.0.0.1"
  port := port
  wellFormed := .inl (by decide)

def localIpv6Listener (port : Int32) : Listener where
  address := "[::1]"
  port := port
  wellFormed := .inr ⟨"::1", by decide, by decide, by simp⟩

/-- The entries of `torAnswers`. -/
def torEntries : ListedAnswers where
  socks := some [localListener 9150]
  httptunnel := some [localListener 8118]
  dns := some [localListener 5401]
  trans := some [localListener 9041, localListener 9042]

theorem haveEntries_torAnswers : torAnswers.HaveEntries torEntries := by
  constructor <;> exact congrArg some (by decide)

theorem allOrNothing_torAnswers : AllOrNothing torAnswers torEntries connectedService := by
  apply (allOrNothing_iff haveEntries_torAnswers (by decide) (by decide)).mpr
  have hipv4 : IsIpv4 "127.0.0.1" := by decide
  refine .inl ⟨.inr ⟨_, _, rfl, .inl ⟨?_, rfl⟩⟩, .inr ⟨_, _, rfl, .inl ⟨?_, rfl⟩⟩,
    .inr ⟨_, _, rfl, .inl ⟨?_, rfl⟩⟩, .inr ⟨_, _, rfl, .inl ⟨?_, rfl⟩⟩⟩ <;> exact hipv4

/-- The answers without an HTTP listener, with an IPv6 address first, and with an error of the
second query. -/
def noHttpAnswers : Answers := { torAnswers with httptunnel := some "" }

def ipv6Answers : Answers := { torAnswers with socks := some "\"[::1]:9150\"" }

def failingAnswers : Answers := { torAnswers with httptunnel := none }

theorem haveEntries_noHttp :
    noHttpAnswers.HaveEntries { torEntries with httptunnel := some [] } :=
  { haveEntries_torAnswers with httptunnel := congrArg some (by decide) }

theorem haveEntries_ipv6 :
    ipv6Answers.HaveEntries { torEntries with socks := some [localIpv6Listener 9150] } :=
  { haveEntries_torAnswers with socks := congrArg some (by decide) }

theorem haveEntries_failing : failingAnswers.HaveEntries { torEntries with httptunnel := none } :=
  { haveEntries_torAnswers with httptunnel := rfl }

/-- The first two end with an uncaught exception, the last one with the new SOCKS port only. -/
theorem answers_halfway :
    (noHttpAnswers.HaveEntries { torEntries with httptunnel := some [] } ∧
      ¬ AllOrNothing noHttpAnswers { torEntries with httptunnel := some [] } connectedService) ∧
    (ipv6Answers.HaveEntries { torEntries with socks := some [localIpv6Listener 9150] } ∧
      ¬ AllOrNothing ipv6Answers { torEntries with socks := some [localIpv6Listener 9150] }
        connectedService) ∧
    (failingAnswers.HaveEntries { torEntries with httptunnel := none } ∧
      ¬ AllOrNothing failingAnswers { torEntries with httptunnel := none } connectedService) :=
  ⟨⟨haveEntries_noHttp, by decide⟩, ⟨haveEntries_ipv6, by decide⟩, haveEntries_failing, by decide⟩

end Orbot.Service
