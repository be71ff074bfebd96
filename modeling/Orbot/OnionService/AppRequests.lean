import Mathlib.Logic.Relation
import Orbot.OnionService.Services

/-!
# Requests of apps for v2 services

`enableHiddenServicePortV2` stores a service under the local and the remote port of a request and
looks for it by its remote port alone, where it expects the local one: when the request arrives, and
again in the thread that waits for an address. So a request is answered for its own service just
where the first row with that number as its remote port is the row of the request.

The key that comes with a request is restored into the directory of the local port, and shared from
there. The torrc gives a new row a directory of its own, so neither is the key that is served.
-/

namespace Orbot.OnionService

open Orbot.Foundation

/-- The arguments of `enableHiddenServicePortV2`. A key comes with what its document holds, `none`
if it cannot be opened. -/
structure HsRequest where
  hsName : Option String
  hsPort : Int32
  hsRemotePort : Int32
  backupToPackage : Option String
  hsKey : Option (Option Bytes)
  authCookie : Bool

/-- The extras and the data of the result that an app gets. -/
structure HsResult where
  hs_host : String
  /-- `none` without the extra, `some none` for a value that is `null`. -/
  hs_auth_cookie : Option (Option String)
  data : Option Path
  deriving DecidableEq

/-- What one round of the waiting loop does. -/
inductive Round where
  | again
  /-- The loop ends, with a result or without one. -/
  | ended (result : Option HsResult)
  deriving DecidableEq

namespace HsRequest

variable (base : Path) (q : HsRequest)

def remotePort : Int32 := if q.hsRemotePort = -1 then q.hsPort else q.hsRemotePort

/-- The request stores its row and its key. -/
def handle (s : Store) : Store :=
  enableHiddenServicePortV2 base q.hsName q.hsPort q.hsRemotePort q.hsKey q.authCookie s

/-- The row that a query for the service finds. -/
def found (t : ServiceTable) : Option Row := (t.rows.filter (onionPortIs q.hsPort)).head?

/-- The result of a request for a service that has an address; otherwise a thread waits for it. -/
def immediate (t : ServiceTable) : Option HsResult :=
  let onionHostname := (q.found t).bind fun row ↦ row.columns.domain
  if isNullOrEmpty onionHostname then none
  else some { hs_host := onionHostname.getD "", hs_auth_cookie := none, data := none }

/-- The key file that is shared with a package. -/
def sharedKey : Option Path :=
  if isNullOrEmpty q.backupToPackage then none
  else some (base ++ [Version.v2.portDir q.hsPort, privateKeyFile])

/-- A round of the waiting loop. The condition of the loop reads the address again, so an empty one
ends it. -/
def round (t : ServiceTable) : Round :=
  match q.found t with
  | none => .again
  | some row =>
      match row.columns.domain with
      | none => .again
      | some hostname =>
          if hostname = "" then .ended none
          else
            .ended (some
              { hs_host := hostname
                hs_auth_cookie :=
                  if q.authCookie then some row.columns.authCookieValue else none
                data := q.sharedKey base })

/-- The loop over the tables that its rounds see. -/
def await : List ServiceTable → Round
  | [] => .again
  | t :: later =>
      match q.round base t with
      | .again => await later
      | .ended result => .ended result

/-! ## What a request asks for -/

/-- The row is the one of the service asked for. -/
def Matches (row : Row) : Prop :=
  row.columns.port = q.hsPort ∧ row.columns.onionPort = q.remotePort

instance (row : Row) : Decidable (q.Matches row) := inferInstanceAs (Decidable (_ ∧ _))

/-- The rows of the service asked for. -/
def matching (t : ServiceTable) : List Row := t.rows.filter fun row ↦ q.Matches row

/-- What else happens to the table while a request waits: rows change but for their ports, rows are
added, and rows of other services are deleted. -/
inductive OtherChange : ServiceTable → ServiceTable → Prop
  | update (t : ServiceTable) (selection : Row → Bool) (change : Columns → Columns)
      (hports : ∀ columns, (change columns).port = columns.port ∧
        (change columns).onionPort = columns.onionPort) :
      OtherChange t (t.update selection change)
  | insert (t : ServiceTable) (columns : Columns) : OtherChange t (t.insert columns)
  | delete (t : ServiceTable) (selection : Row → Bool)
      (hothers : ∀ row ∈ t.rows, q.Matches row → selection row = false) :
      OtherChange t (t.delete selection)

/-- The tables that the waiting loop can see. -/
def LaterTable : ServiceTable → ServiceTable → Prop := Relation.ReflTransGen q.OtherChange

/-- A request leaves one row for its service, and is answered for that service. -/
structure RightlyServed (s : Store) : Prop where
  oneRow : (q.matching s.table).length ≤ 1 → ∀ n,
    (q.matching ((q.handle base)^[n + 1] s).table).length = 1
  immediate : ∀ result ∈ q.immediate s.table, ∃ row ∈ (q.handle base s).table.rows,
    q.Matches row ∧ row.columns.domain = some result.hs_host
  awaited : q.immediate s.table = none → ∀ tables t result,
    (∀ u ∈ tables ++ [t], q.LaterTable (q.handle base s).table u) →
    q.await base tables = .again → q.round base t = .ended (some result) →
    ∃ row ∈ t.rows, q.Matches row ∧ row.columns.domain = some result.hs_host
  ends : q.immediate s.table = none → ∀ tables t,
    (∀ u ∈ tables ++ [t], q.LaterTable (q.handle base s).table u) →
    (∃ row ∈ t.rows, q.Matches row) →
    (∀ row ∈ t.rows, q.Matches row → isNullOrEmpty row.columns.domain = false) →
    q.await base (tables ++ [t]) ≠ .again

/-- The first row with the local port as its remote port is the one of the service asked for, or
would be once it is stored; or it has an address that a row of that service has as well. -/
def FindsOwnRow (t : ServiceTable) : Prop :=
  match q.found t with
  | none => q.remotePort = q.hsPort
  | some row => q.Matches row ∨
      isNullOrEmpty row.columns.domain = false ∧
        ∃ other ∈ t.rows, q.Matches other ∧ other.columns.domain = row.columns.domain

instance (t : ServiceTable) : Decidable (q.FindsOwnRow t) := by
  unfold FindsOwnRow
  split <;> infer_instance

/-! ## The row that is found -/

variable {base : Path} {q : HsRequest} {s : Store} {t u : ServiceTable}

theorem found_mem {row : Row} (h : q.found t = some row) :
    row ∈ t.rows ∧ row.columns.onionPort = q.hsPort := by
  have hmem : row ∈ t.rows.filter (onionPortIs q.hsPort) := List.mem_of_mem_head? h
  exact ⟨(List.mem_filter.mp hmem).1, by simpa [onionPortIs] using (List.mem_filter.mp hmem).2⟩

theorem found_eq_none_iff :
    q.found t = none ↔ ∀ row ∈ t.rows, row.columns.onionPort ≠ q.hsPort := by
  simp [found, onionPortIs]

theorem found_update (selection : Row → Bool) (change : Columns → Columns)
    (hports : ∀ columns, (change columns).onionPort = columns.onionPort) :
    q.found (t.update selection change) = (q.found t).map fun row ↦
      if selection row then { row with columns := change row.columns } else row := by
  have hsame : (onionPortIs q.hsPort ∘ fun row : Row ↦
      if selection row then { row with columns := change row.columns } else row) =
        onionPortIs q.hsPort := by
    funext row
    simp only [Function.comp_apply, onionPortIs]
    split
    · rw [hports]
    · rfl
  rw [found, Table.rows_update, List.filter_map, hsame, List.head?_map]
  rfl

theorem found_insert {row : Row} (h : q.found t = some row) (columns : Columns) :
    q.found (t.insert columns) = some row := by
  rw [found, Table.rows_insert, List.filter_append, List.head?_append,
    show (t.rows.filter (onionPortIs q.hsPort)).head? = some row from h, Option.some_or]

theorem found_delete {row : Row} (h : q.found t = some row) {selection : Row → Bool}
    (hkept : selection row = false) : q.found (t.delete selection) = some row := by
  obtain ⟨rest, hrest⟩ := List.head?_eq_some_iff.mp h
  rw [found, Table.rows_delete, List.filter_comm, hrest, List.filter_cons_of_pos (by simp [hkept])]
  rfl

/-- A request without a row stores one with its two ports. -/
theorem handle_of_none (base : Path) (h : q.found s.table = none) :
    ∃ columns, (q.handle base s).table = s.table.insert columns ∧ columns.port = q.hsPort ∧
      columns.onionPort = q.remotePort ∧ columns.domain = none ∧ columns.filepath = none ∧
      columns.enabled = 1 := by
  refine ⟨_, if_pos ?_, rfl, rfl, rfl, rfl, rfl⟩
  exact congrArg Option.isNone h

theorem handle_of_some {row : Row} (h : q.found s.table = some row) :
    (q.handle base s).table = s.table := by
  refine if_neg ?_
  rw [show (s.table.rows.filter (onionPortIs q.hsPort)).head? = some row from h]
  simp

/-! ## The own row comes first -/

/-- The row that is found is the one of the service asked for. -/
def OwnRowFirst (q : HsRequest) (t : ServiceTable) : Prop :=
  ∃ row, q.found t = some row ∧ q.Matches row

theorem OwnRowFirst.change (h : q.OwnRowFirst t) (hchange : q.OtherChange t u) :
    q.OwnRowFirst u := by
  obtain ⟨row, hfound, hown⟩ := h
  cases hchange with
  | update selection change hports =>
    refine ⟨_, by rw [found_update _ _ fun columns ↦ (hports columns).2, hfound]; rfl, ?_⟩
    dsimp only
    split
    · exact ⟨(hports _).1.trans hown.1, (hports _).2.trans hown.2⟩
    · exact hown
  | insert columns => exact ⟨row, found_insert hfound columns, hown⟩
  | delete selection hothers =>
    exact ⟨row, found_delete hfound (hothers row (found_mem hfound).1 hown), hown⟩

theorem OwnRowFirst.later (h : q.OwnRowFirst t) (hlater : q.LaterTable t u) :
    q.OwnRowFirst u := by
  induction hlater with
  | refl => exact h
  | tail _ hchange ih => exact ih.change hchange

/-- The row that a request without an immediate answer leaves first. -/
theorem FindsOwnRow.handle (base : Path) (h : q.FindsOwnRow s.table)
    (hwait : q.immediate s.table = none) :
    q.OwnRowFirst (q.handle base s).table := by
  unfold FindsOwnRow at h
  split at h
  · next hnone =>
    obtain ⟨columns, htable, hport, hremote, -⟩ := handle_of_none base hnone
    have hrows := found_eq_none_iff.mp hnone
    have hfilter : s.table.rows.filter (onionPortIs q.hsPort) = [] := by
      simpa [onionPortIs] using hrows
    refine ⟨⟨s.table.nextId, columns⟩, ?_, hport, hremote⟩
    rw [found, htable, Table.rows_insert, List.filter_append, hfilter, List.nil_append,
      List.filter_cons_of_pos (by simp [onionPortIs, hremote, h])]
    rfl
  · next row hfound =>
    rw [handle_of_some hfound]
    refine ⟨row, hfound, h.resolve_right fun haddress ↦ ?_⟩
    simp [HsRequest.immediate, hfound, haddress.1] at hwait

theorem round_of_ownRowFirst (h : q.OwnRowFirst t) :
    (∀ result, q.round base t = .ended (some result) →
      ∃ row ∈ t.rows, q.Matches row ∧ row.columns.domain = some result.hs_host) ∧
    ((∀ row ∈ t.rows, q.Matches row → isNullOrEmpty row.columns.domain = false) →
      q.round base t ≠ .again) := by
  obtain ⟨row, hfound, hown⟩ := h
  have hmem := (found_mem hfound).1
  constructor
  · intro result hround
    refine ⟨row, hmem, hown, ?_⟩
    simp only [HsRequest.round, hfound] at hround
    split at hround
    · simp at hround
    · next hostname hdomain =>
      split at hround
      · simp at hround
      · rw [hdomain, ← Option.some_inj.mp (Round.ended.inj hround)]
  · intro haddress hround
    have hdomain := haddress row hmem hown
    simp only [HsRequest.round, hfound] at hround
    split at hround
    · next hnone => simp [hnone, isNullOrEmpty] at hdomain
    · split at hround
      · simp at hround
      · simp at hround

theorem await_eq_again_iff {tables : List ServiceTable} :
    q.await base tables = .again ↔ ∀ t ∈ tables, q.round base t = .again := by
  induction tables with
  | nil => simp [await]
  | cons t rest ih =>
    rw [await]
    split
    · next hagain => simp [hagain, ih]
    · next result hended => simp [hended]

/-! ## Rows of the service -/

theorem mem_matching {row : Row} : row ∈ q.matching t ↔ row ∈ t.rows ∧ q.Matches row := by
  simp [matching]

/-- From the second time on, a request that found a row changes nothing. -/
theorem iterate_handle_of_some {row : Row} (h : q.found s.table = some row) (n : ℕ) :
    ((q.handle base)^[n] s).table = s.table := by
  induction n with
  | zero => rfl
  | succ n ih =>
    rw [Function.iterate_succ_apply']
    exact (handle_of_some (ih ▸ h)).trans ih

/-- With its own row first, a request leaves one row of its service. -/
theorem FindsOwnRow.oneRow (h : q.FindsOwnRow s.table)
    (hone : (q.matching s.table).length ≤ 1) (n : ℕ) :
    (q.matching ((q.handle base)^[n + 1] s).table).length = 1 := by
  cases hfound : q.found s.table with
  | none =>
    obtain ⟨columns, htable, hport, hremote, hdomain, -⟩ := handle_of_none base hfound
    have hwait : q.immediate s.table = none := by simp [HsRequest.immediate, hfound, isNullOrEmpty]
    obtain ⟨row, hrow, -⟩ := FindsOwnRow.handle base h hwait
    rw [Function.iterate_succ_apply, iterate_handle_of_some hrow, htable, matching,
      Table.rows_insert, List.filter_append, List.filter_eq_nil_iff.mpr,
      List.filter_cons_of_pos (by simpa using ⟨hport, hremote⟩)]
    · rfl
    · intro other hother hown
      have hremote' : q.remotePort = q.hsPort := by simpa [FindsOwnRow, hfound] using h
      exact found_eq_none_iff.mp hfound other hother
        ((of_decide_eq_true hown).2.trans hremote')
  | some row =>
    rw [iterate_handle_of_some hfound]
    have hpos : 0 < (q.matching s.table).length := by
      rw [FindsOwnRow, hfound] at h
      rcases h with hown | ⟨-, other, hother, hown, -⟩
      · exact List.length_pos_of_mem (mem_matching.mpr ⟨(found_mem hfound).1, hown⟩)
      · exact List.length_pos_of_mem (mem_matching.mpr ⟨hother, hown⟩)
    omega

theorem FindsOwnRow.rightlyServed (h : q.FindsOwnRow s.table) : q.RightlyServed base s where
  oneRow := h.oneRow
  immediate := by
    intro result hresult
    cases hfound : q.found s.table with
    | none => simp [HsRequest.immediate, hfound, isNullOrEmpty] at hresult
    | some row =>
      simp only [HsRequest.immediate, hfound, Option.bind_some] at hresult
      split at hresult
      · simp at hresult
      · next haddress =>
        obtain rfl := Option.some_inj.mp hresult
        rw [handle_of_some hfound]
        rw [FindsOwnRow, hfound] at h
        have hdomain : row.columns.domain = some (row.columns.domain.getD "") := by
          cases hcase : row.columns.domain with
          | none => simp [hcase, isNullOrEmpty] at haddress
          | some host => rfl
        rcases h with hown | ⟨-, other, hother, hown, hsame⟩
        · exact ⟨row, (found_mem hfound).1, hown, hdomain⟩
        · exact ⟨other, hother, hown, hsame.trans hdomain⟩
  awaited := by
    intro hwait tables t result hlater _ hround
    have hfirst := (h.handle base hwait).later (hlater t (by simp))
    exact (round_of_ownRowFirst hfirst).1 result hround
  ends := by
    intro hwait tables t hlater _ haddress hagain
    have hfirst := (h.handle base hwait).later (hlater t (by simp))
    exact (round_of_ownRowFirst hfirst).2 haddress (await_eq_again_iff.mp hagain t (by simp))

/-! ## Other rows come first -/

/-- Give every selected row an address. -/
def assign (selection : Row → Bool) (host : String) (t : ServiceTable) : ServiceTable :=
  t.update selection fun columns ↦ { columns with domain := some host }

theorem otherChange_assign (selection : Row → Bool) (host : String) (t : ServiceTable) :
    q.OtherChange t (assign selection host t) :=
  .update t selection _ fun _ ↦ ⟨rfl, rfl⟩

theorem found_assign (selection : Row → Bool) (host : String) :
    q.found (assign selection host t) = (q.found t).map fun row ↦
      if selection row then { row with columns := { row.columns with domain := some host } }
      else row :=
  found_update _ _ fun _ ↦ rfl

/-- A service with another remote port is stored and never found. -/
theorem RightlyServed.remotePort_eq (h : q.RightlyServed base s)
    (hnone : q.found s.table = none) : q.remotePort = q.hsPort := by
  by_contra hports
  obtain ⟨columns, htable, hport, hremote, -⟩ := handle_of_none base hnone
  have hwait : q.immediate s.table = none := by simp [HsRequest.immediate, hnone, isNullOrEmpty]
  let t := assign (fun _ ↦ true) "x" (q.handle base s).table
  have hmissing : q.found (q.handle base s).table = none := by
    rw [found_eq_none_iff, htable, Table.forall_mem_insert]
    exact ⟨found_eq_none_iff.mp hnone, fun hsame ↦ hports (hremote.symm.trans hsame)⟩
  have hagain : q.round base t = .again := by
    simp [HsRequest.round, t, found_assign, hmissing]
  have hrow : ∃ row ∈ t.rows, q.Matches row := by
    refine ⟨⟨s.table.nextId, { columns with domain := some "x" }⟩, ?_, hport, hremote⟩
    simp [t, assign, htable]
  have haddress : ∀ row ∈ t.rows, q.Matches row → isNullOrEmpty row.columns.domain = false := by
    intro row hmem _
    obtain ⟨old, -, -, hcolumns⟩ := Table.mem_update hmem
    rw [hcolumns]
    rfl
  have hlater : ∀ u ∈ [] ++ [t], q.LaterTable (q.handle base s).table u := by
    intro u hu
    rw [List.mem_singleton.mp hu]
    exact .single (otherChange_assign _ _ _)
  exact h.ends hwait [] t hlater hrow haddress
    (await_eq_again_iff.mpr fun u hu ↦ List.mem_singleton.mp hu ▸ hagain)

/-- The address of the first row with the number as its remote port is given to the caller. -/
theorem RightlyServed.matches_found (h : q.RightlyServed base s) {row : Row}
    (hfound : q.found s.table = some row) (hnone : isNullOrEmpty row.columns.domain) :
    q.Matches row := by
  have hwait : q.immediate s.table = none := by simp [HsRequest.immediate, hfound, hnone]
  have htable : (q.handle base s).table = s.table := handle_of_some hfound
  let t := assign (idIs row.id) "x" (assign (fun _ ↦ true) "" s.table)
  have hx : q.round base t = .ended (some
      { hs_host := "x"
        hs_auth_cookie := if q.authCookie then some row.columns.authCookieValue else none
        data := q.sharedKey base }) := by
    simp [HsRequest.round, t, found_assign, hfound, idIs]
  have hlater : ∀ u ∈ [] ++ [t], q.LaterTable (q.handle base s).table u := by
    intro u hu
    rw [List.mem_singleton.mp hu, htable]
    exact .tail (.single (otherChange_assign _ _ _)) (otherChange_assign _ _ _)
  obtain ⟨answered, hmem, hown, hdomain⟩ := h.awaited hwait [] t _ hlater rfl hx
  obtain ⟨middle, hmiddle, -, hcolumns⟩ := Table.mem_update hmem
  obtain ⟨old, hold, hid, hports⟩ := Table.mem_update hmiddle
  rw [if_pos rfl] at hports
  by_cases hselected : idIs row.id middle = true
  · have hsame : old = row := Table.eq_of_id_eq hold (found_mem hfound).1
      (hid.symm.trans (by simpa [idIs] using hselected))
    rw [if_pos hselected, hports, hsame] at hcolumns
    rw [Matches, hcolumns] at hown
    exact hown
  · rw [if_neg hselected, hports] at hcolumns
    rw [hcolumns] at hdomain
    simp at hdomain

theorem RightlyServed.findsOwnRow (h : q.RightlyServed base s) : q.FindsOwnRow s.table := by
  unfold FindsOwnRow
  split
  · next hnone => exact h.remotePort_eq hnone
  · next row hfound =>
    by_cases haddress : isNullOrEmpty row.columns.domain = true
    · exact .inl (h.matches_found hfound haddress)
    · have hfalse : isNullOrEmpty row.columns.domain = false := by simpa using haddress
      have himmediate : q.immediate s.table =
          some { hs_host := row.columns.domain.getD "", hs_auth_cookie := none, data := none } := by
        simp [HsRequest.immediate, hfound, hfalse]
      obtain ⟨other, hother, hown, hdomain⟩ := h.immediate _ himmediate
      rw [handle_of_some hfound] at hother
      refine .inr ⟨hfalse, other, hother, hown, hdomain.trans ?_⟩
      cases hcase : row.columns.domain with
      | none => simp [hcase, isNullOrEmpty] at hfalse
      | some host => rfl

/-- A request leaves one row for its service and is answered for that service, if and only if the
first row with its local port as the remote port is the one of its service. -/
theorem rightlyServed_iff (base : Path) (q : HsRequest) (s : Store) :
    q.RightlyServed base s ↔ q.FindsOwnRow s.table :=
  ⟨fun h ↦ h.findsOwnRow, fun h ↦ h.rightlyServed⟩

/-- A web server on port 8080 that is to be reached on port 80. -/
def webRequest : HsRequest where
  hsName := none
  hsPort := 8080
  hsRemotePort := 80
  backupToPackage := none
  hsKey := none
  authCookie := false

/-- Asked for twice, the service is stored twice, and its address is never found. -/
theorem webRequest_storedTwice :
    let twice := (webRequest.handle (Version.v2.base appFiles))^[2] ⟨Table.empty, Disk.initial⟩
    (webRequest.matching twice.table).length = 2 ∧
      webRequest.round (Version.v2.base appFiles) (assign (fun _ ↦ true) "a.onion" twice.table) =
        .again ∧
      ¬ webRequest.RightlyServed (Version.v2.base appFiles) ⟨Table.empty, Disk.initial⟩ := by
  have htwice : (webRequest.matching
      ((webRequest.handle (Version.v2.base appFiles))^[2]
        ⟨Table.empty, Disk.initial⟩).table).length = 2 := by
    decide
  refine ⟨htwice, by decide, fun h ↦ ?_⟩
  have hone := h.oneRow (by decide) 1
  rw [htwice] at hone
  exact absurd hone (by decide)

/-! ## Supplied keys -/

/-- The file that a supplied key is restored into. -/
def restoredKey (base : Path) (q : HsRequest) : Path :=
  base ++ [Version.v2.portDir q.hsPort, privateKeyFile]

/-- The directory that the next torrc gives the row of the request. -/
def NewServiceDir (base : Path) (q : HsRequest) (randomUUID : ℕ → Uuid) (s : Store)
    (dir : Path) : Prop :=
  ∃ service ∈ (addV2HiddenServicesToTorrc base randomUUID (q.handle base s).table).2,
    service.id = s.table.nextId ∧ service.dir = dir

/-- The request has written the key file of the directory that is served. -/
def ServesRestoredKey (base : Path) (q : HsRequest) (randomUUID : ℕ → Uuid) (s : Store) : Prop :=
  ∀ dir, q.NewServiceDir base randomUUID s dir →
    ¬ Disk.Changed (fun change ↦ change ≠ .put (dir ++ [privateKeyFile])) s.disk
      (q.handle base s).disk

/-- The file that is shared is the key file of the directory that is served. -/
def SharesServedKey (base : Path) (q : HsRequest) (randomUUID : ℕ → Uuid) (s : Store) : Prop :=
  ∀ dir, q.NewServiceDir base randomUUID s dir →
    ∀ file ∈ q.sharedKey base, file = dir ++ [privateKeyFile]

theorem normalize_restoredKey :
    Path.normalize base [Version.v2.portDir q.hsPort, privateKeyFile] = q.restoredKey base := by
  refine Path.normalize_names (fun name hname ↦ ?_) base
  rcases List.mem_cons.mp hname with rfl | hname
  · exact isName_dirPrefix
  · rw [List.mem_singleton.mp hname]
    decide

/-- The directory of a restored key is created with the directories above it. -/
theorem changed_ensureDirectory (d : Disk Bytes) :
    Disk.Changed (fun change ↦ ∃ path, change = .put path ∧ path <+: q.restoredKey base) d
      (ensureDirectory base [Version.v2.portDir q.hsPort] d) := by
  have hdir : Path.normalize base [Version.v2.portDir q.hsPort] =
      base ++ [Version.v2.portDir q.hsPort] := normalize_prefixed .v2 base _
  have habove : base ++ [Version.v2.portDir q.hsPort] <+: q.restoredKey base := by
    simp [restoredKey]
  unfold ensureDirectory makeDirectories
  split
  · exact .refl _ d
  split
  · exact .refl _ d
  · rw [hdir]
    apply (d.changed_mkdirs _).mono
    intro change ⟨path, hchange, hpath, _⟩
    exact ⟨path, hchange, hpath.trans habove⟩

/-- Restoring a key creates directories above its file and the file, nothing else. -/
theorem changed_restoreKeyBackup (key : Option Bytes) (d : Disk Bytes) :
    Disk.Changed (fun change ↦ ∃ path, change = .put path ∧ path <+: q.restoredKey base) d
      (restoreKeyBackup base q.hsPort key d) := by
  have hensured : Disk.Changed
      (fun change ↦ ∃ path, change = .put path ∧ path <+: q.restoredKey base) d
      (ensureDirectory base [Version.v2.portDir q.hsPort] d) := changed_ensureDirectory d
  cases key with
  | none => exact hensured
  | some content =>
    rw [restoreKeyBackup]
    cases hopen : (ensureDirectory base [Version.v2.portDir q.hsPort] d).openAndWrite base
        [Version.v2.portDir q.hsPort, privateKeyFile] content with
    | none => simpa [hopen] using hensured
    | some d' =>
      obtain ⟨hwritable, -, rfl⟩ := Disk.openAndWrite_eq_some hopen
      apply hensured.trans
      simp only [Option.getD_some]
      exact Disk.changed_write.mpr ⟨_, rfl, by rw [normalize_restoredKey]⟩

theorem changed_handle :
    Disk.Changed (fun change ↦ ∃ path, change = .put path ∧ path <+: q.restoredKey base) s.disk
      (q.handle base s).disk := by
  unfold handle enableHiddenServicePortV2
  dsimp only
  split
  · exact .refl _ _
  · split
    · exact changed_restoreKeyBackup _ _
    · exact .refl _ _

/-- A new row has neither a directory nor an address, so the torrc draws a directory for it. -/
theorem newServiceDir_iff (randomUUID : ℕ → Uuid) (hnone : q.found s.table = none) (dir : Path) :
    q.NewServiceDir base randomUUID s dir ↔
      dir = base ++ [Version.v2.uuidDir (randomUUID s.table.nextId)] := by
  obtain ⟨columns, htable, -, -, hdomain, hpath, henabled⟩ := handle_of_none base hnone
  have hlisted : listedPath .v2 randomUUID ⟨s.table.nextId, columns⟩ =
      Version.v2.uuidDir (randomUUID s.table.nextId) := by
    simp [listedPath, newPath, hpath, hdomain]
  rw [NewServiceDir, addV2HiddenServicesToTorrc, services_addServicesToTorrc, htable,
    Table.rows_insert, List.filter_append, List.filter_cons_of_pos (by simp [isEnabled, henabled]),
    List.filter_nil, List.map_append, List.map_singleton]
  constructor
  · rintro ⟨service, hservice, hid, rfl⟩
    rcases List.mem_append.mp hservice with hold | hnew
    · obtain ⟨row, hrow, rfl⟩ := List.mem_map.mp hold
      have hlt := s.table.ids_lt row (List.mem_filter.mp hrow).1
      exact absurd hid hlt.ne
    · rw [List.mem_singleton.mp hnew, hlisted]
      exact serviceDir_uuidDir _ _ _
  · rintro rfl
    refine ⟨_, List.mem_append_right _ (List.mem_singleton_self _), rfl, ?_⟩
    rw [hlisted]
    exact serviceDir_uuidDir _ _ _

theorem restoredKey_ne (base : Path) (q : HsRequest) (uuid : Uuid) :
    base ++ [Version.v2.uuidDir uuid] ++ [privateKeyFile] ≠ q.restoredKey base := by
  intro hsame
  rw [restoredKey, List.append_assoc] at hsame
  have hnames := List.append_cancel_left hsame
  exact Version.v2.uuidDir_ne_portDir uuid q.hsPort (List.cons.inj hnames).1

theorem not_servesRestoredKey (randomUUID : ℕ → Uuid) (hnone : q.found s.table = none) :
    ¬ q.ServesRestoredKey base randomUUID s := by
  intro hserves
  refine hserves _ ((newServiceDir_iff randomUUID hnone _).mpr rfl) (changed_handle.mono ?_)
  rintro change ⟨path, rfl, hpath⟩ hput
  obtain rfl := Change.put.inj hput
  exact restoredKey_ne base q _ (hpath.eq_of_length (by simp [restoredKey]))

theorem not_sharesServedKey (randomUUID : ℕ → Uuid) (hnone : q.found s.table = none)
    (hpackage : isNullOrEmpty q.backupToPackage = false) :
    ¬ q.SharesServedKey base randomUUID s := by
  intro hshares
  have hfile := hshares _ ((newServiceDir_iff randomUUID hnone _).mpr rfl) (q.restoredKey base)
    (by simp [sharedKey, hpackage, restoredKey])
  exact restoredKey_ne base q _ hfile.symm

/-- The key of a new service is neither the one that came with the request nor the one that is
shared. -/
theorem suppliedKey_notServed (base : Path) (q : HsRequest) (randomUUID : ℕ → Uuid) (s : Store)
    (hnone : q.found s.table = none) :
    ¬ q.ServesRestoredKey base randomUUID s ∧
      (isNullOrEmpty q.backupToPackage = false → ¬ q.SharesServedKey base randomUUID s) :=
  ⟨not_servesRestoredKey randomUUID hnone, not_sharesServedKey randomUUID hnone⟩

/-- A request with a key, which a package wants to back up. -/
def keyRequest : HsRequest where
  hsName := some "blog"
  hsPort := 8080
  hsRemotePort := -1
  backupToPackage := some "org.example.blog"
  hsKey := some (some [7])
  authCookie := false

theorem suppliedKey_notServed_keyRequest :
    ¬ keyRequest.ServesRestoredKey (Version.v2.base appFiles) drawByRow
        (installed (Version.v2.base appFiles)).store ∧
      (isNullOrEmpty keyRequest.backupToPackage = false →
        ¬ keyRequest.SharesServedKey (Version.v2.base appFiles) drawByRow
          (installed (Version.v2.base appFiles)).store) :=
  suppliedKey_notServed _ keyRequest drawByRow _ rfl

/-- The key is restored into `hs8080`, and the torrc lists a directory without a key. -/
theorem keyRequest_servesOther :
    let base := Version.v2.base appFiles
    let s := keyRequest.handle base (installed base).store
    (addV2HiddenServicesToTorrc base drawByRow s.table).2.map (·.dir) =
        [base ++ [Version.v2.uuidDir firstUuid]] ∧
      s.disk.node (base ++ ["hs8080", "private_key"]) = some (.file [7]) ∧
      s.disk.node (base ++ [Version.v2.uuidDir firstUuid, "private_key"]) = none ∧
      keyRequest.sharedKey base = some (base ++ ["hs8080", "private_key"]) ∧
      ¬ keyRequest.ServesRestoredKey base drawByRow (installed base).store := by
  refine ⟨by decide, by decide, by decide, by decide, ?_⟩
  exact not_servesRestoredKey drawByRow rfl

end HsRequest

end Orbot.OnionService
