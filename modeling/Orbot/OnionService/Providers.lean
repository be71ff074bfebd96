import Orbot.OnionService.Credentials

/-!
# The content providers

Each of the four content providers maps a URI and a selection to the where clause of an SQL
statement. They are written alike and differ in the authority, in the path of the content URI, in
the path that the URI matcher knows and in the column that an update of an item names. What a where
clause selects is a parameter: SQLite is a library of the platform.
-/

namespace Orbot.OnionService

open Orbot.Foundation

universe u

/-! ## URIs -/

/-- A `content` URI: its authority and its path segments. -/
structure ContentUri where
  authority : String
  path : List String
  deriving DecidableEq

/-- `ContentUris.withAppendedId`. -/
def ContentUri.withAppendedId (uri : ContentUri) (id : ℕ) : ContentUri :=
  { uri with path := uri.path ++ [toString id] }

/-- `Uri.getLastPathSegment`; a missing one reads as `null` in a text. -/
def ContentUri.lastPathSegment (uri : ContentUri) : String := uri.path.getLastD "null"

/-- The two codes of the URI matchers. -/
inductive UriCode where
  | collection
  | item
  deriving DecidableEq

/-- `UriMatcher.match` for the patterns `path` and `path/#` of an authority; a pattern without
further segments matches whatever follows it. -/
def uriMatch (authority path : String) (uri : ContentUri) : Option UriCode :=
  if uri.authority = authority then
    match uri.path with
    | [] => none
    | [segment] => if segment = path then some .collection else none
    | segment :: number :: _ =>
        if segment = path ∧ number.toList.all Char.isDigit then some .item else none
  else none

/-! ## SQLite -/

/-- The rows of a table that a where clause selects with its arguments; `none` for an exception.
A missing where clause or a missing array of arguments is `null`. -/
structure SQLite (Columns : Type u) where
  selects : Table Columns → Option String → Option (List String) →
    Option (Record Columns → Bool)

/-- What the providers rely on: the documented results for clauses without parameters, and an
exception for an unknown column or an argument without a parameter. -/
structure SQLite.Documented {Columns : Type u} (E : SQLite Columns) : Prop where
  noClause : ∀ t, E.selects t none none = some fun _ ↦ true
  byId : ∀ t id, E.selects t (some ("_id=" ++ toString id)) none = some fun row ↦ row.id == id
  emptyArgs : ∀ t clause, E.selects t clause (some []) = E.selects t clause none
  tooManyArgs : ∀ t (id : ℕ) arg args,
    E.selects t (some ("_id=" ++ toString id)) (some (arg :: args)) = none
  unknownColumn : ∀ t (id : ℕ) args, E.selects t (some ("id_=" ++ toString id)) args = none

/-! ## The providers -/

/-- In what the providers differ. -/
structure ContentProvider where
  AUTH : String
  /-- The path of `CONTENT_URI`. -/
  contentPath : String
  /-- The path that is added to the URI matcher, alone and with `/#`. -/
  matchedPath : String
  /-- The text before the id in the where clause of an update. -/
  updateId : String
  deriving DecidableEq

def HSContentProvider : ContentProvider where
  AUTH := "org.torproject.android.ui.hiddenservices.providers"
  contentPath := "hs"
  matchedPath := "hs"
  updateId := "_id="

def CookieContentProvider : ContentProvider where
  AUTH := "org.torproject.android.ui.hiddenservices.providers.cookie"
  contentPath := "cookie"
  matchedPath := "hs"
  updateId := "_id="

def OnionServiceContentProvider : ContentProvider where
  AUTH := "org.torproject.android.ui.v3onionservice"
  contentPath := "v3"
  matchedPath := "v3"
  updateId := "_id="

def ClientAuthContentProvider : ContentProvider where
  AUTH := "org.torproject.android.ui.v3onionservice.clientauth"
  contentPath := "v3auth"
  matchedPath := "v3auth"
  updateId := "id_="

def contentProviders : List ContentProvider :=
  [HSContentProvider, OnionServiceContentProvider, ClientAuthContentProvider,
    CookieContentProvider]

namespace ContentProvider

def CONTENT_URI (p : ContentProvider) : ContentUri := ⟨p.AUTH, [p.contentPath]⟩

/-- The provider's match of a URI. -/
def matchUri (p : ContentProvider) (uri : ContentUri) : Option UriCode :=
  uriMatch p.AUTH p.matchedPath uri

/-- The where clause of an operation, given the text before the id. -/
def whereClause (p : ContentProvider) (idIs : String) (uri : ContentUri)
    (selection : Option String) : Option String :=
  if p.matchUri uri = some .item then some (idIs ++ uri.lastPathSegment) else selection

section Operations

variable {Columns : Type u} (E : SQLite Columns) (t : Table Columns) (p : ContentProvider)
  (uri : ContentUri) (selection : Option String) (selectionArgs : Option (List String))

def query : Option (List (Record Columns)) :=
  (E.selects t (p.whereClause "_id=" uri selection) selectionArgs).map t.rows.filter

def insert (columns : Columns) : ContentUri × Table Columns :=
  (p.CONTENT_URI.withAppendedId t.nextId, t.insert columns)

/-- The table after a deletion, and the removed rows; their number is returned. -/
def delete : Option (Table Columns × List (Record Columns)) :=
  (E.selects t (p.whereClause "_id=" uri selection) selectionArgs).map fun selected ↦
    (t.delete selected, t.rows.filter selected)

/-- The table after an update, and the rows that it changed; the arguments are not passed on. -/
def update (values : Columns → Columns) : Option (Table Columns × List (Record Columns)) :=
  (E.selects t (p.whereClause p.updateId uri selection) none).map fun selected ↦
    (t.update selected values, t.rows.filter selected)

end Operations

/-- The content URI, or the URI of an inserted row. -/
def uriOf (p : ContentProvider) : Option ℕ → ContentUri
  | none => p.CONTENT_URI
  | some id => p.CONTENT_URI.withAppendedId id

/-- Update, delete and query address the same rows of a table, and the URI of an inserted row
addresses that row. An operation that throws addresses none, and the others throw too. -/
structure AddressesSameRows {Columns : Type u} (E : SQLite Columns) (t : Table Columns)
    (p : ContentProvider) (item : Option ℕ) (selection : Option String)
    (selectionArgs : Option (List String)) : Prop where
  update : ∀ values, (p.update E t (p.uriOf item) selection values).map Prod.snd =
    p.query E t (p.uriOf item) selection selectionArgs
  delete : (p.delete E t (p.uriOf item) selection selectionArgs).map Prod.snd =
    p.query E t (p.uriOf item) selection selectionArgs
  inserted : selection = none → selectionArgs = none → ∀ row ∈ t.rows, item = some row.id →
    p.query E t (p.uriOf item) selection selectionArgs = some [row]

/-- What is right about a request. A URI that matches as an item: it comes without arguments, if the
provider updates by `_id`, and is refused for its arguments otherwise. Another one: the selection
picks the same rows without its arguments, and there is no other row than the addressed one. -/
def RightlyAddressed {Columns : Type u} (E : SQLite Columns) (t : Table Columns)
    (p : ContentProvider) (item : Option ℕ) (selection : Option String)
    (selectionArgs : Option (List String)) : Prop :=
  if p.matchUri (p.uriOf item) = some .item then
    selectionArgs.getD [] = [] ↔ p.updateId = "_id="
  else
    (E.selects t selection none).map t.rows.filter =
        (E.selects t selection selectionArgs).map t.rows.filter ∧
      (selection = none → selectionArgs = none → ∀ row ∈ t.rows, item = some row.id →
        t.rows = [row])

/-! ## Where clauses -/

section WhereClause

variable {p : ContentProvider}

theorem lastPathSegment_uriOf (id : ℕ) : (p.uriOf (some id)).lastPathSegment = toString id := rfl

/-- The content URI is not an item, and an item URI is matched as one exactly if the matcher knows
the path of the content URI. -/
theorem matchUri_uriOf_eq_item {item : Option ℕ} :
    p.matchUri (p.uriOf item) = some .item ↔ item.isSome ∧ p.contentPath = p.matchedPath := by
  cases item with
  | none => by_cases hpath : p.contentPath = p.matchedPath <;>
      simp [matchUri, uriMatch, uriOf, CONTENT_URI, hpath]
  | some id =>
    have hdigits (c : Char) (hc : c ∈ Nat.toDigits 10 id) : c.isDigit :=
      Nat.isDigit_of_mem_toDigits (by decide) (by decide) hc
    simpa [matchUri, uriMatch, uriOf, CONTENT_URI, ContentUri.withAppendedId] using fun _ ↦ hdigits

theorem whereClause_item {id : ℕ} (h : p.matchUri (p.uriOf (some id)) = some .item)
    (idIs : String) (selection : Option String) :
    p.whereClause idIs (p.uriOf (some id)) selection = some (idIs ++ toString id) := by
  rw [whereClause, if_pos h, lastPathSegment_uriOf]

theorem whereClause_other {item : Option ℕ} (h : p.matchUri (p.uriOf item) ≠ some .item)
    (idIs : String) (selection : Option String) :
    p.whereClause idIs (p.uriOf item) selection = selection := by
  rw [whereClause, if_neg h]

end WhereClause

section Addressing

variable {Columns : Type u} {E : SQLite Columns} {t : Table Columns} {p : ContentProvider}
  {item : Option ℕ} {selection : Option String} {selectionArgs : Option (List String)}

/-- A URI that is not matched as an item addresses what the selection selects. -/
theorem addressesSameRows_other_iff (hE : E.Documented)
    (h : p.matchUri (p.uriOf item) ≠ some .item) :
    AddressesSameRows E t p item selection selectionArgs ↔
      (E.selects t selection none).map t.rows.filter =
          (E.selects t selection selectionArgs).map t.rows.filter ∧
        (selection = none → selectionArgs = none → ∀ row ∈ t.rows, item = some row.id →
          t.rows = [row]) := by
  have hquery : p.query E t (p.uriOf item) selection selectionArgs =
      (E.selects t selection selectionArgs).map t.rows.filter := by
    rw [query, whereClause_other h]
  have hupdate (values : Columns → Columns) :
      (p.update E t (p.uriOf item) selection values).map Prod.snd =
        (E.selects t selection none).map t.rows.filter := by
    rw [update, whereClause_other h, Option.map_map]
    rfl
  have hall (hnone : selection = none) (hargs : selectionArgs = none) :
      (E.selects t selection selectionArgs).map t.rows.filter = some t.rows := by
    rw [hnone, hargs, hE.noClause, Option.map_some, List.filter_true]
  constructor
  · rintro ⟨hsame, -, hinserted⟩
    refine ⟨((hupdate id).symm.trans (hsame id)).trans hquery, fun hnone hargs row hrow hid ↦ ?_⟩
    have hsingle := hinserted hnone hargs row hrow hid
    rw [hquery, hall hnone hargs] at hsingle
    exact Option.some_inj.mp hsingle
  · rintro ⟨hsame, hsingle⟩
    refine ⟨fun values ↦ ?_, ?_, fun hnone hargs row hrow hid ↦ ?_⟩
    · rw [hupdate, hquery, hsame]
    · rw [delete, query, Option.map_map]
      rfl
    · rw [hquery, hall hnone hargs, hsingle hnone hargs row hrow hid]

/-- The clause by which the app addresses a row through the content URI. -/
theorem update_contentUri_byId (hE : E.Documented) (id : ℕ) (values : Columns → Columns) :
    p.update E t p.CONTENT_URI (some ("_id=" ++ toString id)) values =
      some (t.update (fun row ↦ row.id == id) values, t.rows.filter fun row ↦ row.id == id) := by
  have hnot : p.matchUri (p.uriOf none) ≠ some .item := by
    rw [Ne, matchUri_uriOf_eq_item]
    simp
  change (E.selects t (p.whereClause p.updateId (p.uriOf none) _) none).map _ = _
  rw [whereClause_other hnot, hE.byId]
  rfl

/-- An item that is matched is addressed by its id, unless there are arguments. -/
theorem query_item (hE : E.Documented) {id : ℕ}
    (h : p.matchUri (p.uriOf (some id)) = some .item) :
    p.query E t (p.uriOf (some id)) selection selectionArgs =
      if selectionArgs.getD [] = [] then some (t.rows.filter fun row ↦ row.id == id)
      else none := by
  rw [query, whereClause_item h]
  rcases selectionArgs with _ | _ | ⟨arg, args⟩
  · rw [hE.byId]
    rfl
  · rw [hE.emptyArgs, hE.byId]
    rfl
  · rw [hE.tooManyArgs]
    rfl

/-- The update of an item goes by its id, or fails for the name of the column. -/
theorem update_item (hE : E.Documented) (hp : p ∈ contentProviders) {id : ℕ}
    (h : p.matchUri (p.uriOf (some id)) = some .item) (values : Columns → Columns) :
    (p.update E t (p.uriOf (some id)) selection values).map Prod.snd =
      if p.updateId = "_id=" then some (t.rows.filter fun row ↦ row.id == id) else none := by
  have hcolumn : ∀ q ∈ contentProviders, q.updateId = "_id=" ∨ q.updateId = "id_=" := by decide
  rw [update, whereClause_item h]
  rcases hcolumn p hp with hid | hunknown
  · rw [if_pos hid, hid, hE.byId]
    rfl
  · rw [if_neg (by rw [hunknown]; decide), hunknown, hE.unknownColumn]
    rfl

theorem addressesSameRows_item_iff (hE : E.Documented) (hp : p ∈ contentProviders) {id : ℕ}
    (h : p.matchUri (p.uriOf (some id)) = some .item) :
    AddressesSameRows E t p (some id) selection selectionArgs ↔
      (selectionArgs.getD [] = [] ↔ p.updateId = "_id=") := by
  constructor
  · intro hsame
    have hupdate := hsame.update fun columns ↦ columns
    rw [update_item hE hp h, query_item hE h] at hupdate
    split_ifs at hupdate with hid hargs hargs
    · exact iff_of_true hargs hid
    · exact iff_of_false hargs hid
  · intro hiff
    refine ⟨fun values ↦ ?_, ?_, fun hnone hargs row hrow hid ↦ ?_⟩
    · rw [update_item hE hp h, query_item hE h]
      simp only [hiff]
    · rw [delete, query, Option.map_map]
      rfl
    · obtain rfl := Option.some_inj.mp hid
      rw [query_item hE h, if_pos (by rw [hargs]; rfl), t.filter_id hrow]

end Addressing

end ContentProvider

open ContentProvider

/-- Whether the paths of a content provider address the same rows. -/
theorem provider_addresses_same_rows_iff {Columns : Type u} {E : SQLite Columns}
    (hE : E.Documented) (t : Table Columns) {p : ContentProvider} (hp : p ∈ contentProviders)
    (item : Option ℕ) (selection : Option String) (selectionArgs : Option (List String)) :
    AddressesSameRows E t p item selection selectionArgs ↔
      RightlyAddressed E t p item selection selectionArgs := by
  unfold RightlyAddressed
  split
  · next hmatch =>
    obtain ⟨id, rfl⟩ := Option.isSome_iff_exists.mp (matchUri_uriOf_eq_item.mp hmatch).1
    exact addressesSameRows_item_iff hE hp hmatch
  · next hmatch => exact addressesSameRows_other_iff hE hmatch

instance {Columns : Type u} [DecidableEq Columns] (E : SQLite Columns) (t : Table Columns)
    (p : ContentProvider) (item : Option ℕ) (selection : Option String)
    (selectionArgs : Option (List String)) :
    Decidable (RightlyAddressed E t p item selection selectionArgs) := by
  unfold RightlyAddressed
  infer_instance

/-! ## Two rows -/

/-- SQLite for a missing clause and for the clauses `_id=` of the providers. -/
def sqliteById (Columns : Type u) : SQLite Columns where
  selects _ clause args :=
    if args.getD [] = [] then
      match clause with
      | none => some fun _ ↦ true
      | some text =>
          match text.toList with
          | '_' :: 'i' :: 'd' :: '=' :: digits => (parseDigits digits).map fun id row ↦ row.id == id
          | _ => none
    else none

theorem documented_sqliteById (Columns : Type u) : (sqliteById Columns).Documented where
  noClause _ := rfl
  byId t id := by simp [sqliteById, parseDigits_toDigits]
  emptyArgs _ _ := rfl
  tooManyArgs _ _ _ _ := rfl
  unknownColumn t id args := by simp [sqliteById]

/-- A table with two cookies. -/
def twoCookies : CookieTable :=
  let first := Table.empty.insert
    { domain := some "abcdefghijklmnop.onion", authCookieValue := some "c1" }
  first.insert { domain := some "ponmlkjihgfedcba.onion", authCookieValue := some "c2" }

/-- A table with two services. -/
def twoServices : ServiceTable :=
  (Table.empty.insert { defaultColumns with name := "blog", port := 8080 }).insert
    { defaultColumns with name := "wiki", port := 9090 }

theorem service_item_addresses_same_rows :
    AddressesSameRows (sqliteById Columns) twoServices HSContentProvider (some 1) none none :=
  (provider_addresses_same_rows_iff (documented_sqliteById Columns) twoServices
    (by decide : HSContentProvider ∈ contentProviders) (some 1) none none).mpr (by decide)

/-- The URI of one cookie addresses both. -/
theorem cookie_item_addresses_all_rows :
    ¬ ∀ (E : SQLite ClientCookie), E.Documented → ∀ t, ∀ p ∈ contentProviders, ∀ item,
      (∀ id ∈ item, ∃ row ∈ t.rows, row.id = id) → ∀ selection selectionArgs,
        AddressesSameRows E t p item selection selectionArgs := by
  intro h
  have hsame := h (sqliteById ClientCookie) (documented_sqliteById ClientCookie) twoCookies
    CookieContentProvider (by decide) (some 1) (by decide) none none
  have hsingle := hsame.inserted rfl rfl _ List.mem_cons_self rfl
  exact absurd hsingle (by decide)

end Orbot.OnionService
