import Mathlib.Logic.Function.Iterate
import Orbot.Foundation.TextParts
import Orbot.OnionService.Columns

/-!
# The ports that an old preference holds

Older versions kept the ports of the v2 services in one preference. At every start
`OrbotMainActivity.migratePreferences` inserts a service for each entry of its text, one after the
other, and removes the preference after the last one. An entry that does not begin with a number
throws in between: the services before it stay in the table, the preference stays as well, and the
next start does the same again.
-/

namespace Orbot.OnionService

open Orbot.Foundation

/-- The preference `pref_hs_ports` and the table of v2 services. -/
structure OldPorts where
  prefHsPorts : Option String
  table : ServiceTable

/-- The row of a migrated port. -/
def migratedColumns (hsPort : Int32) : Columns :=
  { defaultColumns with name := decimal hsPort, port := hsPort, onionPort := hsPort }

/-- The table with one row more for each of the ports. -/
def withPorts (t : ServiceTable) (ports : List Int32) : ServiceTable :=
  ports.foldl (fun t hsPort ↦ t.insert (migratedColumns hsPort)) t

section Migration

-- `Integer.parseInt`, `none` for its exception; no result depends on which texts it reads
variable (parse : String → Option Int32)

/-- The port of an entry; `none` also where `split` has no part. -/
def entryPort (entry : String) : Option Int32 := (split ' ' entry).head?.bind parse

/-- The loop over the entries, and whether it ends without an exception. -/
def insertPorts (t : ServiceTable) : List String → Bool × ServiceTable
  | [] => (true, t)
  | entry :: rest =>
      match entryPort parse entry with
      | some hsPort =>
          insertPorts
            (insertValues t
              { name := some (decimal hsPort)
                port := some hsPort
                onionPort := some hsPort })
            rest
      | none => (false, t)

def migratePreferences (s : OldPorts) : Bool × OldPorts :=
  let hsPortString := s.prefHsPorts.getD ""
  if hsPortString.length > 0 then
    let (completes, table) := insertPorts parse s.table (tokens ',' hsPortString)
    (completes, ⟨if completes then none else s.prefHsPorts, table⟩)
  else (true, s)

/-- What a number of starts leave. -/
def afterStarts (starts : ℕ) (s : OldPorts) : OldPorts :=
  (fun s ↦ (migratePreferences parse s).2)^[starts] s

/-- The numbers that are the first word of an entry. -/
def firstWordPorts (s : OldPorts) : List Int32 :=
  (tokens ',' (s.prefHsPorts.getD "")).filterMap fun entry ↦ (tokens ' ' entry).head?.bind parse

/-- No start throws, and from the first one on the preference is gone and there is one row more
for each of the numbers. -/
structure MigratesOnce (s : OldPorts) : Prop where
  completes : ∀ starts, (migratePreferences parse (afterStarts parse starts s)).1 = true
  removes : ∀ starts, 0 < starts → (afterStarts parse starts s).prefHsPorts = none
  inserts : ∀ starts, 0 < starts →
    (afterStarts parse starts s).table = withPorts s.table (firstWordPorts parse s)

/-- The text of an entry before its first space. -/
def beforeSpace (entry : String) : String := String.ofList (entry.toList.takeWhile (· ≠ ' '))

/-- The preference is not stored as an empty text, and each entry begins with a number. -/
def BeginsWithPorts (s : OldPorts) : Prop :=
  s.prefHsPorts ≠ some "" ∧
    ∀ entry ∈ tokens ',' (s.prefHsPorts.getD ""), (parse (beforeSpace entry)).isSome

variable {parse}

theorem entryPort_eq (hempty : parse "" = none) (entry : String) :
    entryPort parse entry = parse (beforeSpace entry) := by
  rw [beforeSpace, ← head?_split, entryPort]
  cases (split ' ' entry).head? with
  | none => exact hempty.symm
  | some first => rfl

/-- A number before the first space is the first word. -/
theorem firstWord_of_entryPort (hempty : parse "" = none) {entry : String} {hsPort : Int32}
    (h : entryPort parse entry = some hsPort) :
    (tokens ' ' entry).head?.bind parse = some hsPort := by
  rw [entryPort_eq hempty, beforeSpace] at h
  have hne : entry.toList.takeWhile (· ≠ ' ') ≠ [] := by
    intro hnil
    rw [hnil, String.ofList_nil, hempty] at h
    cases h
  have hmem : ' ' ∉ entry.toList.takeWhile (· ≠ ' ') := fun hspace ↦ by
    simpa using List.mem_takeWhile_imp hspace
  have hrest : ∀ x ∈ (entry.toList.dropWhile (· ≠ ' ')).head?, x = ' ' := by
    intro x hx
    have hspace := List.head?_dropWhile_not (· ≠ ' ') entry.toList
    rw [Option.mem_def.mp hx] at hspace
    simpa using hspace
  obtain ⟨more, hmore⟩ := tokens_of_first hne hmem hrest
  rw [List.takeWhile_append_dropWhile, String.ofList_toList] at hmore
  rw [hmore]
  exact h

theorem insertPorts_completes_iff (t : ServiceTable) (entries : List String) :
    (insertPorts parse t entries).1 = true ↔
      ∀ entry ∈ entries, (entryPort parse entry).isSome := by
  induction entries generalizing t with
  | nil => simp [insertPorts]
  | cons entry rest ih =>
    rw [insertPorts, List.forall_mem_cons]
    cases entryPort parse entry with
    | none => simp
    | some hsPort => simp [ih]

theorem table_insertPorts (t : ServiceTable) {entries : List String}
    (h : ∀ entry ∈ entries, (entryPort parse entry).isSome) :
    (insertPorts parse t entries).2 = withPorts t (entries.filterMap (entryPort parse)) := by
  induction entries generalizing t with
  | nil => rfl
  | cons entry rest ih =>
    obtain ⟨hfirst, hrest⟩ := List.forall_mem_cons.mp h
    obtain ⟨hsPort, hport⟩ := Option.isSome_iff_exists.mp hfirst
    rw [List.filterMap_cons_some hport, withPorts, List.foldl_cons, insertPorts, hport]
    exact ih _ hrest

/-- Where every entry begins with a number these are the first words of the entries. -/
theorem filterMap_entryPort (hempty : parse "" = none) {s : OldPorts}
    (h : BeginsWithPorts parse s) :
    (tokens ',' (s.prefHsPorts.getD "")).filterMap (entryPort parse) = firstWordPorts parse s := by
  apply List.filterMap_congr
  intro entry hentry
  obtain ⟨hsPort, hport⟩ := Option.isSome_iff_exists.mp (h.2 entry hentry)
  rw [← entryPort_eq hempty] at hport
  rw [hport, firstWord_of_entryPort hempty hport]

theorem beginsWithPorts_entries (hempty : parse "" = none) {s : OldPorts} :
    BeginsWithPorts parse s ↔ s.prefHsPorts ≠ some "" ∧
      ∀ entry ∈ tokens ',' (s.prefHsPorts.getD ""), (entryPort parse entry).isSome := by
  simp only [BeginsWithPorts, entryPort_eq hempty]

theorem completes_iff (s : OldPorts) :
    (migratePreferences parse s).1 = true ↔
      ∀ entry ∈ tokens ',' (s.prefHsPorts.getD ""), (entryPort parse entry).isSome := by
  by_cases hlength : (s.prefHsPorts.getD "").length > 0
  · rw [migratePreferences, if_pos hlength]
    exact insertPorts_completes_iff s.table _
  · have htext : s.prefHsPorts.getD "" = "" :=
      String.length_eq_zero_iff.mp (Nat.eq_zero_of_not_pos hlength)
    rw [migratePreferences, if_neg hlength, htext]
    exact iff_of_true rfl fun entry hentry ↦ absurd hentry List.not_mem_nil

theorem prefHsPorts_of_throws {s : OldPorts} (h : (migratePreferences parse s).1 ≠ true) :
    (migratePreferences parse s).2.prefHsPorts = s.prefHsPorts := by
  by_cases hlength : (s.prefHsPorts.getD "").length > 0
  · rw [migratePreferences, if_pos hlength] at h ⊢
    exact if_neg h
  · rw [migratePreferences, if_neg hlength]

/-- A start that throws keeps the preference, so the next one throws as well. -/
theorem throws_afterStarts {s : OldPorts} (h : (migratePreferences parse s).1 ≠ true)
    (starts : ℕ) :
    (migratePreferences parse (afterStarts parse starts s)).1 ≠ true ∧
      (afterStarts parse starts s).prefHsPorts = s.prefHsPorts := by
  induction starts with
  | zero => exact ⟨h, rfl⟩
  | succ starts ih =>
    obtain ⟨hthrows, hpref⟩ := ih
    have hkept : (afterStarts parse (starts + 1) s).prefHsPorts = s.prefHsPorts := by
      rw [afterStarts, Function.iterate_succ_apply']
      exact (prefHsPorts_of_throws hthrows).trans hpref
    refine ⟨?_, hkept⟩
    rw [ne_eq, completes_iff, hkept, ← completes_iff]
    exact h

/-- A start without the preference changes nothing. -/
theorem migratePreferences_of_none {s : OldPorts} (h : s.prefHsPorts = none) :
    migratePreferences parse s = (true, s) := by
  simp [migratePreferences, h]

theorem afterStarts_of_none {s : OldPorts} (h : s.prefHsPorts = none) (starts : ℕ) :
    afterStarts parse starts s = s :=
  Function.iterate_fixed (by rw [migratePreferences_of_none h]) starts

theorem afterStarts_succ (starts : ℕ) (s : OldPorts) :
    afterStarts parse (starts + 1) s = afterStarts parse starts (migratePreferences parse s).2 :=
  Function.iterate_succ_apply _ _ _

/-- The first start when every entry begins with a number. -/
theorem migratePreferences_of_ports (hempty : parse "" = none) {s : OldPorts}
    (h : BeginsWithPorts parse s) :
    migratePreferences parse s =
      (true, ⟨none, withPorts s.table (firstWordPorts parse s)⟩) := by
  have hentries := ((beginsWithPorts_entries hempty).mp h).2
  have hinserted : insertPorts parse s.table (tokens ',' (s.prefHsPorts.getD "")) =
      (true, withPorts s.table (firstWordPorts parse s)) := by
    rw [← filterMap_entryPort hempty h, ← table_insertPorts s.table hentries]
    exact Prod.ext ((insertPorts_completes_iff s.table _).mpr hentries) rfl
  cases hpref : s.prefHsPorts with
  | none =>
    rw [migratePreferences_of_none hpref]
    have hnone : firstWordPorts parse s = [] := by
      rw [firstWordPorts, hpref]
      rfl
    rw [hnone, ← hpref]
    rfl
  | some text =>
    have hne : text ≠ "" := fun htext ↦ h.1 (by rw [hpref, htext])
    have hlength : text.length > 0 :=
      Nat.pos_of_ne_zero fun hzero ↦ hne (String.length_eq_zero_iff.mp hzero)
    rw [hpref, Option.getD_some] at hinserted
    rw [migratePreferences, hpref, Option.getD_some, if_pos hlength, hinserted]
    rfl

/-- The migration never throws, removes the preference and inserts each number once, over any
number of starts, if and only if the preference is not an empty text and the part before the first
space of each entry is a number. -/
theorem migratesOnce_iff (parse : String → Option Int32) (hempty : parse "" = none)
    (s : OldPorts) : MigratesOnce parse s ↔ BeginsWithPorts parse s := by
  constructor
  · intro h
    have hfirst : (migratePreferences parse s).1 = true := h.completes 0
    have hgone : (migratePreferences parse s).2.prefHsPorts = none := h.removes 1 Nat.one_pos
    rw [beginsWithPorts_entries hempty]
    constructor
    · intro hpref
      simp [migratePreferences, hpref] at hgone
    · exact (completes_iff s).mp hfirst
  · intro h
    have hlater (starts : ℕ) : afterStarts parse (starts + 1) s =
        ⟨none, withPorts s.table (firstWordPorts parse s)⟩ := by
      rw [afterStarts_succ, migratePreferences_of_ports hempty h, afterStarts_of_none rfl]
    constructor
    · intro starts
      cases starts with
      | zero =>
        change (migratePreferences parse s).1 = true
        rw [migratePreferences_of_ports hempty h]
      | succ starts => rw [hlater, migratePreferences_of_none rfl]
    · intro starts hstarts
      rw [← Nat.sub_one_add_one hstarts.ne', hlater]
    · intro starts hstarts
      rw [← Nat.sub_one_add_one hstarts.ne', hlater]

end Migration

/-- Two ports, the first with a remark. -/
theorem migratesOnce_twoPorts :
    MigratesOnce parseInt ⟨some "8080 blog,9090", Table.empty⟩ :=
  (migratesOnce_iff parseInt (by decide) _).mpr (by
    unfold BeginsWithPorts
    decide)

/-- A space after a comma: every start throws, and the first port is inserted once more. -/
theorem migratePreferences_repeats :
    let s : OldPorts := ⟨some "8080, 9090", Table.empty⟩
    (∀ starts, (migratePreferences parseInt (afterStarts parseInt starts s)).1 ≠ true ∧
        (afterStarts parseInt starts s).prefHsPorts = some "8080, 9090") ∧
      (afterStarts parseInt 2 s).table.rows.map Record.columns =
        [migratedColumns 8080, migratedColumns 8080] ∧
      firstWordPorts parseInt s = [8080, 9090] ∧ ¬ MigratesOnce parseInt s := by
  intro s
  have hfirst : (migratePreferences parseInt s).1 ≠ true := by decide
  have hthrows := throws_afterStarts hfirst
  exact ⟨hthrows, by decide, by decide, fun h ↦ (hthrows 0).1 (h.completes 0)⟩

end Orbot.OnionService
