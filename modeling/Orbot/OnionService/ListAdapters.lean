import Orbot.Foundation.System
import Orbot.OnionService.Credentials

/-!
# The lists of services and credentials

An item view of a list is bound to one row after another. `bindView` sets the switch to the state of
the row before it replaces the listener of the switch, so a switch that changes calls the listener
of the row that the view showed before. The four adapters differ in the texts that they show and in
the table that their listeners update.
-/

namespace Orbot.OnionService

open Orbot.Foundation

universe u

/-- An item view: its texts, and its switch with the row that the listener updates. -/
structure ItemView where
  texts : List (Option String)
  isChecked : Bool
  listener : Option ℕ
  deriving DecidableEq

/-- A view from `newView`. -/
def newView : ItemView := ⟨[], false, none⟩

/-- A list adapter: the texts of a row and the column that its switch shows and sets. -/
structure ListAdapter (Columns : Type u) where
  texts : Columns → List (Option String)
  enabled : Columns → Int32
  setEnabled : Int32 → Columns → Columns
  enabled_setEnabled : ∀ value columns, enabled (setEnabled value columns) = value

/-- The columns of an onion service that its item shows. -/
def serviceTexts (columns : Columns) : List (Option String) :=
  [some (decimal columns.port), some (decimal columns.onionPort), some columns.name,
    columns.domain]

/-- The adapter of either generation of services. -/
def serviceListAdapter : ListAdapter Columns where
  texts := serviceTexts
  enabled columns := columns.enabled
  setEnabled value columns := ContentValues.apply { enabled := some value } columns
  enabled_setEnabled _ _ := rfl

def OnionV3ListAdapter : ListAdapter Columns := serviceListAdapter

def OnionListAdapter : ListAdapter Columns := serviceListAdapter

def ClientCookiesAdapter : ListAdapter ClientCookie where
  texts columns := [columns.domain]
  enabled columns := columns.enabled
  setEnabled value columns := { columns with enabled := value }
  enabled_setEnabled _ _ := rfl

def ClientAuthListAdapter : ListAdapter V3ClientAuth where
  texts columns := [some (columns.domain.getD "null" ++ ".onion")]
  enabled columns := columns.enabled
  setEnabled value columns := { columns with enabled := value }
  enabled_setEnabled _ _ := rfl

/-- A list on the screen: the table, the rows of the last query and the pool of item views. -/
structure ListScreen (Columns : Type u) where
  table : Table Columns
  cursor : List (Record Columns)
  views : ℕ → ItemView

/-- What the list does without the user. -/
inductive ListEvent (Columns : Type u) where
  | bindView (view : ℕ) (row : Record Columns)
  /-- The table has changed, and the list is queried again. -/
  | changeCursor (selection : Record Columns → Bool)

section Adapter

variable {Columns : Type u} (A : ListAdapter Columns)

/-- The listener of a switch: store its state in the row. -/
def ListAdapter.onCheckedChanged (id : ℕ) (isChecked : Bool) (t : Table Columns) :
    Table Columns :=
  t.update (fun row ↦ row.id == id) (A.setEnabled (if isChecked then 1 else 0))

/-- `setChecked`: a switch that changes its state calls its listener. -/
def ListAdapter.setChecked (isChecked : Bool) (view : ItemView) (t : Table Columns) :
    ItemView × Table Columns :=
  ({ view with isChecked := isChecked },
    if view.isChecked = isChecked then t
    else
      match view.listener with
      | some id => A.onCheckedChanged id isChecked t
      | none => t)

def setOnCheckedChangeListener (id : ℕ) (view : ItemView) : ItemView :=
  { view with listener := some id }

def ListAdapter.bindView (row : Record Columns) (view : ItemView) (t : Table Columns) :
    ItemView × Table Columns :=
  let view := { view with texts := A.texts row.columns }
  let (view, t) := A.setChecked (A.enabled row.columns == 1) view t
  (setOnCheckedChangeListener row.id view, t)

/-- The list without the user. -/
def ListAdapter.system (screen : ListScreen Columns) :
    System (ListScreen Columns) (ListEvent Columns) where
  init := screen
  enabled s
    | .bindView _ row => row ∈ s.cursor
    | .changeCursor _ => True
  next s
    | .bindView view row =>
        let (item, table) := A.bindView row (s.views view) s.table
        { s with table := table, views := Function.update s.views view item }
    | .changeCursor selection => { s with cursor := s.table.rows.filter selection }

/-- The `enabled` column with the ids of the rows. -/
def ListAdapter.enabledColumn (t : Table Columns) : List (ℕ × Int32) :=
  t.rows.map fun row ↦ (row.id, A.enabled row.columns)

/-- Binding the row leaves the switch as it is, or its listener has nothing to change. -/
def ListAdapter.BindsQuietly (s : ListScreen Columns) : ListEvent Columns → Prop
  | .bindView view row =>
      (s.views view).isChecked = (A.enabled row.columns == 1) ∨
        ∀ id ∈ (s.views view).listener, ∀ shown ∈ s.table.rows, shown.id = id →
          A.enabled shown.columns = if A.enabled row.columns == 1 then 1 else 0
  | .changeCursor _ => True

instance [DecidableEq Columns] (screen s : ListScreen Columns) :
    ∀ event, Decidable ((A.system screen).enabled s event)
  | .bindView _ row => inferInstanceAs (Decidable (row ∈ s.cursor))
  | .changeCursor _ => inferInstanceAs (Decidable True)

instance (s : ListScreen Columns) : ∀ event, Decidable (A.BindsQuietly s event)
  | .bindView _ _ => by unfold ListAdapter.BindsQuietly; infer_instance
  | .changeCursor _ => inferInstanceAs (Decidable True)

/-- A listener keeps the column if and only if its row, if there still is one, has the state. -/
theorem enabledColumn_onCheckedChanged_iff (id : ℕ) (isChecked : Bool) (t : Table Columns) :
    A.enabledColumn (A.onCheckedChanged id isChecked t) = A.enabledColumn t ↔
      ∀ shown ∈ t.rows, shown.id = id →
        A.enabled shown.columns = if isChecked then 1 else 0 := by
  rw [ListAdapter.enabledColumn, ListAdapter.onCheckedChanged, Table.rows_update, List.map_map,
    ListAdapter.enabledColumn, List.map_inj_left]
  refine forall₂_congr fun shown _ ↦ ?_
  by_cases hid : shown.id = id
  · simp only [Function.comp_apply, hid, beq_self_eq_true, if_true, A.enabled_setEnabled,
      Prod.mk.injEq, true_and, forall_const]
    exact eq_comm
  · simp [hid]

/-- One event keeps the column if and only if it is quiet. -/
theorem enabledColumn_next_iff (screen s : ListScreen Columns) (event : ListEvent Columns) :
    A.enabledColumn ((A.system screen).next s event).table = A.enabledColumn s.table ↔
      A.BindsQuietly s event := by
  cases event with
  | bindView view row =>
    simp only [ListAdapter.system, ListAdapter.bindView, ListAdapter.setChecked,
      ListAdapter.BindsQuietly]
    by_cases hsame : (s.views view).isChecked = (A.enabled row.columns == 1)
    · simp [hsame]
    · rw [if_neg hsame, or_iff_right hsame]
      cases hlistener : (s.views view).listener with
      | none => simp
      | some id =>
        simp only [Option.mem_def, Option.some_inj, forall_eq']
        exact enabledColumn_onCheckedChanged_iff A id (A.enabled row.columns == 1) s.table
  | changeCursor selection => simp [ListAdapter.system, ListAdapter.BindsQuietly]

end Adapter

/-- Showing the list never edits the column. -/
def ListAdapter.LeavesEnabled {Columns : Type u} (A : ListAdapter Columns) : Prop :=
  ∀ screen events, (A.system screen).Admissible (fun _ _ ↦ True) screen events →
    A.enabledColumn ((A.system screen).run screen events).table = A.enabledColumn screen.table

/-- Nor is it edited in between. -/
def ListAdapter.LeavesEnabledAlong {Columns : Type u} (A : ListAdapter Columns)
    (screen : ListScreen Columns) (events : List (ListEvent Columns)) : Prop :=
  ∀ n, A.enabledColumn ((A.system screen).run screen (events.take n)).table =
    A.enabledColumn screen.table

/-- The lists of an adapter do not edit their table along a run if and only if every view that is
bound shows the state of its new row already, or had a row that has this state. -/
theorem list_leaves_enabled_iff {Columns : Type u} (A : ListAdapter Columns)
    (screen : ListScreen Columns) (events : List (ListEvent Columns))
    (hrun : (A.system screen).Admissible (fun _ _ ↦ True) screen events) :
    A.LeavesEnabledAlong screen events ↔
      (A.system screen).Admissible A.BindsQuietly screen events :=
  ((A.system screen).admissible_iff_unchanged (fun s ↦ A.enabledColumn s.table)
    (fun s event _ ↦ enabledColumn_next_iff A screen s event) hrun).symm

/-! ## Two rows in one view -/

/-- A screen with an enabled and a disabled row and a pool of new views. -/
def twoRows {Columns : Type u} (on off : Columns) : ListScreen Columns where
  table := (Table.empty.insert on).insert off
  cursor := ((Table.empty.insert on).insert off).rows
  views _ := newView

theorem not_leavesEnabled {Columns : Type u} (A : ListAdapter Columns) (on off : Columns)
    (hon : A.enabled on = 1) (hoff : A.enabled off = 0) : ¬ A.LeavesEnabled := by
  intro h
  -- the view of the enabled row is bound to the disabled one
  have hcolumn := h (twoRows on off) [.bindView 0 ⟨1, on⟩, .bindView 0 ⟨2, off⟩]
    ⟨by simp [ListAdapter.system, twoRows, Table.empty], trivial,
      by simp [ListAdapter.system, twoRows, Table.empty, Table.insert], trivial, trivial⟩
  simp [ListAdapter.system, ListAdapter.bindView, ListAdapter.setChecked,
    ListAdapter.onCheckedChanged, setOnCheckedChangeListener, ListAdapter.enabledColumn, twoRows,
    newView, Table.empty, hon, hoff, A.enabled_setEnabled] at hcolumn

def enabledService : Columns := { defaultColumns with name := "blog", port := 8080 }

def disabledService : Columns := { defaultColumns with name := "wiki", port := 9090, enabled := 0 }

def enabledCookie : ClientCookie where
  domain := some "abcdefghijklmnop.onion"
  authCookieValue := some "c1"

def disabledCookie : ClientCookie where
  domain := some "ponmlkjihgfedcba.onion"
  authCookieValue := some "c2"
  enabled := 0

/-- Each row is bound to a view of its own. -/
def ownViews : List (ListEvent ClientCookie) :=
  [.bindView 0 ⟨1, enabledCookie⟩, .bindView 1 ⟨2, disabledCookie⟩]

theorem list_leaves_enabled_ownViews :
    ClientCookiesAdapter.LeavesEnabledAlong (twoRows enabledCookie disabledCookie) ownViews :=
  (list_leaves_enabled_iff ClientCookiesAdapter (twoRows enabledCookie disabledCookie) ownViews
    (by decide)).mpr (by decide)

/-- In the lists of all four adapters a recycled view disables the row that it showed before. -/
theorem list_edits_recycledView :
    ¬ OnionV3ListAdapter.LeavesEnabled ∧ ¬ OnionListAdapter.LeavesEnabled ∧
      ¬ ClientCookiesAdapter.LeavesEnabled ∧ ¬ ClientAuthListAdapter.LeavesEnabled :=
  ⟨not_leavesEnabled _ enabledService disabledService rfl rfl,
    not_leavesEnabled _ enabledService disabledService rfl rfl,
    not_leavesEnabled _ enabledCookie disabledCookie rfl rfl,
    not_leavesEnabled _ { domain := some "a" } { domain := some "b", enabled := 0 } rfl rfl⟩

end Orbot.OnionService
