import Mathlib.Data.List.Basic

/-!
# Guarded transition systems and their runs

A system has one initial state, a guard that says when an action can occur and a function that
gives the state after it. Everything the environment chooses is part of the action, so a run is a
list of actions. `Admissible` carries an extra condition on the steps: a property that needs the
condition is stated of the runs all of whose steps meet it, and the condition `fun _ _ ↦ True`
gives every run of the system.
-/

namespace Orbot.Foundation

universe u v

/-- A deterministic transition system whose actions carry the choices of the environment. -/
structure System (State : Type u) (Action : Type v) where
  init : State
  enabled : State → Action → Prop
  next : State → Action → State

namespace System

variable {State : Type u} {Action : Type v}

/-- The state after a list of actions. -/
def run (M : System State Action) : State → List Action → State
  | state, [] => state
  | state, action :: rest => M.run (M.next state action) rest

/-- Every action is enabled where it occurs, and every step meets `ok`. -/
def Admissible (M : System State Action) (ok : State → Action → Prop) :
    State → List Action → Prop
  | _, [] => True
  | state, action :: rest =>
      M.enabled state action ∧ ok state action ∧ M.Admissible ok (M.next state action) rest

/-- The states that a run from the initial state reaches while its steps meet `ok`. -/
def ReachableBy (M : System State Action) (ok : State → Action → Prop) (state : State) : Prop :=
  ∃ actions, M.Admissible ok M.init actions ∧ M.run M.init actions = state

/-- The states that any run from the initial state reaches. -/
def Reachable (M : System State Action) (state : State) : Prop :=
  M.ReachableBy (fun _ _ ↦ True) state

variable (M : System State Action) {ok : State → Action → Prop}

instance decidableAdmissible [∀ state action, Decidable (M.enabled state action)]
    [∀ state action, Decidable (ok state action)] :
    ∀ state actions, Decidable (M.Admissible ok state actions)
  | _, [] => isTrue trivial
  | state, action :: rest =>
      have := decidableAdmissible (M.next state action) rest
      inferInstanceAs (Decidable (M.enabled state action ∧ ok state action ∧ _))

@[simp]
theorem run_nil (state : State) : M.run state [] = state := rfl

@[simp]
theorem run_cons (state : State) (action : Action) (rest : List Action) :
    M.run state (action :: rest) = M.run (M.next state action) rest := rfl

theorem run_append (state : State) (first second : List Action) :
    M.run state (first ++ second) = M.run (M.run state first) second := by
  induction first generalizing state with
  | nil => rfl
  | cons action rest ih => exact ih (M.next state action)

theorem admissible_append {state : State} {first second : List Action} :
    M.Admissible ok state (first ++ second) ↔
      M.Admissible ok state first ∧ M.Admissible ok (M.run state first) second := by
  induction first generalizing state with
  | nil => simp [Admissible]
  | cons action rest ih => simp [Admissible, ih, and_assoc]

/-- What every admissible step preserves holds at the end of every admissible run. -/
theorem invariant_run (Inv : State → Prop)
    (hstep : ∀ state action, Inv state → M.enabled state action → ok state action →
      Inv (M.next state action))
    {state : State} {actions : List Action} (hstate : Inv state)
    (hrun : M.Admissible ok state actions) : Inv (M.run state actions) := by
  induction actions generalizing state with
  | nil => exact hstate
  | cons action rest ih =>
    obtain ⟨henabled, hok, hrest⟩ := hrun
    exact ih (hstep state action hstate henabled hok) hrest

/-- What every step preserves, enabled or not, holds at the end of every list of actions. -/
theorem preserved_run (Inv : State → Prop)
    (hstep : ∀ state action, Inv state → Inv (M.next state action)) {state : State}
    (hstate : Inv state) (actions : List Action) : Inv (M.run state actions) := by
  induction actions generalizing state with
  | nil => exact hstate
  | cons action rest ih => exact ih (hstep state action hstate)

/-- When `ok` is exactly what makes a step keep an invariant and meet `Post`, the steps of a run all
meet `ok` if and only if the invariant holds in all of its states and `Post` at all of its steps. -/
theorem admissible_iff_steps (Inv : State → Prop) (Post : State → Action → Prop)
    (hstep : ∀ state action, Inv state → M.enabled state action →
      (Inv (M.next state action) ∧ Post state action ↔ ok state action))
    {state : State} {actions : List Action} (hstate : Inv state)
    (hrun : M.Admissible (fun _ _ ↦ True) state actions) :
    M.Admissible ok state actions ↔
      ∀ n, Inv (M.run state (actions.take n)) ∧
        ∀ action ∈ actions[n]?, Post (M.run state (actions.take n)) action := by
  induction actions generalizing state with
  | nil => simp [Admissible, hstate]
  | cons action rest ih =>
    obtain ⟨henabled, -, hrest⟩ := hrun
    have hnow := hstep state action hstate henabled
    rw [Admissible]
    constructor
    · rintro ⟨-, hok, hlater⟩ n
      obtain ⟨hnext, hpost⟩ := hnow.mpr hok
      cases n with
      | zero => exact ⟨hstate, fun _ hfirst ↦ Option.some_inj.mp hfirst ▸ hpost⟩
      | succ n => exact (ih hnext hrest).mp hlater n
    · intro hall
      have hnext : Inv (M.next state action) := (hall 1).1
      have hpost : Post state action := (hall 0).2 action rfl
      exact ⟨henabled, hnow.mp ⟨hnext, hpost⟩, (ih hnext hrest).mpr fun n ↦ hall (n + 1)⟩

/-- When `ok` is exactly what makes a step keep an invariant, the steps of a run all meet `ok` if
and only if the invariant holds in all of its states. -/
theorem admissible_iff_along (Inv : State → Prop)
    (hstep : ∀ state action, Inv state → M.enabled state action →
      (Inv (M.next state action) ↔ ok state action))
    {state : State} {actions : List Action} (hstate : Inv state)
    (hrun : M.Admissible (fun _ _ ↦ True) state actions) :
    M.Admissible ok state actions ↔ ∀ n, Inv (M.run state (actions.take n)) := by
  have hsteps (s : State) (action : Action) (hs : Inv s) (henabled : M.enabled s action) :
      Inv (M.next s action) ∧ True ↔ ok s action :=
    (and_iff_left trivial).trans (hstep s action hs henabled)
  simpa using M.admissible_iff_steps Inv (fun _ _ ↦ True) hsteps hstate hrun

/-- The steps of a run all meet `ok` if and only if an observation is the same in all of its
states, when `ok` is exactly what keeps the observation as it is. -/
theorem admissible_iff_unchanged {Observation : Type*} (observe : State → Observation)
    (hstep : ∀ state action, M.enabled state action →
      (observe (M.next state action) = observe state ↔ ok state action))
    {state : State} {actions : List Action}
    (hrun : M.Admissible (fun _ _ ↦ True) state actions) :
    M.Admissible ok state actions ↔
      ∀ n, observe (M.run state (actions.take n)) = observe state := by
  refine M.admissible_iff_along (fun s ↦ observe s = observe state) ?_ rfl hrun
  intro s action hs henabled
  rw [← hs]
  exact hstep s action henabled

/-- The invariant rule: an inductive invariant holds of every state reached. -/
theorem invariant_of_reachableBy (Inv : State → Prop) (hinit : Inv M.init)
    (hstep : ∀ state action, Inv state → M.enabled state action → ok state action →
      Inv (M.next state action))
    {state : State} (hreach : M.ReachableBy ok state) : Inv state := by
  obtain ⟨actions, hrun, rfl⟩ := hreach
  exact M.invariant_run Inv hstep hinit hrun

end System

end Orbot.Foundation
