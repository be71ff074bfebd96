import Mathlib.Data.List.Basic

/-!
# Folds of partial steps

A fold whose steps can fail does not fail if an invariant makes every step possible. What a step does
for its own element holds at the end if the later steps keep it.
-/

namespace Orbot.Foundation

universe u v

variable {α : Type u} {β : Type v} {f : β → α → Option β}

theorem exists_foldlM_each {I : β → Prop} {Q : α → β → Prop} {xs : List α} {s : β} (hs : I s)
    (hstep : ∀ x ∈ xs, ∀ s, I s →
      ∃ s', f s x = some s' ∧ I s' ∧ Q x s' ∧ ∀ y ∈ xs, Q y s → Q y s') :
    ∃ s', xs.foldlM f s = some s' ∧ I s' ∧ ∀ x ∈ xs, Q x s' := by
  induction xs generalizing I s with
  | nil => exact ⟨s, rfl, hs, by simp⟩
  | cons x xs ih =>
    obtain ⟨next, hnext, hinv, hfirst, -⟩ := hstep x List.mem_cons_self s hs
    have htail : ∀ y ∈ xs, ∀ s, I s ∧ Q x s →
        ∃ s', f s y = some s' ∧ (I s' ∧ Q x s') ∧ Q y s' ∧ ∀ z ∈ xs, Q z s → Q z s' := by
      intro y hy s hs
      obtain ⟨s', hs', hinv, hown, hkeep⟩ := hstep y (List.mem_cons_of_mem _ hy) s hs.1
      exact ⟨s', hs', ⟨hinv, hkeep x List.mem_cons_self hs.2⟩, hown,
        fun z hz ↦ hkeep z (List.mem_cons_of_mem _ hz)⟩
    obtain ⟨last, hlast, ⟨hinv', hfirst'⟩, hrest⟩ := ih ⟨hinv, hfirst⟩ htail
    refine ⟨last, ?_, hinv', List.forall_mem_cons.mpr ⟨hfirst', hrest⟩⟩
    rw [List.foldlM_cons, hnext]
    exact hlast

/-- A fold with an invariant does not fail, and keeps it. -/
theorem exists_foldlM {I : β → Prop} {xs : List α} {s : β} (hs : I s)
    (hstep : ∀ x ∈ xs, ∀ s, I s → ∃ s', f s x = some s' ∧ I s') :
    ∃ s', xs.foldlM f s = some s' ∧ I s' := by
  obtain ⟨s', hs', hinv, -⟩ := exists_foldlM_each (Q := fun _ _ ↦ True) hs fun x hx s hs ↦ by
    obtain ⟨s', hs', hinv⟩ := hstep x hx s hs
    exact ⟨s', hs', hinv, trivial, fun _ _ _ ↦ trivial⟩
  exact ⟨s', hs', hinv⟩

end Orbot.Foundation
