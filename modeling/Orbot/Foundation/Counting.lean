import Mathlib.Algebra.BigOperators.Group.Finset.Piecewise
import Mathlib.Data.Fintype.Card

/-!
# Counting the values of a family

How many members of a finite family of values have a property, and what changing one member does to
this number.
-/

namespace Orbot

/-- A sum over some values of a family, of which one is changed. -/
theorem sum_update_add {ι α M : Type} [DecidableEq ι] [AddCommMonoid M] {s : Finset ι} (w : α → M)
    (f : ι → α) {i : ι} (hi : i ∈ s) (x : α) :
    ∑ j ∈ s, w (Function.update f i x j) + w (f i) = ∑ j ∈ s, w (f j) + w x := by
  have hrest : ∑ j ∈ s.erase i, w (Function.update f i x j) = ∑ j ∈ s.erase i, w (f j) := by
    refine Finset.sum_congr rfl fun j hj ↦ ?_
    rw [Function.update_of_ne (Finset.ne_of_mem_erase hj)]
  rw [← Finset.sum_erase_add _ _ hi, hrest, ← Finset.sum_erase_add _ (fun j ↦ w (f j)) hi,
    Function.update_self]
  exact add_right_comm _ _ _

variable {τ α : Type} [Fintype τ] {f : τ → α}

/-- The number of members of `f` with the property `p`. -/
def countOf (p : α → Bool) (f : τ → α) : ℕ := (Finset.univ.filter fun t ↦ p (f t) = true).card

theorem countOf_eq_sum (p : α → Bool) (f : τ → α) : countOf p f = ∑ t, (p (f t)).toNat := by
  rw [countOf, Finset.card_filter]
  refine Finset.sum_congr rfl fun t _ ↦ ?_
  cases p (f t) <;> rfl

/-- Only the changed member is counted differently. -/
theorem countOf_update [DecidableEq τ] (p : α → Bool) (f : τ → α) (t : τ) (x : α) :
    countOf p (Function.update f t x) + (p (f t)).toNat = countOf p f + (p x).toNat := by
  rw [countOf_eq_sum, countOf_eq_sum]
  exact sum_update_add (fun x ↦ (p x).toNat) f (Finset.mem_univ t) x

theorem countOf_pos {p : α → Bool} : 0 < countOf p f ↔ ∃ t, p (f t) = true := by
  simp [countOf, Finset.card_pos, Finset.Nonempty]

/-- The members with a property that at most one has. -/
theorem eq_of_countOf_le_one {p : α → Bool} (h : countOf p f ≤ 1) {t u : τ} (ht : p (f t) = true)
    (hu : p (f u) = true) : t = u :=
  Finset.card_le_one.mp h t (by simpa using ht) u (by simpa using hu)

end Orbot
