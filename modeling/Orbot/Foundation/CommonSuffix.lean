import Mathlib.Data.List.DropRight

/-!
# Common suffixes

The length of the longest common suffix of two lists, and the common suffixes of three of them.
-/

namespace Orbot.Foundation

variable {α : Type*} [DecidableEq α]

/-- The length of the longest common prefix. -/
def commonPrefixLength : List α → List α → ℕ
  | x :: xs, y :: ys => if x = y then commonPrefixLength xs ys + 1 else 0
  | _, _ => 0

/-- The length of the longest common suffix. -/
def commonSuffixLength (xs ys : List α) : ℕ := commonPrefixLength xs.reverse ys.reverse

variable {n : ℕ} {xs ys zs : List α}

theorem le_commonPrefixLength_iff :
    n ≤ commonPrefixLength xs ys ↔ n ≤ xs.length ∧ n ≤ ys.length ∧ xs.take n = ys.take n := by
  fun_induction commonPrefixLength xs ys generalizing n with
  | case1 x xs ys ih =>
    cases n with
    | zero => simp
    | succ n => simp [ih]
  | case2 x xs y ys hne =>
    cases n with
    | zero => simp
    | succ n => simp [hne]
  | case3 xs ys hnot =>
    cases n with
    | zero => simp
    | succ n =>
      cases xs with
      | nil => simp
      | cons x xs =>
        cases ys with
        | nil => simp
        | cons y ys => exact (hnot x xs y ys rfl rfl).elim

/-- A length is that of a common suffix if it is no longer than the longest one. -/
theorem le_commonSuffixLength_iff :
    n ≤ commonSuffixLength xs ys ↔ n ≤ xs.length ∧ n ≤ ys.length ∧ xs.rtake n = ys.rtake n := by
  rw [commonSuffixLength, le_commonPrefixLength_iff, List.length_reverse, List.length_reverse,
    List.rtake_eq_reverse_take_reverse, List.rtake_eq_reverse_take_reverse, List.reverse_inj]

theorem commonSuffixLength_spec (xs ys : List α) :
    commonSuffixLength xs ys ≤ xs.length ∧ commonSuffixLength xs ys ≤ ys.length ∧
      xs.rtake (commonSuffixLength xs ys) = ys.rtake (commonSuffixLength xs ys) :=
  le_commonSuffixLength_iff.mp le_rfl

/-- A shorter suffix of a common suffix. -/
theorem rtake_eq_of_le (h : n ≤ commonSuffixLength xs ys) : xs.rtake n = ys.rtake n :=
  (le_commonSuffixLength_iff.mp h).2.2

/-- What two lists share with a third one, they share with each other. -/
theorem le_commonSuffixLength_trans (h : n ≤ commonSuffixLength xs ys)
    (h' : n ≤ commonSuffixLength ys zs) : n ≤ commonSuffixLength xs zs := by
  obtain ⟨hx, -, hxy⟩ := le_commonSuffixLength_iff.mp h
  obtain ⟨-, hz, hyz⟩ := le_commonSuffixLength_iff.mp h'
  exact le_commonSuffixLength_iff.mpr ⟨hx, hz, hxy.trans hyz⟩

@[simp] theorem commonSuffixLength_nil_left (ys : List α) : commonSuffixLength [] ys = 0 := by
  simp [commonSuffixLength, commonPrefixLength]

@[simp] theorem commonSuffixLength_nil_right (xs : List α) : commonSuffixLength xs [] = 0 := by
  simp [commonSuffixLength, commonPrefixLength]

/-- The last elements decide whether there is a longer common suffix. -/
theorem commonSuffixLength_concat (xs ys : List α) (x y : α) :
    commonSuffixLength (xs ++ [x]) (ys ++ [y]) =
      if x = y then commonSuffixLength xs ys + 1 else 0 := by
  simp [commonSuffixLength, commonPrefixLength]

end Orbot.Foundation
