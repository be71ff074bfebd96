import Mathlib.Data.List.Sort
import Mathlib.Order.Lattice
import Mathlib.Tactic.Push

/-!
# Searching a sorted array

`Arrays.binarySearch` halves the range of positions that can hold the key. On a sorted array the
result is not negative if and only if the array has the key.
-/

namespace Orbot.Foundation

universe u

variable {α : Type u} [LinearOrder α]

/-- The loop on the positions from `low` up to `high`, which is not included; the first argument
bounds the number of rounds. -/
def binarySearchFrom (sorted : List α) (key : α) : ℕ → ℕ → ℕ → ℤ
  | 0, low, _ => -(low + 1)
  | rounds + 1, low, high =>
      if low < high then
        let mid := (low + (high - 1)) / 2
        match sorted[mid]? with
        | some midVal =>
            if midVal < key then binarySearchFrom sorted key rounds (mid + 1) high
            else if key < midVal then binarySearchFrom sorted key rounds low mid
            else mid
        | none => -(low + 1)
      else -(low + 1)

/-- `Arrays.binarySearch`: the position of the key, or a negative number. -/
def binarySearch (sorted : List α) (key : α) : ℤ :=
  binarySearchFrom sorted key sorted.length 0 sorted.length

/-- The key can only be at the positions from `low` up to `high`. -/
def Narrowed (sorted : List α) (key : α) (low high : ℕ) : Prop :=
  ∀ (position : ℕ) (h : position < sorted.length),
    (position < low → sorted[position] < key) ∧ (high ≤ position → key < sorted[position])

/-- When no position is left the key is missing. -/
theorem Narrowed.not_mem {sorted : List α} {key : α} {low high : ℕ}
    (h : Narrowed sorted key low high) (hempty : high ≤ low) : key ∉ sorted := by
  intro hmem
  obtain ⟨position, hposition, rfl⟩ := List.mem_iff_getElem.mp hmem
  obtain ⟨hbelow, habove⟩ := h position hposition
  rcases lt_or_ge position low with hlow | hlow
  · exact lt_irrefl _ (hbelow hlow)
  · exact lt_irrefl _ (habove (hempty.trans hlow))

theorem getElem_le_of_sorted {sorted : List α} (hsorted : sorted.Pairwise (· ≤ ·))
    {first second : ℕ} (hle : first ≤ second) (h : second < sorted.length) :
    sorted[first] ≤ sorted[second] := by
  rcases hle.eq_or_lt with rfl | hlt
  · exact le_rfl
  · exact List.pairwise_iff_getElem.mp hsorted first second (hlt.trans h) h hlt

/-- A round that finds a smaller value leaves the positions after it. -/
theorem Narrowed.raise {sorted : List α} {key : α} {low high mid : ℕ}
    (h : Narrowed sorted key low high) (hsorted : sorted.Pairwise (· ≤ ·))
    (hmid : mid < sorted.length) (hless : sorted[mid] < key) :
    Narrowed sorted key (mid + 1) high := by
  refine fun position hposition ↦ ⟨fun hbelow ↦ ?_, (h position hposition).2⟩
  exact (getElem_le_of_sorted hsorted (Nat.lt_succ_iff.mp hbelow) hmid).trans_lt hless

/-- A round that finds a greater value leaves the positions before it. -/
theorem Narrowed.lower {sorted : List α} {key : α} {low high mid : ℕ}
    (h : Narrowed sorted key low high) (hsorted : sorted.Pairwise (· ≤ ·))
    (hmid : mid < sorted.length) (hgreater : key < sorted[mid]) :
    Narrowed sorted key low mid := by
  refine fun position hposition ↦ ⟨(h position hposition).1, fun habove ↦ ?_⟩
  exact hgreater.trans_le (getElem_le_of_sorted hsorted habove hposition)

/-- With a round for each position the loop decides whether the key is there. -/
theorem binarySearchFrom_nonneg_iff {sorted : List α} (hsorted : sorted.Pairwise (· ≤ ·))
    {key : α} (rounds low high : ℕ) (hrounds : high ≤ low + rounds)
    (hhigh : high ≤ sorted.length) (h : Narrowed sorted key low high) :
    0 ≤ binarySearchFrom sorted key rounds low high ↔ key ∈ sorted := by
  induction rounds generalizing low high with
  | zero =>
    rw [binarySearchFrom]
    refine iff_of_false ?_ (h.not_mem (by omega))
    omega
  | succ rounds ih =>
    rw [binarySearchFrom]
    by_cases hleft : low < high
    · have hmid : (low + (high - 1)) / 2 < sorted.length := by omega
      rw [if_pos hleft]
      dsimp only
      rw [List.getElem?_eq_getElem hmid]
      dsimp only
      rcases lt_trichotomy sorted[(low + (high - 1)) / 2] key with hless | hfound | hgreater
      · rw [if_pos hless]
        exact ih _ _ (by omega) hhigh (h.raise hsorted hmid hless)
      · rw [if_neg (by simp [hfound]), if_neg (by simp [hfound])]
        exact iff_of_true (by omega) (hfound ▸ List.getElem_mem hmid)
      · rw [if_neg hgreater.asymm, if_pos hgreater]
        exact ih _ _ (by omega) (by omega) (h.lower hsorted hmid hgreater)
    · rw [if_neg hleft]
      refine iff_of_false ?_ (h.not_mem (by omega))
      omega

theorem binarySearch_nonneg_iff {sorted : List α} (hsorted : sorted.Pairwise (· ≤ ·)) (key : α) :
    0 ≤ binarySearch sorted key ↔ key ∈ sorted := by
  refine binarySearchFrom_nonneg_iff hsorted _ _ _ (by omega) le_rfl fun position hposition ↦ ?_
  exact ⟨fun h ↦ absurd h (Nat.not_lt_zero position), fun h ↦ absurd hposition (by omega)⟩

/-- Sorting first makes the search decide membership. -/
theorem binarySearch_insertionSort_nonneg_iff (elements : List α) (key : α) :
    0 ≤ binarySearch (elements.insertionSort (· ≤ ·)) key ↔ key ∈ elements := by
  rw [binarySearch_nonneg_iff (List.pairwise_insertionSort (· ≤ ·) elements),
    List.mem_insertionSort]

end Orbot.Foundation
