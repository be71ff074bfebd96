import Mathlib.Data.List.Basic

/-!
# Prefix codes

A list of symbols is written by a code for each of them. When no code word begins another one, the
text determines the symbols. A special case is a text that ends before a delimiter.
-/

namespace Orbot.Foundation

variable {α β : Type*}

/-- No code word begins a text that begins with another one. -/
def IsPrefixCode (code : α → List β) (symbols : Set α) : Prop :=
  ∀ a ∈ symbols, ∀ b ∈ symbols, ∀ rest rest', code a ++ rest = code b ++ rest' → a = b

variable {code : α → List β} {symbols : Set α}

/-- The text of a list of symbols determines them. -/
theorem IsPrefixCode.flatMap_inj (h : IsPrefixCode code symbols)
    (hne : ∀ a ∈ symbols, code a ≠ []) {xs ys : List α} (hxs : ∀ x ∈ xs, x ∈ symbols)
    (hys : ∀ y ∈ ys, y ∈ symbols) (heq : xs.flatMap code = ys.flatMap code) : xs = ys := by
  induction xs generalizing ys with
  | nil =>
    cases ys with
    | nil => rfl
    | cons y ys =>
      rw [List.flatMap_nil, List.flatMap_cons] at heq
      exact absurd (List.append_eq_nil_iff.mp heq.symm).1 (hne y (hys y List.mem_cons_self))
  | cons x xs ih =>
    cases ys with
    | nil =>
      rw [List.flatMap_nil, List.flatMap_cons] at heq
      exact absurd (List.append_eq_nil_iff.mp heq).1 (hne x (hxs x List.mem_cons_self))
    | cons y ys =>
      rw [List.flatMap_cons, List.flatMap_cons] at heq
      obtain rfl := h x (hxs x List.mem_cons_self) y (hys y List.mem_cons_self) _ _ heq
      have hrest := ih (fun x hmem ↦ hxs x (List.mem_cons_of_mem _ hmem))
        (fun y hmem ↦ hys y (List.mem_cons_of_mem _ hmem)) (List.append_cancel_left heq)
      rw [hrest]

/-- What comes before the first delimiter, and what comes after it. -/
theorem append_cons_inj {a : α} {xs ys rest rest' : List α} (hxs : a ∉ xs) (hys : a ∉ ys) :
    xs ++ a :: rest = ys ++ a :: rest' ↔ xs = ys ∧ rest = rest' := by
  constructor
  · intro heq
    induction xs generalizing ys with
    | nil =>
      cases ys with
      | nil => exact ⟨rfl, (List.cons.inj heq).2⟩
      | cons y ys => exact absurd (by simp [(List.cons.inj heq).1]) hys
    | cons x xs ih =>
      cases ys with
      | nil => exact absurd (by simp [(List.cons.inj heq).1]) hxs
      | cons y ys =>
        obtain ⟨rfl, htail⟩ := List.cons.inj heq
        obtain ⟨rfl, rfl⟩ := ih (fun hmem ↦ hxs (List.mem_cons_of_mem _ hmem))
          (fun hmem ↦ hys (List.mem_cons_of_mem _ hmem)) htail
        exact ⟨rfl, rfl⟩
  · rintro ⟨rfl, rfl⟩
    rfl

end Orbot.Foundation
