import Mathlib.Algebra.Group.Int.Defs
import Mathlib.Algebra.Group.Nat.Defs
import Mathlib.Data.List.Sort

/-!
# Merge sort of linked lists

Sorted runs of doubling lengths are kept in slots, as a binary counter keeps its digits: a new element
is merged with the runs in the filled slots before the first free one. The runs are merged in the end.
The sort is stable.
-/

namespace Orbot

variable {α : Type} (value : α → ℤ)

/-- The earlier list comes first where the values are the same. -/
def listmerge : List α → List α → List α
  | [], q => q
  | p, [] => p
  | a :: p, b :: q =>
      if value a ≤ value b then a :: listmerge p (b :: q) else b :: listmerge (a :: p) q
termination_by p q => p.length + q.length

/-- An element, or the merged run of the slots before, is put into the first free slot. -/
def carryInto (carry : List α) : List (Option (List α)) → List (Option (List α))
  | [] => [some carry]
  | none :: slots => some carry :: slots
  | some run :: slots => none :: carryInto (listmerge value run carry) slots

/-- The runs of the slots are merged, later slots before earlier ones. -/
def mergeSlots (carry : List α) : List (Option (List α)) → List α
  | [] => carry
  | none :: slots => mergeSlots carry slots
  | some run :: slots => mergeSlots (listmerge value run carry) slots

/-- The sort with a number of slots, if they suffice. -/
def slotSort (slotCount : ℕ) (l : List α) : Option (List α) :=
  let slots := l.foldl (fun slots a ↦ carryInto value [a] slots) []
  if slots.length ≤ slotCount then some (mergeSlots value [] slots) else none

variable {value} {l l' p q carry : List α} {slots : List (Option (List α))}

/-- The elements with a value are the same ones in the same order. -/
def StableEq (value : α → ℤ) (l l' : List α) : Prop :=
  ∀ v, l.filter (fun a ↦ value a = v) = l'.filter fun a ↦ value a = v

theorem StableEq.append {r r' : List α} (h : StableEq value l l') (h' : StableEq value r r') :
    StableEq value (l ++ r) (l' ++ r') := by
  intro v
  rw [List.filter_append, List.filter_append, h v, h' v]

theorem StableEq.perm (h : StableEq value l l') : l.Perm l' := by
  classical
  refine List.perm_iff_count.mpr fun a ↦ ?_
  have hcount (l : List α) :
      (l.filter fun b ↦ value b = value a).count a = l.count a := by
    rw [List.count_filter]
    exact decide_eq_true rfl
  rw [← hcount l, ← hcount l', h]

/-- In the order of the values. -/
def SortedBy (value : α → ℤ) (l : List α) : Prop := l.Pairwise fun a b ↦ value a ≤ value b

theorem listmerge_stableEq (hp : SortedBy value p) (hq : SortedBy value q) :
    StableEq value (listmerge value p q) (p ++ q) := by
  fun_induction listmerge value p q with
  | case1 q => exact fun v ↦ rfl
  | case2 p => exact fun v ↦ by rw [List.append_nil]
  | case3 a p b q hle ih =>
    obtain ⟨-, hp⟩ := List.pairwise_cons.mp hp
    intro v
    rw [List.cons_append, List.filter_cons, List.filter_cons, ih hp hq v]
  | case4 a p b q hle ih =>
    obtain ⟨-, hq'⟩ := List.pairwise_cons.mp hq
    intro v
    have hmerged := ih hp hq' v
    by_cases hv : value b = v
    · -- all elements of the first list have greater values
      have hnone : (a :: p).filter (fun a ↦ value a = v) = [] := by
        refine List.filter_eq_nil_iff.mpr fun c hc heq ↦ ?_
        have hac : value a ≤ value c := by
          rcases List.mem_cons.mp hc with rfl | hc
          · exact le_rfl
          · exact (List.pairwise_cons.mp hp).1 c hc
        have := of_decide_eq_true heq
        omega
      have hcons (l : List α) : (b :: l).filter (fun a ↦ value a = v) =
          b :: l.filter fun a ↦ value a = v := List.filter_cons_of_pos (decide_eq_true hv)
      rw [hcons, hmerged, List.filter_append, List.filter_append, hnone, List.nil_append,
        List.nil_append, hcons]
    · have hcons (l : List α) : (b :: l).filter (fun a ↦ value a = v) =
          l.filter fun a ↦ value a = v := List.filter_cons_of_neg (by simpa using hv)
      rw [hcons, hmerged, List.filter_append, List.filter_append, hcons]

theorem sortedBy_listmerge (hp : SortedBy value p) (hq : SortedBy value q) :
    SortedBy value (listmerge value p q) := by
  fun_induction listmerge value p q with
  | case1 q => exact hq
  | case2 p => exact hp
  | case3 a p b q hle ih =>
    obtain ⟨hfirst, hp⟩ := List.pairwise_cons.mp hp
    refine List.pairwise_cons.mpr ⟨fun c hc ↦ ?_, ih hp hq⟩
    have hmem := (listmerge_stableEq hp hq).perm.mem_iff.mp hc
    rcases List.mem_append.mp hmem with hmem | hmem
    · exact hfirst c hmem
    · rcases List.mem_cons.mp hmem with rfl | hmem
      · exact hle
      · exact hle.trans ((List.pairwise_cons.mp hq).1 c hmem)
  | case4 a p b q hle ih =>
    obtain ⟨hfirst, hq'⟩ := List.pairwise_cons.mp hq
    refine List.pairwise_cons.mpr ⟨fun c hc ↦ ?_, ih hp hq'⟩
    have hmem := (listmerge_stableEq hp hq').perm.mem_iff.mp hc
    have hlt := lt_of_not_ge hle
    rcases List.mem_append.mp hmem with hmem | hmem
    · rcases List.mem_cons.mp hmem with rfl | hmem
      · exact hlt.le
      · exact hlt.le.trans ((List.pairwise_cons.mp hp).1 c hmem)
    · exact hfirst c hmem

/-- The elements of the slots, the earlier ones first. -/
def slotContents : List (Option (List α)) → List α
  | [] => []
  | none :: slots => slotContents slots
  | some run :: slots => slotContents slots ++ run

/-- The runs are sorted, and as long as a binary counter says; there is one in the last slot. -/
inductive Runs (value : α → ℤ) : ℕ → List (Option (List α)) → Prop where
  | nil (k : ℕ) : Runs value k []
  | empty {k : ℕ} {slots : List (Option (List α))} (hne : slots ≠ [])
      (h : Runs value (k + 1) slots) : Runs value k (none :: slots)
  | run {k : ℕ} {run : List α} {slots : List (Option (List α))} (hsorted : SortedBy value run)
      (hlength : run.length = 2 ^ k) (h : Runs value (k + 1) slots) :
      Runs value k (some run :: slots)

theorem carryInto_ne_nil (carry : List α) (slots : List (Option (List α))) :
    carryInto value carry slots ≠ [] := by
  cases slots with
  | nil => simp [carryInto]
  | cons slot slots => cases slot <;> simp [carryInto]

theorem Runs.carryInto {k : ℕ} (h : Runs value k slots) (hsorted : SortedBy value carry)
    (hlength : carry.length = 2 ^ k) : Runs value k (carryInto value carry slots) ∧
      StableEq value (slotContents (Orbot.carryInto value carry slots))
        (slotContents slots ++ carry) := by
  induction h generalizing carry with
  | nil k => exact ⟨.run hsorted hlength (.nil _), fun v ↦ rfl⟩
  | empty hne h => exact ⟨.run hsorted hlength h, fun v ↦ rfl⟩
  | @run k run slots hrun hrunLength h ih =>
    have hmerged := listmerge_stableEq hrun hsorted
    have hmergedLength : (listmerge value run carry).length = 2 ^ (k + 1) := by
      rw [hmerged.perm.length_eq, List.length_append, hrunLength, hlength, Nat.pow_succ]
      omega
    obtain ⟨hruns, hcontents⟩ := ih (sortedBy_listmerge hrun hsorted) hmergedLength
    refine ⟨.empty (carryInto_ne_nil _ _) hruns, fun v ↦ ?_⟩
    rw [Orbot.carryInto, slotContents, hcontents v, slotContents, List.append_assoc]
    exact StableEq.append (fun v ↦ rfl) hmerged v

theorem Runs.mergeSlots {k : ℕ} (h : Runs value k slots) (hsorted : SortedBy value carry) :
    SortedBy value (mergeSlots value carry slots) ∧
      StableEq value (Orbot.mergeSlots value carry slots) (slotContents slots ++ carry) := by
  induction h generalizing carry with
  | nil k => exact ⟨hsorted, fun v ↦ rfl⟩
  | empty hne h ih => exact ih hsorted
  | run hrun hlength h ih =>
    obtain ⟨hsorted', hcontents⟩ := ih (sortedBy_listmerge hrun hsorted)
    refine ⟨hsorted', fun v ↦ ?_⟩
    rw [Orbot.mergeSlots, hcontents v, slotContents, List.append_assoc]
    exact StableEq.append (fun v ↦ rfl) (listmerge_stableEq hrun hsorted) v

/-- The last slot has as many elements as the runs before it can have. -/
theorem Runs.length_le {k : ℕ} (h : Runs value k slots) (hne : slots ≠ []) :
    2 ^ (k + slots.length) ≤ 2 * (slotContents slots).length := by
  induction h with
  | nil k => exact absurd rfl hne
  | @empty k slots hne' h ih =>
    rw [List.length_cons, slotContents, ← Nat.add_assoc, Nat.add_right_comm]
    exact ih hne'
  | @run k run slots hrun hlength h ih =>
    rw [List.length_cons, slotContents, List.length_append, hlength]
    by_cases hslots : slots = []
    · rw [hslots, List.length_nil, Nat.zero_add, Nat.pow_succ]
      omega
    · have hle := ih hslots
      rw [← Nat.add_assoc, Nat.add_right_comm]
      omega

/-- Every list that the slots suffice for is sorted, and elements with the same value keep their
order. -/
theorem slotSort_spec {slotCount : ℕ} {l : List α} (hl : l.length < 2 ^ slotCount) :
    ∃ sorted, slotSort value slotCount l = some sorted ∧ SortedBy value sorted ∧
      StableEq value sorted l := by
  have hfold : ∀ (l : List α) {slots : List (Option (List α))}, Runs value 0 slots →
      Runs value 0 (l.foldl (fun slots a ↦ carryInto value [a] slots) slots) ∧
        StableEq value (slotContents (l.foldl (fun slots a ↦ carryInto value [a] slots) slots))
          (slotContents slots ++ l) := by
    intro l
    induction l with
    | nil => exact fun h ↦ ⟨h, fun v ↦ by rw [List.foldl_nil, List.append_nil]⟩
    | cons a l ih =>
      intro slots h
      have hsingle : SortedBy value [a] := List.pairwise_singleton _ _
      obtain ⟨hruns, hcontents⟩ := h.carryInto hsingle rfl
      obtain ⟨hruns', hcontents'⟩ := ih hruns
      refine ⟨hruns', fun v ↦ ?_⟩
      rw [List.foldl_cons, hcontents' v, List.append_cons]
      exact StableEq.append hcontents (fun v ↦ rfl) v
  obtain ⟨hruns, hcontents⟩ := hfold l (.nil 0)
  rw [slotContents, List.nil_append] at hcontents
  have hnil : SortedBy value [] := List.Pairwise.nil
  obtain ⟨hsorted, hmerged⟩ := hruns.mergeSlots hnil
  rw [List.append_nil] at hmerged
  refine ⟨_, if_pos ?_, hsorted, fun v ↦ (hmerged v).trans (hcontents v)⟩
  by_cases hne : l.foldl (fun slots a ↦ carryInto value [a] slots) [] = []
  · rw [hne]
    exact Nat.zero_le _
  · have hle := hruns.length_le hne
    rw [hcontents.perm.length_eq, Nat.zero_add] at hle
    have hpow := Nat.lt_of_le_of_lt hle (Nat.mul_lt_mul_of_pos_left hl Nat.two_pos)
    rw [← Nat.pow_succ'] at hpow
    exact Nat.le_of_lt_succ ((Nat.pow_lt_pow_iff_right Nat.one_lt_two).mp hpow)

end Orbot
