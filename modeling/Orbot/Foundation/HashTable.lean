import Mathlib.Data.List.FinRange
import Mathlib.Data.List.InsertIdx
import Mathlib.Data.List.Nodup
import Mathlib.Logic.Function.Basic

/-!
# Hash tables with ordered chains

A hash selects the chain of a key, and a second hash orders the chain, so that a search can stop early.
Such a table is a finite map: what a search finds is the entry with the key, and insertions and
removals at the place of a search change this one entry.
-/

namespace Orbot

/-- An entry of a chain. -/
structure HashEnt (α : Type) where
  rhash : ℕ
  data : α

/-- The hash that selects the chain, and the one that orders it. -/
structure ChainHash (κ : Type) (n : ℕ) where
  bucket : κ → Fin n
  rhash : κ → ℕ

abbrev Buckets (α : Type) (n : ℕ) := Fin n → List (HashEnt α)

variable {α κ : Type} {n : ℕ}

/-- The place where the search for a hash ends, and what it finds. -/
def chainSearch (rhash : ℕ) (isKey : α → Bool) : List (HashEnt α) → ℕ × Option α
  | [] => (0, none)
  | he :: rest =>
      if he.rhash ≤ rhash then
        if he.rhash = rhash ∧ isKey he.data = true then (0, some he.data)
        else ((chainSearch rhash isKey rest).1 + 1, (chainSearch rhash isKey rest).2)
      else (0, none)

/-- The data of the chains, one chain after the other. -/
def Buckets.entries (t : Buckets α n) : List α :=
  (List.finRange n).flatMap fun i ↦ (t i).map HashEnt.data

def Buckets.insertAt (t : Buckets α n) (i : Fin n) (pos : ℕ) (he : HashEnt α) : Buckets α n :=
  Function.update t i ((t i).insertIdx pos he)

def Buckets.eraseAt (t : Buckets α n) (i : Fin n) (pos : ℕ) : Buckets α n :=
  Function.update t i ((t i).eraseIdx pos)

section Chains

variable {chain : List (HashEnt α)} {rhash : ℕ} {isKey : α → Bool}

/-- In an ordered chain a search passes the entries with smaller hashes, and those with the same hash
and another key. -/
theorem chainSearch_spec (hsorted : chain.Pairwise fun he he' ↦ he.rhash ≤ he'.rhash) :
    ∃ before after, chain = before ++ after ∧ before.length = (chainSearch rhash isKey chain).1 ∧
      (∀ he ∈ before, he.rhash ≤ rhash ∧ ¬(he.rhash = rhash ∧ isKey he.data = true)) ∧
      ((∃ he rest, after = he :: rest ∧ he.rhash = rhash ∧ isKey he.data = true ∧
          (chainSearch rhash isKey chain).2 = some he.data) ∨
        (∀ he ∈ after, rhash < he.rhash) ∧ (chainSearch rhash isKey chain).2 = none) := by
  induction chain with
  | nil => exact ⟨[], [], rfl, rfl, by simp, .inr ⟨by simp, rfl⟩⟩
  | cons he rest ih =>
    obtain ⟨hfirst, hrest⟩ := List.pairwise_cons.mp hsorted
    rw [chainSearch]
    by_cases hle : he.rhash ≤ rhash
    · rw [if_pos hle]
      by_cases hfound : he.rhash = rhash ∧ isKey he.data = true
      · rw [if_pos hfound]
        exact ⟨[], he :: rest, rfl, rfl, by simp, .inl ⟨he, rest, rfl, hfound.1, hfound.2, rfl⟩⟩
      · rw [if_neg hfound]
        obtain ⟨before, after, hsplit, hlength, hpassed, hend⟩ := ih hrest
        refine ⟨he :: before, after, by rw [hsplit, List.cons_append], ?_, ?_, hend⟩
        · rw [List.length_cons, hlength]
        · intro he' hmem
          rcases List.mem_cons.mp hmem with rfl | hmem
          · exact ⟨hle, hfound⟩
          · exact hpassed he' hmem
    · rw [if_neg hle]
      refine ⟨[], he :: rest, rfl, rfl, by simp, .inr ⟨fun he' hmem ↦ ?_, rfl⟩⟩
      rcases List.mem_cons.mp hmem with rfl | hmem
      · exact Nat.lt_of_not_le hle
      · exact Nat.lt_of_lt_of_le (Nat.lt_of_not_le hle) (hfirst he' hmem)

theorem chainSearch_mem {a : α} (h : (chainSearch rhash isKey chain).2 = some a) :
    ∃ he ∈ chain, he.data = a := by
  induction chain with
  | nil => exact absurd h (by simp [chainSearch])
  | cons he rest ih =>
    rw [chainSearch] at h
    split at h
    next =>
      split at h
      next => exact ⟨he, List.mem_cons_self, Option.some.inj h⟩
      next =>
        obtain ⟨he', hmem, hdata⟩ := ih h
        exact ⟨he', List.mem_cons_of_mem he hmem, hdata⟩
    next => exact absurd h (by simp)

end Chains

section Tables

variable (h : ChainHash κ n) (key : α → κ)

/-- The chains are ordered, and every key is in its chain, once. -/
structure Buckets.WellFormed (t : Buckets α n) : Prop where
  sorted : ∀ i, (t i).Pairwise fun he he' ↦ he.rhash ≤ he'.rhash
  placed : ∀ i, ∀ he ∈ t i, h.bucket (key he.data) = i ∧ h.rhash (key he.data) = he.rhash
  nodup : ∀ i, ((t i).map fun he ↦ key he.data).Nodup

section Changes

variable {h key} {t : Buckets α n}

/-- A chain that is changed keeps the table well formed if it is well formed itself. -/
theorem Buckets.WellFormed.update (ht : t.WellFormed h key) {i : Fin n} {chain : List (HashEnt α)}
    (hsorted : chain.Pairwise fun he he' ↦ he.rhash ≤ he'.rhash)
    (hplaced : ∀ he ∈ chain, h.bucket (key he.data) = i ∧ h.rhash (key he.data) = he.rhash)
    (hnodup : (chain.map fun he ↦ key he.data).Nodup) :
    Buckets.WellFormed h key (Function.update t i chain) := by
  constructor
  · intro j
    by_cases hj : j = i
    · rw [hj, Function.update_self]
      exact hsorted
    · rw [Function.update_of_ne hj]
      exact ht.sorted j
  · intro j
    by_cases hj : j = i
    · rw [hj, Function.update_self]
      exact hplaced
    · rw [Function.update_of_ne hj]
      exact ht.placed j
  · intro j
    by_cases hj : j = i
    · rw [hj, Function.update_self]
      exact hnodup
    · rw [Function.update_of_ne hj]
      exact ht.nodup j

theorem Buckets.mem_entries {a : α} : a ∈ t.entries ↔ ∃ i, ∃ he ∈ t i, he.data = a := by
  simp [entries]

/-- No two entries have a key. -/
theorem Buckets.WellFormed.nodup_entries (ht : t.WellFormed h key) : (t.entries.map key).Nodup := by
  rw [entries, List.map_flatMap, List.nodup_flatMap]
  constructor
  · intro i _
    rw [List.map_map]
    exact ht.nodup i
  · refine (List.nodup_finRange n).imp fun {i j} hne k hi hj ↦ hne ?_
    simp only [List.map_map] at hi hj
    obtain ⟨he, hhe, rfl⟩ := List.mem_map.mp hi
    obtain ⟨he', hhe', heq⟩ := List.mem_map.mp hj
    calc
      i = h.bucket (key he.data) := (ht.placed i he hhe).1.symm
      _ = h.bucket (key he'.data) := (congrArg h.bucket heq).symm
      _ = j := (ht.placed j he' hhe').1

end Changes

variable [DecidableEq κ]

/-- The search for a key. -/
def Buckets.search (t : Buckets α n) (k : κ) : ℕ × Option α :=
  chainSearch (h.rhash k) (fun a ↦ decide (key a = k)) (t (h.bucket k))

variable {h key} {t : Buckets α n} {k : κ} {a : α}

/-- A search ends at the entry with the key, or where it belongs. -/
theorem Buckets.WellFormed.search_spec (ht : t.WellFormed h key) (k : κ) :
    ∃ before after, t (h.bucket k) = before ++ after ∧ before.length = (t.search h key k).1 ∧
      (∀ he ∈ before, he.rhash ≤ h.rhash k ∧ key he.data ≠ k) ∧
      ((∃ he rest, after = he :: rest ∧ he.rhash = h.rhash k ∧ key he.data = k ∧
          (t.search h key k).2 = some he.data) ∨
        (∀ he ∈ after, h.rhash k < he.rhash ∧ key he.data ≠ k) ∧ (t.search h key k).2 = none) := by
  obtain ⟨before, after, hsplit, hlength, hpassed, hend⟩ :=
    @chainSearch_spec α _ (h.rhash k) (fun a ↦ decide (key a = k)) (ht.sorted (h.bucket k))
  have hplaced := ht.placed (h.bucket k)
  rw [hsplit] at hplaced
  refine ⟨before, after, hsplit, hlength, fun he hmem ↦ ⟨(hpassed he hmem).1, fun heq ↦ ?_⟩, ?_⟩
  · refine (hpassed he hmem).2 ⟨?_, decide_eq_true heq⟩
    rw [← (hplaced he (List.mem_append_left _ hmem)).2, heq]
  · rcases hend with ⟨he, rest, hafter, hrhash, hkey, hfound⟩ | ⟨hgreater, hnone⟩
    · exact .inl ⟨he, rest, hafter, hrhash, of_decide_eq_true hkey, hfound⟩
    · refine .inr ⟨fun he hmem ↦ ⟨hgreater he hmem, fun heq ↦ ?_⟩, hnone⟩
      have hrhash := (hplaced he (List.mem_append_right _ hmem)).2
      rw [heq] at hrhash
      exact absurd (hgreater he hmem) (by rw [hrhash]; exact Nat.lt_irrefl _)

/-- A search finds the entries that the table has. -/
theorem Buckets.WellFormed.search_eq_some (ht : t.WellFormed h key) :
    (t.search h key k).2 = some a ↔ a ∈ t.entries ∧ key a = k := by
  obtain ⟨before, after, hsplit, -, hpassed, hend⟩ := ht.search_spec k
  constructor
  · intro hfound
    rcases hend with ⟨he, rest, hafter, -, hkey, hfound'⟩ | ⟨-, hnone⟩
    · obtain rfl := Option.some.inj (hfound'.symm.trans hfound)
      refine ⟨mem_entries.mpr ⟨h.bucket k, he, ?_, rfl⟩, hkey⟩
      rw [hsplit, hafter]
      simp
    · exact absurd (hnone.symm.trans hfound) (by simp)
  · rintro ⟨hmem, rfl⟩
    obtain ⟨i, he, hhe, rfl⟩ := mem_entries.mp hmem
    obtain rfl := (ht.placed i he hhe).1
    have hnodup := ht.nodup (h.bucket (key he.data))
    rw [hsplit] at hhe
    rcases List.mem_append.mp hhe with hbefore | hafter
    · exact absurd rfl (hpassed he hbefore).2
    · rcases hend with ⟨he', rest, rfl, -, hkey, hfound⟩ | ⟨hgreater, -⟩
      · rcases List.mem_cons.mp hafter with rfl | hrest
        · exact hfound
        · rw [hsplit, List.map_append, List.map_cons] at hnodup
          have hnot := (List.nodup_cons.mp (List.nodup_append.mp hnodup).2.1).1
          exact absurd (List.mem_map.mpr ⟨he, hrest, hkey.symm⟩) hnot
      · exact absurd rfl (hgreater he hafter).2

theorem Buckets.WellFormed.search_eq_none (ht : t.WellFormed h key) :
    (t.search h key k).2 = none ↔ ∀ a ∈ t.entries, key a ≠ k := by
  rw [Option.eq_none_iff_forall_ne_some]
  constructor
  · intro hnone a hmem hkey
    exact hnone a (ht.search_eq_some.mpr ⟨hmem, hkey⟩)
  · intro hnone a hfound
    obtain ⟨hmem, hkey⟩ := ht.search_eq_some.mp hfound
    exact hnone a hmem hkey

theorem insertIdx_length_append (before after : List α) (a : α) :
    (before ++ after).insertIdx before.length a = before ++ a :: after := by
  induction before with
  | nil => rfl
  | cons b before ih =>
    rw [List.cons_append, List.length_cons, List.insertIdx_succ_cons, ih, List.cons_append]

/-- Some entries more in one of the lists. -/
theorem perm_flatMap_update {ι : Type} [DecidableEq ι] {f g : ι → List α} {i : ι} {l : List ι}
    (more : List α) (hl : l.Nodup) (hi : i ∈ l) (hperm : (g i).Perm (more ++ f i))
    (hrest : ∀ j, j ≠ i → g j = f j) : (l.flatMap g).Perm (more ++ l.flatMap f) := by
  induction l with
  | nil => exact absurd hi (by simp)
  | cons j l ih =>
    obtain ⟨hnot, hl⟩ := List.nodup_cons.mp hl
    rw [List.flatMap_cons, List.flatMap_cons]
    by_cases hj : j = i
    · have hsame : l.flatMap g = l.flatMap f :=
        List.flatMap_congr fun j' hmem ↦ hrest j' fun heq ↦ hnot (hj ▸ heq ▸ hmem)
      rw [hsame, hj, ← List.append_assoc]
      exact hperm.append_right _
    · rw [hrest j hj]
      have hmem : i ∈ l := (List.mem_cons.mp hi).resolve_left fun heq ↦ hj heq.symm
      exact ((ih hl hmem).append_left _).trans (List.perm_append_comm_assoc _ _ _)

theorem Buckets.entries_update {i : Fin n} {chain : List (HashEnt α)}
    (hperm : (chain.map HashEnt.data).Perm (a :: (t i).map HashEnt.data)) :
    (Buckets.entries (Function.update t i chain)).Perm (a :: t.entries) := by
  refine perm_flatMap_update [a] (List.nodup_finRange n) (List.mem_finRange i) ?_ fun j hj ↦ ?_
  · rw [Function.update_self]
    exact hperm
  · rw [Function.update_of_ne hj]

/-- What a chain loses, the table loses. -/
theorem Buckets.entries_update_append {i : Fin n} {chain : List (HashEnt α)} {lost : List α}
    (hperm : ((t i).map HashEnt.data).Perm (lost ++ chain.map HashEnt.data)) :
    t.entries.Perm (lost ++ Buckets.entries (Function.update t i chain)) := by
  refine perm_flatMap_update lost (List.nodup_finRange n) (List.mem_finRange i) ?_ fun j hj ↦ ?_
  · rw [Function.update_self]
    exact hperm
  · rw [Function.update_of_ne hj]

/-- What is inserted where its key was not found is an entry more. -/
theorem Buckets.WellFormed.insertAt (ht : t.WellFormed h key)
    (hnone : (t.search h key (key a)).2 = none) :
    let t' := t.insertAt (h.bucket (key a)) (t.search h key (key a)).1 ⟨h.rhash (key a), a⟩
    t'.WellFormed h key ∧ t'.entries.Perm (a :: t.entries) := by
  obtain ⟨before, after, hsplit, hlength, hpassed, hend⟩ := ht.search_spec (key a)
  rcases hend with ⟨he, rest, -, -, -, hfound⟩ | ⟨hgreater, -⟩
  · exact absurd (hnone.symm.trans hfound) (by simp)
  have hinsert : (t (h.bucket (key a))).insertIdx (t.search h key (key a)).1 ⟨h.rhash (key a), a⟩ =
      before ++ ⟨h.rhash (key a), a⟩ :: after := by
    rw [hsplit, ← hlength, insertIdx_length_append]
  have hsorted := ht.sorted (h.bucket (key a))
  have hplaced := ht.placed (h.bucket (key a))
  have hnodup := ht.nodup (h.bucket (key a))
  rw [hsplit] at hsorted hplaced hnodup
  obtain ⟨hbefore, hafter, hbetween⟩ := List.pairwise_append.mp hsorted
  rw [List.map_append] at hnodup
  obtain ⟨hnodup₁, hnodup₂, hdisjoint⟩ := List.nodup_append.mp hnodup
  refine ⟨?_, ?_⟩
  · rw [Buckets.insertAt, hinsert]
    refine ht.update ?_ ?_ ?_
    · refine List.pairwise_append.mpr ⟨hbefore, List.pairwise_cons.mpr ⟨fun he hmem ↦ ?_, hafter⟩, ?_⟩
      · exact Nat.le_of_lt (hgreater he hmem).1
      · intro he hmem he' hmem'
        rcases List.mem_cons.mp hmem' with rfl | hmem'
        · exact (hpassed he hmem).1
        · exact hbetween he hmem he' hmem'
    · intro he hmem
      rcases List.mem_append.mp hmem with hmem | hmem
      · exact hplaced he (List.mem_append_left _ hmem)
      · rcases List.mem_cons.mp hmem with rfl | hmem
        · exact ⟨rfl, rfl⟩
        · exact hplaced he (List.mem_append_right _ hmem)
    · rw [List.map_append, List.map_cons, List.nodup_middle, List.nodup_cons, List.mem_append]
      refine ⟨?_, hnodup⟩
      rintro (hmem | hmem)
      · obtain ⟨he, hhe, heq⟩ := List.mem_map.mp hmem
        exact (hpassed he hhe).2 heq
      · obtain ⟨he, hhe, heq⟩ := List.mem_map.mp hmem
        exact (hgreater he hhe).2 heq
  · refine entries_update ?_
    rw [hinsert, hsplit, List.map_append, List.map_cons, List.map_append]
    exact List.perm_middle

/-- What is erased where a key was found is the entry with the key. -/
theorem Buckets.WellFormed.eraseAt (ht : t.WellFormed h key)
    (hfound : (t.search h key k).2 = some a) :
    let t' := t.eraseAt (h.bucket k) (t.search h key k).1
    ((t (h.bucket k))[(t.search h key k).1]?).map HashEnt.data = some a ∧
      t'.WellFormed h key ∧ t.entries.Perm (a :: t'.entries) := by
  obtain ⟨before, after, hsplit, hlength, hpassed, hend⟩ := ht.search_spec k
  rcases hend with ⟨he, rest, rfl, hrhash, hkey, hfound'⟩ | ⟨-, hnone⟩
  swap
  · exact absurd (hnone.symm.trans hfound) (by simp)
  obtain rfl := Option.some.inj (hfound'.symm.trans hfound)
  have herase : (t (h.bucket k)).eraseIdx (t.search h key k).1 = before ++ rest := by
    rw [hsplit, ← hlength, List.eraseIdx_append_of_length_le (Nat.le_refl _), Nat.sub_self]
    rfl
  have hsub : (before ++ rest).Sublist (t (h.bucket k)) := by
    rw [hsplit]
    exact List.Sublist.append_left (List.sublist_cons_self _ _) _
  refine ⟨?_, ?_, ?_⟩
  · rw [hsplit, ← hlength]
    simp
  · rw [Buckets.eraseAt, herase]
    exact ht.update ((ht.sorted _).sublist hsub)
      (fun he hmem ↦ ht.placed _ he (hsub.subset hmem)) ((ht.nodup _).sublist (hsub.map _))
  · have hback : Function.update (t.eraseAt (h.bucket k) (t.search h key k).1) (h.bucket k)
        (t (h.bucket k)) = t := by
      rw [Buckets.eraseAt, Function.update_idem, Function.update_eq_self]
    have hperm := @entries_update α n (t.eraseAt (h.bucket k) (t.search h key k).1) he.data
      (h.bucket k) (t (h.bucket k)) ?_
    · rwa [hback] at hperm
    · rw [Buckets.eraseAt, Function.update_self, herase, hsplit, List.map_append, List.map_cons,
        List.map_append]
      exact List.perm_middle

/-- A change of the data with a key. -/
def Buckets.modify (key : α → κ) (t : Buckets α n) (k : κ) (f : α → α) : Buckets α n := fun i ↦
  (t i).map fun he ↦ if key he.data = k then ⟨he.rhash, f he.data⟩ else he

/-- A change that keeps the key changes this one entry. -/
theorem Buckets.WellFormed.modify (ht : t.WellFormed h key) {f : α → α}
    (hkey : ∀ a, key a = k → key (f a) = k) :
    (Buckets.modify key t k f).WellFormed h key ∧ (Buckets.modify key t k f).entries =
      t.entries.map fun a ↦ if key a = k then f a else a := by
  have hkeys (he : HashEnt α) :
      key (if key he.data = k then (⟨he.rhash, f he.data⟩ : HashEnt α) else he).data =
        key he.data := by
    by_cases hk : key he.data = k
    · rw [if_pos hk]
      exact (hkey _ hk).trans hk.symm
    · rw [if_neg hk]
  have hrhash (he : HashEnt α) :
      (if key he.data = k then (⟨he.rhash, f he.data⟩ : HashEnt α) else he).rhash = he.rhash := by
    by_cases hk : key he.data = k
    · rw [if_pos hk]
    · rw [if_neg hk]
  refine ⟨⟨fun i ↦ ?_, fun i he hmem ↦ ?_, fun i ↦ ?_⟩, ?_⟩
  · refine List.pairwise_map.mpr ((ht.sorted i).imp fun {he he'} hle ↦ ?_)
    rw [hrhash, hrhash]
    exact hle
  · obtain ⟨he', hmem', rfl⟩ := List.mem_map.mp hmem
    rw [hkeys, hrhash]
    exact ht.placed i he' hmem'
  · have hsame : ((Buckets.modify key t k f i).map fun he ↦ key he.data) =
        (t i).map fun he ↦ key he.data := by
      rw [Buckets.modify, List.map_map]
      exact List.map_congr_left fun he _ ↦ hkeys he
    rw [hsame]
    exact ht.nodup i
  · rw [Buckets.entries, Buckets.entries, List.map_flatMap]
    refine List.flatMap_congr fun i _ ↦ ?_
    rw [Buckets.modify, List.map_map, List.map_map]
    refine List.map_congr_left fun he _ ↦ ?_
    by_cases hk : key he.data = k
    · simp [hk]
    · simp [hk]

end Tables

end Orbot
