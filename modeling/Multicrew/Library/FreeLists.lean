import Mathlib.Data.List.Nodup
import Mathlib.Logic.Function.Basic

/-!
# Free lists with keys

Idle items wait in a list for their key; the one waiting longest is taken first, and an item that
becomes idle is put behind the others. What is idle under which key is a relation of the items'
own state, so the lists being right is an invariant that taking and putting keep.
-/

namespace Multicrew.Library

variable {κ ι : Type*}

/-- The lists hold exactly what is idle under each key, in the order it became idle. -/
structure FreeLists (idle : κ → ι → Prop) (since : ι → ℕ) (free : κ → List ι) : Prop where
  mem_iff : ∀ k i, i ∈ free k ↔ idle k i
  sorted : ∀ k, (free k).Pairwise fun i j => since i < since j

namespace FreeLists

variable {idle idle' : κ → ι → Prop} {since : ι → ℕ} {free : κ → List ι} {k : κ} {i : ι}
  {rest : List ι}

/-- Nothing is idle, nothing waits. -/
theorem empty (h : ∀ k i, ¬ idle k i) (since : ι → ℕ) : FreeLists idle since fun _ => [] where
  mem_iff k i := iff_of_false List.not_mem_nil (h k i)
  sorted _ := List.Pairwise.nil

/-- No item waits twice. -/
theorem nodup (h : FreeLists idle since free) (k : κ) : (free k).Nodup := by
  refine (h.sorted k).imp ?_
  rintro i j hlt rfl
  exact Nat.lt_irrefl _ hlt

/-- An idle item waits exactly once under its key. -/
theorem count_eq_one [DecidableEq ι] (h : FreeLists idle since free) (hi : idle k i) :
    (free k).count i = 1 :=
  List.count_eq_one_of_mem (h.nodup k) ((h.mem_iff k i).mpr hi)

/-- The first item of a list is idle, and longer than every other one of its key. -/
theorem oldest (h : FreeLists idle since free) (hk : free k = i :: rest) :
    idle k i ∧ ∀ j, idle k j → j ≠ i → since i < since j := by
  refine ⟨(h.mem_iff k i).mp (hk ▸ List.mem_cons_self), fun j hj hne => ?_⟩
  have hsorted := h.sorted k
  rw [hk, List.pairwise_cons] at hsorted
  have hmem := (h.mem_iff k j).mpr hj
  rw [hk] at hmem
  exact hsorted.1 j ((List.mem_cons.mp hmem).resolve_left hne)

/-- Nothing is idle under a key whose list is empty. -/
theorem none_idle (h : FreeLists idle since free) (hk : free k = []) (j : ι) : ¬ idle k j := by
  rw [← h.mem_iff, hk]
  exact List.not_mem_nil

/-- Taking the first item of a list. -/
theorem take [DecidableEq κ] (h : FreeLists idle since free) (hk : free k = i :: rest)
    (hidle : ∀ k' j, idle' k' j ↔ idle k' j ∧ j ≠ i) (hone : ∀ k', idle k' i → k' = k) :
    FreeLists idle' since (Function.update free k rest) where
  mem_iff k' j := by
    rw [hidle, ← h.mem_iff]
    by_cases hkey : k' = k
    · subst hkey
      have hnodup := h.nodup k'
      rw [hk, List.nodup_cons] at hnodup
      rw [Function.update_self, hk, List.mem_cons]
      constructor
      · intro hj
        exact ⟨.inr hj, fun heq => hnodup.1 (heq ▸ hj)⟩
      · rintro ⟨hj, hne⟩
        exact hj.resolve_left hne
    · rw [Function.update_of_ne hkey]
      refine (and_iff_left_of_imp ?_).symm
      rintro hj rfl
      exact hkey (hone k' ((h.mem_iff k' j).mp hj))
  sorted k' := by
    by_cases hkey : k' = k
    · subst hkey
      have hsorted := h.sorted k'
      rw [hk, List.pairwise_cons] at hsorted
      rw [Function.update_self]
      exact hsorted.2
    · rw [Function.update_of_ne hkey]
      exact h.sorted k'

/-- Putting an item behind those that became idle before it. -/
theorem put [DecidableEq κ] {since' : ι → ℕ} (h : FreeLists idle since free)
    (hidle : ∀ k' j, idle' k' j ↔ idle k' j ∨ k' = k ∧ j = i)
    (hsame : ∀ k' j, idle k' j → since' j = since j)
    (hnow : ∀ k' j, idle k' j → since j < since' i) :
    FreeLists idle' since' (Function.update free k (free k ++ [i])) where
  mem_iff k' j := by
    rw [hidle, ← h.mem_iff]
    by_cases hkey : k' = k
    · subst hkey
      rw [Function.update_self, List.mem_append, List.mem_singleton]
      exact or_congr_right (and_iff_right rfl).symm
    · rw [Function.update_of_ne hkey]
      exact (or_iff_left fun hboth => hkey hboth.1).symm
  sorted k' := by
    have hold : (free k').Pairwise fun i j => since' i < since' j := by
      refine (h.sorted k').imp_of_mem fun ha hb hlt => ?_
      rwa [hsame k' _ ((h.mem_iff k' _).mp ha), hsame k' _ ((h.mem_iff k' _).mp hb)]
    by_cases hkey : k' = k
    · subst hkey
      rw [Function.update_self, List.pairwise_append]
      refine ⟨hold, List.pairwise_singleton _ _, fun a ha b hb => ?_⟩
      have hidle := (h.mem_iff k' a).mp ha
      rw [List.mem_singleton.mp hb, hsame k' a hidle]
      exact hnow k' a hidle
    · rw [Function.update_of_ne hkey]
      exact hold

/-- A change that leaves what is idle, and since when, as it is. -/
theorem congr {since' : ι → ℕ} (h : FreeLists idle since free)
    (hidle : ∀ k j, idle' k j ↔ idle k j) (hsame : ∀ k j, idle k j → since' j = since j) :
    FreeLists idle' since' free where
  mem_iff k j := (h.mem_iff k j).trans (hidle k j).symm
  sorted k := (h.sorted k).imp_of_mem fun ha hb hlt => by
    rwa [hsame k _ ((h.mem_iff k _).mp ha), hsame k _ ((h.mem_iff k _).mp hb)]

end FreeLists

end Multicrew.Library
