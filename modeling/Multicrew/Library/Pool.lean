import Mathlib.Data.Multiset.AddSub
import Mathlib.Data.Multiset.MapFold
import Mathlib.Data.List.Perm.Basic

/-!
# Pools: lists from which any element may be taken

A pool keeps its elements in the order they were added; an element leaves by its position. The
part of the pool a function selects is followed through such a removal, as a list when nothing
selected stands before the element, and as a multiset in general.
-/

namespace Multicrew.Library

variable {α β : Type*} {l : List α} {i : ℕ} {a : α}

/-- Removing one position keeps every other element. -/
theorem mem_eraseIdx_of_mem (h : l[i]? = some a) {b : α} (hb : b ∈ l) :
    b = a ∨ b ∈ l.eraseIdx i := by
  obtain ⟨hi, rfl⟩ := List.getElem?_eq_some_iff.mp h
  exact List.mem_cons.mp ((List.getElem_cons_eraseIdx_perm hi).mem_iff.mpr hb)

/-- The selected part loses exactly what was selected of the removed element. -/
theorem coe_filterMap_eraseIdx (f : α → Option β) (h : l[i]? = some a) :
    (l.filterMap f : Multiset β) =
      ((f a).toList : Multiset β) + ((l.eraseIdx i).filterMap f : Multiset β) := by
  obtain ⟨hi, rfl⟩ := List.getElem?_eq_some_iff.mp h
  have hperm := (List.getElem_cons_eraseIdx_perm hi).symm.filterMap f
  rw [Multiset.coe_eq_coe.mpr hperm, List.filterMap_cons]
  cases f l[i] <;> simp

/-- A pool split at the position of one of its elements. -/
theorem eq_take_cons_drop (h : l[i]? = some a) :
    l = l.take i ++ a :: l.drop (i + 1) ∧ l.eraseIdx i = l.take i ++ l.drop (i + 1) := by
  obtain ⟨hi, rfl⟩ := List.getElem?_eq_some_iff.mp h
  refine ⟨?_, List.eraseIdx_eq_take_drop_succ ..⟩
  rw [← List.drop_eq_getElem_cons hi, List.take_append_drop]

/-- An element is related to those behind it if the pool is pairwise related; what stays of the pool
without it stands before or behind it. -/
theorem rel_of_mem_eraseIdx {R : α → α → Prop} (hl : l.Pairwise R) (h : l[i]? = some a) {b : α}
    (hb : b ∈ l.eraseIdx i) : b ∈ l.take i ∨ R a b := by
  obtain ⟨heq, herase⟩ := eq_take_cons_drop h
  rw [heq, List.pairwise_append, List.pairwise_cons] at hl
  rw [herase, List.mem_append] at hb
  exact hb.imp_right (hl.2.1.1 b)

/-- Removing an unselected element does not change the selected part. -/
theorem filterMap_eraseIdx_of_none {f : α → Option β} (h : l[i]? = some a) (ha : f a = none) :
    (l.eraseIdx i).filterMap f = l.filterMap f := by
  obtain ⟨hl, he⟩ := eq_take_cons_drop h
  rw [he, List.filterMap_append]
  conv_rhs => rw [hl, List.filterMap_append, List.filterMap_cons, ha]

/-- Removing the oldest selected element takes the head of the selected part. -/
theorem filterMap_eraseIdx_of_first {f : α → Option β} {b : β} (h : l[i]? = some a)
    (ha : f a = some b) (hfirst : ∀ a' ∈ l.take i, f a' = none) :
    l.filterMap f = b :: (l.eraseIdx i).filterMap f := by
  obtain ⟨hl, he⟩ := eq_take_cons_drop h
  have hnil : (l.take i).filterMap f = [] := List.filterMap_eq_nil_iff.mpr hfirst
  conv_lhs => rw [hl, List.filterMap_append, List.filterMap_cons, ha, hnil]
  rw [he, List.filterMap_append, hnil]
  rfl

end Multicrew.Library
