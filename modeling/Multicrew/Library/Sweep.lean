import Mathlib.Data.Finset.Max

/-!
# Sweeping an ordered set that grows

An iterator of an ordered set stands before all elements or at one of them, and moves to the next
larger one of the elements there are when it moves. An element added meanwhile is met exactly when
it is larger than the one the iterator stands at.
-/

namespace Multicrew.Library

variable {κ : Type*} [LinearOrder κ]

/-- The element an iterator moves to from a position, if any is left. -/
def sweepNext (S : Finset κ) (p : WithBot κ) : Option κ := (S.filter fun x : κ => p < x).min

variable {S : Finset κ} {p : WithBot κ} {c : κ}

/-- The iterator moves forward, to an element, and skips none. -/
theorem sweepNext_eq_some (h : sweepNext S p = some c) :
    c ∈ S ∧ p < c ∧ ∀ x ∈ S, p < x → c ≤ x := by
  have hmem := Finset.mem_filter.mp (Finset.mem_of_min h)
  refine ⟨hmem.1, hmem.2, fun x hx hlt => ?_⟩
  exact Finset.min_le_of_eq (Finset.mem_filter.mpr ⟨hx, hlt⟩) h

/-- The iterator is done when nothing larger is left. -/
theorem sweepNext_eq_none : sweepNext S p = none ↔ ∀ x ∈ S, ¬ p < x := by
  refine Finset.min_eq_top.trans ?_
  rw [Finset.filter_eq_empty_iff]

/-- What is ahead of the iterator after a move: all that was ahead but the element it moved to. -/
theorem ahead_of_sweepNext (h : sweepNext S p = some c) {x : κ} (hx : x ∈ S) (hlt : p < x)
    (hne : x ≠ c) : (c : WithBot κ) < x :=
  WithBot.coe_lt_coe.mpr (lt_of_le_of_ne ((sweepNext_eq_some h).2.2 x hx hlt) hne.symm)

end Multicrew.Library
