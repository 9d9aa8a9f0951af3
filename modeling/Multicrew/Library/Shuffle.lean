import Mathlib.Data.List.Basic

/-!
# Splitting a list in two

A queue that is served item by item ends up split: every item is on one of two sides, and each
side keeps the queue's order. The relation does not say where the sides meet, so it fits a
server that stops early as well as one that skips items.
-/

namespace Multicrew.Library

/-- `l` is split into `l₁` and `l₂`, each in the order of `l`. -/
inductive Shuffle {α : Type*} : List α → List α → List α → Prop
  | nil : Shuffle [] [] []
  | left {l l₁ l₂ : List α} (a : α) : Shuffle l l₁ l₂ → Shuffle (a :: l) (a :: l₁) l₂
  | right {l l₁ l₂ : List α} (a : α) : Shuffle l l₁ l₂ → Shuffle (a :: l) l₁ (a :: l₂)

namespace Shuffle

variable {α : Type*} {l l₁ l₂ : List α}

/-- Nothing is lost and nothing is doubled. -/
theorem length_eq (h : Shuffle l l₁ l₂) : l.length = l₁.length + l₂.length := by
  induction h with
  | nil => rfl
  | left a _ ih =>
    simp only [List.length_cons, ih]
    omega
  | right a _ ih =>
    simp only [List.length_cons, ih]
    omega

/-- Everything may go to the left. -/
theorem all_left (l : List α) : Shuffle l l [] := by
  induction l with
  | nil => exact .nil
  | cons a l ih => exact .left a ih

/-- Everything may stay on the right. -/
theorem all_right (l : List α) : Shuffle l [] l := by
  induction l with
  | nil => exact .nil
  | cons a l ih => exact .right a ih

/-- If nothing stays on the right, the left is the whole list. -/
theorem eq_left (h : Shuffle l l₁ []) : l₁ = l := by
  induction l generalizing l₁ with
  | nil =>
    cases h
    rfl
  | cons a l ih =>
    cases h with
    | left _ h => rw [ih h]

/-- A split with an empty right side takes everything. -/
theorem nil_right_iff : Shuffle l l₁ [] ↔ l₁ = l := by
  constructor
  · exact eq_left
  · intro h
    rw [h]
    exact all_left l

end Shuffle

end Multicrew.Library
