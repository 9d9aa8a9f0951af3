import Mathlib.Data.List.DropRight

/-!
# Joining lists with separators

Two lists joined with a separator can be taken apart again where the separator cannot occur: at its
first occurrence if the left part is free of it, at its last one if the right part is. An element
that fills the ends of a list is dropped there.
-/

namespace Multicrew.Library

variable {α : Type*} {a a' b b' : List α} {sep : α}

/-- The first separator splits a list in one way. -/
theorem append_cons_inj_of_left (ha : sep ∉ a) (ha' : sep ∉ a')
    (h : a ++ sep :: b = a' ++ sep :: b') : a = a' ∧ b = b' := by
  induction a generalizing a' with
  | nil => cases a' with
    | nil => exact ⟨rfl, (List.cons.inj h).2⟩
    | cons x rest => exact absurd ((List.cons.inj h).1 ▸ List.mem_cons_self) ha'
  | cons x rest ih => cases a' with
    | nil => exact absurd ((List.cons.inj h).1 ▸ List.mem_cons_self) ha
    | cons y rest' =>
      obtain ⟨rfl, htail⟩ := List.cons.inj h
      obtain ⟨rfl, hb⟩ := ih (fun hin => ha (List.mem_cons_of_mem x hin))
        (fun hin => ha' (List.mem_cons_of_mem x hin)) htail
      exact ⟨rfl, hb⟩

/-- The last separator splits a list in one way. -/
theorem append_cons_inj_of_right (hb : sep ∉ b) (hb' : sep ∉ b')
    (h : a ++ sep :: b = a' ++ sep :: b') : a = a' ∧ b = b' := by
  have hreverse : b.reverse ++ sep :: a.reverse = b'.reverse ++ sep :: a'.reverse := by
    simpa using congrArg List.reverse h
  obtain ⟨hbb, haa⟩ := append_cons_inj_of_left (by simpa using hb) (by simpa using hb') hreverse
  exact ⟨List.reverse_inj.mp haa, List.reverse_inj.mp hbb⟩

/-- If a list has a separator that the end of it is free of, the separator is in the rest. -/
theorem exists_of_append_cons_eq {x : List α} (hx : sep ∉ x) (h : a ++ sep :: b = a' ++ x) :
    ∃ c, a' = a ++ sep :: c ∧ b = c ++ x := by
  obtain ⟨c, rfl, hc⟩ | ⟨c, rfl, hc⟩ := List.append_eq_append_iff.mp h
  · cases c with
    | nil =>
      rw [List.nil_append] at hc
      exact absurd (hc ▸ List.mem_cons_self) hx
    | cons y rest =>
      obtain ⟨rfl, hrest⟩ := List.cons.inj hc
      exact ⟨rest, rfl, hrest⟩
  · exact absurd (hc ▸ List.mem_append_right c List.mem_cons_self) hx

/-- What holds of each element with those before it holds of the first one, and of the others. -/
theorem forall_split_cons {P : List α → α → Prop} {x : α} {l : List α} :
    (∀ before y after, x :: l = before ++ y :: after → P before y) ↔
      P [] x ∧ ∀ before y after, l = before ++ y :: after → P (x :: before) y := by
  constructor
  · intro h
    refine ⟨h [] x l rfl, ?_⟩
    intro before y after hsplit
    exact h (x :: before) y after (by rw [hsplit, List.cons_append])
  · rintro ⟨hfirst, hrest⟩ before y after hsplit
    cases before with
    | nil =>
      obtain ⟨rfl, -⟩ := List.cons.inj hsplit
      exact hfirst
    | cons x' before =>
      obtain ⟨rfl, htail⟩ := List.cons.inj hsplit
      exact hrest before y after htail

section Trim

variable [DecidableEq α] {l : List α} {x : α}

/-- What is before the first separator. -/
theorem takeWhile_append_cons (ha : sep ∉ a) : (a ++ sep :: b).takeWhile (· ≠ sep) = a := by
  have hall : ∀ y ∈ a, decide (y ≠ sep) = true := by
    intro y hy
    simp only [ne_eq, decide_eq_true_eq]
    rintro rfl
    exact ha hy
  rw [List.takeWhile_append_of_pos hall]
  simp

/-- What is dropped at the front is not there any more. -/
theorem head?_dropWhile_ne : (l.dropWhile (· = x)).head? ≠ some x := by
  intro h
  have hnot := List.head?_dropWhile_not (fun y => decide (y = x)) l
  rw [h] at hnot
  simp at hnot

/-- What is dropped at the end is not there any more. -/
theorem getLast?_rdropWhile_ne : (l.rdropWhile (· = x)).getLast? ≠ some x := by
  rw [List.rdropWhile, List.getLast?_reverse]
  exact head?_dropWhile_ne

/-- Nothing is dropped at a front that begins otherwise. -/
theorem dropWhile_eq_self (h : l.head? ≠ some x) : l.dropWhile (· = x) = l := by
  cases l with
  | nil => rfl
  | cons y rest =>
    have hne : ¬ decide (y = x) = true := by simpa using h
    exact List.dropWhile_cons_of_neg hne

/-- Nothing is dropped at an end that ends otherwise. -/
theorem rdropWhile_eq_self (h : l.getLast? ≠ some x) : l.rdropWhile (· = x) = l := by
  rw [List.rdropWhile, dropWhile_eq_self (by rwa [List.head?_reverse]), List.reverse_reverse]

end Trim

end Multicrew.Library
