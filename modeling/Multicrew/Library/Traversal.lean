import Mathlib.Data.List.Perm.Basic

/-!
# Visiting a tree with a stack

A node is taken from the top of the stack and its children are pushed in their order, so the last
one is visited first. As many turns as there are nodes visit every node once.
-/

namespace Multicrew.Library

/-- A finite tree with any number of children. -/
inductive RoseTree (α : Type*)
  | node (value : α) (children : List (RoseTree α))

namespace RoseTree

variable {α : Type*}

mutual

/-- The values of a tree. -/
def values : RoseTree α → List α
  | node a children => a :: valuesOf children

/-- The values of several trees. -/
def valuesOf : List (RoseTree α) → List α
  | [] => []
  | t :: rest => t.values ++ valuesOf rest

end

/-- The values in the order a stack of trees is worked off. -/
def visit : ℕ → List (RoseTree α) → List α
  | 0, _ => []
  | _ + 1, [] => []
  | n + 1, node a children :: stack => a :: visit n (children.reverse ++ stack)

/-- The values of one stack on another. -/
theorem valuesOf_append (stack below : List (RoseTree α)) :
    valuesOf (stack ++ below) = valuesOf stack ++ valuesOf below := by
  induction stack with
  | nil => rfl
  | cons t rest ih => simp only [List.cons_append, valuesOf, ih, List.append_assoc]

/-- The order of the trees does not matter. -/
theorem valuesOf_reverse (stack : List (RoseTree α)) :
    (valuesOf stack.reverse).Perm (valuesOf stack) := by
  induction stack with
  | nil => exact .refl _
  | cons t rest ih =>
    have htop : valuesOf [t] = t.values := List.append_nil _
    rw [List.reverse_cons, valuesOf_append, htop, valuesOf]
    exact List.perm_append_comm.trans (ih.append_left _)

/-- With enough turns every value is visited once. -/
theorem visit_perm {n : ℕ} {stack : List (RoseTree α)} (h : (valuesOf stack).length ≤ n) :
    (visit n stack).Perm (valuesOf stack) := by
  induction n generalizing stack with
  | zero => rw [List.length_eq_zero_iff.mp (Nat.le_zero.mp h), visit]
  | succ n ih =>
    cases stack with
    | nil => exact .refl _
    | cons t stack =>
      cases t with
      | node a children =>
        have hnext : (valuesOf (children.reverse ++ stack)).Perm
            (valuesOf children ++ valuesOf stack) := by
          rw [valuesOf_append]
          exact (valuesOf_reverse children).append_right _
        have hlength := hnext.length_eq
        simp only [valuesOf, values, List.cons_append, List.length_cons] at h
        have hturns : (valuesOf (children.reverse ++ stack)).length ≤ n := by omega
        exact ((ih hturns).trans hnext).cons a

end RoseTree

end Multicrew.Library
