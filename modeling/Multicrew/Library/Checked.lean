import Mathlib.Data.List.Basic

/-!
# Computations that may fault

A checked computation stops at its first fault. It succeeds when it meets none, and what a
sequence of steps needs for that is what each step needs in turn.
-/

namespace Multicrew.Library

universe u

variable {ε : Type*} {α β : Type u}

/-- The computation meets no fault. -/
def Succeeds (x : Except ε α) : Prop := ∃ a, x = .ok a

/-- A value is a success. -/
@[simp] theorem succeeds_ok (a : α) : Succeeds (.ok a : Except ε α) := ⟨a, rfl⟩

/-- So is what is only returned. -/
@[simp] theorem succeeds_pure (a : α) : Succeeds (pure a : Except ε α) := ⟨a, rfl⟩

/-- An error is none. -/
@[simp] theorem not_succeeds_error (e : ε) : ¬ Succeeds (.error e : Except ε α) := by
  rintro ⟨a, ha⟩
  cases ha

instance (x : Except ε α) : Decidable (Succeeds x) :=
  match x with
  | .ok a => .isTrue (succeeds_ok a)
  | .error e => .isFalse (not_succeeds_error e)

/-- A sequence continues on the result of its first part. -/
@[simp] theorem ok_bind (a : α) (f : α → Except ε β) : (.ok a >>= f) = f a := rfl

/-- A sequence succeeds when its first part does and the rest does on its result. -/
theorem succeeds_bind (x : Except ε α) (f : α → Except ε β) :
    Succeeds (x >>= f) ↔ ∃ a, x = .ok a ∧ Succeeds (f a) := by
  cases x with
  | ok a =>
    constructor
    · exact fun h => ⟨a, rfl, h⟩
    · rintro ⟨b, ⟨⟩, h⟩
      exact h
  | error e =>
    constructor
    · exact fun h => absurd h (not_succeeds_error e)
    · rintro ⟨b, ⟨⟩, -⟩

/-- A computation on the result adds no fault. -/
@[simp] theorem succeeds_map (f : α → β) (x : Except ε α) : Succeeds (f <$> x) ↔ Succeeds x := by
  cases x with
  | ok a => exact iff_of_true ⟨f a, rfl⟩ ⟨a, rfl⟩
  | error e => exact iff_of_false (not_succeeds_error e) (not_succeeds_error e)

/-- A checked value succeeds exactly when the check passes. -/
@[simp] theorem succeeds_ite (c : Prop) [Decidable c] (a : α) (e : ε) :
    Succeeds (if c then .ok a else .error e : Except ε α) ↔ c := by
  split
  · exact iff_of_true (succeeds_ok a) ‹_›
  · exact iff_of_false (not_succeeds_error e) ‹_›

/-- A fault behind a condition is met exactly when the condition holds. -/
theorem succeeds_ite_ok {c : Prop} [Decidable c] {x : Except ε α} (hx : ¬ Succeeds x) (a : α) :
    Succeeds (if c then x else .ok a) ↔ ¬ c := by
  split
  · exact iff_of_false hx (not_not_intro ‹_›)
  · exact iff_of_true (succeeds_ok a) ‹_›

/-- A loop over a state succeeds when every round does, if the state does not matter for that. -/
theorem succeeds_foldlM {β : Type*} (f : α → β → Except ε α) (P : β → Prop) (as : List β)
    (h : ∀ s, ∀ a ∈ as, Succeeds (f s a) ↔ P a) (s : α) :
    Succeeds (as.foldlM f s) ↔ ∀ a ∈ as, P a := by
  induction as generalizing s with
  | nil => simp
  | cons a rest ih =>
    rw [List.foldlM_cons, succeeds_bind, List.forall_mem_cons, ← h s a List.mem_cons_self]
    have hrest := ih fun s a ha => h s a (List.mem_cons_of_mem _ ha)
    constructor
    · rintro ⟨s', hs', hsucceeds⟩
      exact ⟨⟨s', hs'⟩, (hrest s').mp hsucceeds⟩
    · rintro ⟨⟨s', hs'⟩, hall⟩
      exact ⟨s', hs', (hrest s').mpr hall⟩

/-- A loop that collects results succeeds when every round does. -/
theorem succeeds_mapM {β : Type*} (f : β → Except ε α) (as : List β) :
    Succeeds (as.mapM f) ↔ ∀ a ∈ as, Succeeds (f a) := by
  induction as with
  | nil => simp
  | cons a rest ih =>
    rw [List.mapM_cons, succeeds_bind, List.forall_mem_cons, ← ih]
    constructor
    · rintro ⟨b, hb, hrest⟩
      obtain ⟨bs, hbs, -⟩ := (succeeds_bind _ _).mp hrest
      exact ⟨⟨b, hb⟩, bs, hbs⟩
    · rintro ⟨⟨b, hb⟩, bs, hbs⟩
      exact ⟨b, hb, (succeeds_bind _ _).mpr ⟨bs, hbs, succeeds_pure _⟩⟩

end Multicrew.Library
