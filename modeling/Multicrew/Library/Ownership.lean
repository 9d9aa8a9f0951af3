import Mathlib.Logic.Relation

/-!
# What dies with a pointer

Pointers hold objects, and some pointers are parts of objects themselves. When one pointer is
released, an object dies if nothing else holds it, or only pointers that are parts of objects that
die too. Objects that hold each other in a cycle keep each other alive.
-/

namespace Multicrew.Library

variable {π ι : Type*}

/-- The objects that die when a pointer is released. -/
inductive Doomed (holds : π → ι → Prop) (owner : π → Option ι) (released : π) : ι → Prop
  | intro {o : ι} (part : π → ι) (hheld : ∃ q, holds q o)
      (howner : ∀ q, holds q o → q ≠ released → owner q = some (part q))
      (hdoomed : ∀ q, holds q o → q ≠ released → Doomed holds owner released (part q)) :
      Doomed holds owner released o

namespace Doomed

variable {holds : π → ι → Prop} {owner : π → Option ι} {released : π} {o : ι}

/-- An object dies if it is held, and every holder is the released pointer or dies. -/
theorem of_holders (hheld : ∃ q, holds q o)
    (h : ∀ q, holds q o → q ≠ released → ∃ a, owner q = some a ∧ Doomed holds owner released a) :
    Doomed holds owner released o := by
  classical
  refine .intro (fun q => if hq : holds q o ∧ q ≠ released then (h q hq.1 hq.2).choose else o)
    hheld ?_ ?_
  · intro q hq hne
    simp only [dif_pos (And.intro hq hne)]
    exact (h q hq hne).choose_spec.1
  · intro q hq hne
    simp only [dif_pos (And.intro hq hne)]
    exact (h q hq hne).choose_spec.2

/-- What dies is held. -/
theorem held (h : Doomed holds owner released o) : ∃ q, holds q o := by
  cases h with
  | intro part hheld => exact hheld

/-- Nothing dies with a pointer that holds nothing. -/
theorem exists_target (h : Doomed holds owner released o) : ∃ b, holds released b := by
  induction h with
  | @intro o part hheld howner _ ih =>
    obtain ⟨q, hq⟩ := hheld
    by_cases hne : q = released
    · exact ⟨o, hne ▸ hq⟩
    · exact ih q hq hne

/-- What dies is reached from what the released pointer held, through parts of objects. -/
theorem reached (h : Doomed holds owner released o) {target : ι}
    (htarget : ∀ b, holds released b → b = target) :
    Relation.ReflTransGen (fun a b => ∃ q, owner q = some a ∧ holds q b) target o := by
  induction h with
  | intro part hheld howner _ ih =>
    obtain ⟨q, hq⟩ := hheld
    by_cases hne : q = released
    · subst hne
      rw [htarget _ hq]
    · exact (ih q hq hne).tail ⟨q, howner q hq hne, hq⟩

/-- Without cycles, the object that a released pointer is a part of survives. -/
theorem not_owner
    (hacyclic : ∀ a, ¬ Relation.TransGen (fun a b => ∃ q, owner q = some a ∧ holds q b) a a)
    (hone : ∀ b c, holds released b → holds released c → b = c) {a : ι}
    (howner : owner released = some a) : ¬ Doomed holds owner released a := by
  intro hdoomed
  obtain ⟨target, htarget⟩ := hdoomed.exists_target
  have hreached := hdoomed.reached fun b hb => hone b target hb htarget
  exact hacyclic target (Relation.TransGen.tail' hreached ⟨released, howner, htarget⟩)

end Doomed

end Multicrew.Library
