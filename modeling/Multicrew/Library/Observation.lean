import Multicrew.Library.Machine

/-!
# What a run lets the outside see

A step of a machine may have effects outside it. The observations of a run are the effects of its
steps, up to the first disabled action. Two states are indistinguishable when no list of actions
tells them apart; a relation that every step preserves and that hides no effect shows it.
-/

namespace Multicrew.Library

namespace Machine

variable {σ α ω : Type*} (M : Machine σ α) (emit : σ → α → List ω)

/-- The effects of a list of actions, in order. -/
def observe (s : σ) : List α → List ω
  | [] => []
  | a :: rest => match M.step s a with
    | some t => emit s a ++ observe t rest
    | none => []

/-- Two states enable the same action with the same effects and are related afterwards. -/
def Matches (R : σ → σ → Prop) (s t : σ) (a : α) : Prop :=
  match M.step s a, M.step t a with
  | some s', some t' => emit s a = emit t a ∧ R s' t'
  | none, none => True
  | _, _ => False

variable {M emit}

/-- Related states are told apart by no actions of the kind the relation is kept by. -/
theorem observe_eq {R : σ → σ → Prop} {ok : α → Prop}
    (hR : ∀ s t a, R s t → ok a → M.Matches emit R s t a) {s t : σ} (hst : R s t)
    {as : List α} (has : ∀ a ∈ as, ok a) : M.observe emit s as = M.observe emit t as := by
  induction as generalizing s t with
  | nil => rfl
  | cons a rest ih =>
    have hstep := hR s t a hst (has a List.mem_cons_self)
    have hrest : ∀ b ∈ rest, ok b := fun b hb => has b (List.mem_cons_of_mem a hb)
    unfold Matches at hstep
    cases hs : M.step s a with
    | none => cases ht : M.step t a with
      | none => simp only [observe, hs, ht]
      | some t' => simp only [hs, ht] at hstep
    | some s' => cases ht : M.step t a with
      | none => simp only [hs, ht] at hstep
      | some t' =>
        simp only [hs, ht] at hstep
        simp only [observe, hs, ht, hstep.1, ih hstep.2 hrest]

/-- An enabled action is observed first. -/
theorem observe_cons {s t : σ} {a : α} (h : M.step s a = some t) (rest : List α) :
    M.observe emit s (a :: rest) = emit s a ++ M.observe emit t rest := by
  simp only [observe, h]

end Machine

end Multicrew.Library
