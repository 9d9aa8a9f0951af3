import Mathlib.Data.List.Basic
import Mathlib.Data.Option.Basic

/-!
# Executable state machines and their runs

A machine is a partial step function: the action resolves every choice, so one run can be
evaluated and all runs can be quantified over. Reachability takes a condition on steps; with
the trivial condition it is ordinary reachability. Invariants are proved once per step and
lifted here to every reachable state.
-/

namespace Multicrew.Library

/-- Initial states, and the state an enabled action leads to. -/
structure Machine (σ α : Type*) where
  initial : σ → Prop
  step : σ → α → Option σ

namespace Machine

variable {σ α : Type*} (M : Machine σ α)

/-- States met by the runs whose every step satisfies `ok`. -/
inductive ReachableVia (ok : σ → α → Prop) : σ → Prop
  | initial {s : σ} : M.initial s → ReachableVia ok s
  | step {s t : σ} {a : α} : ReachableVia ok s → ok s a → M.step s a = some t → ReachableVia ok t

/-- States met by arbitrary runs. -/
def Reachable : σ → Prop := M.ReachableVia fun _ _ => True

/-- Execute a list of actions, failing at the first disabled one. -/
def run (s : σ) : List α → Option σ
  | [] => some s
  | a :: rest => (M.step s a).bind fun t => run t rest

/-- Every executed action of a run satisfies a condition. -/
def Along (ok : σ → α → Prop) (s : σ) : List α → Prop
  | [] => True
  | a :: rest => ok s a ∧ match M.step s a with
    | some t => Along ok t rest
    | none => True

/-- Along concrete runs a decidable condition can be evaluated. -/
def decidableAlong {ok : σ → α → Prop} [∀ s a, Decidable (ok s a)] (s : σ) :
    (as : List α) → Decidable (M.Along ok s as)
  | [] => .isTrue trivial
  | a :: rest =>
    have hrest : Decidable (match M.step s a with
        | some t => M.Along ok t rest
        | none => True) :=
      match M.step s a with
      | some t => decidableAlong t rest
      | none => .isTrue trivial
    @instDecidableAnd (ok s a) _ _ hrest

instance {ok : σ → α → Prop} [∀ s a, Decidable (ok s a)] (s : σ) (as : List α) :
    Decidable (M.Along ok s as) :=
  M.decidableAlong s as

/-- Every state a list of actions meets satisfies a property. -/
def Throughout (I : σ → Prop) (s : σ) : List α → Prop
  | [] => I s
  | a :: rest => I s ∧ match M.step s a with
    | some t => Throughout I t rest
    | none => True

/-- What the steps of a run emit, in order. -/
def trace {β : Type*} (out : σ → α → List β) (s : σ) : List α → List β
  | [] => []
  | a :: rest => out s a ++ match M.step s a with
    | some t => trace out t rest
    | none => []

/-- What the steps of a run earn together. -/
def tally (earn : σ → α → ℕ) (s : σ) : List α → ℕ
  | [] => 0
  | a :: rest => earn s a + match M.step s a with
    | some t => tally earn t rest
    | none => 0

variable {M}

/-- A weaker condition on steps admits every run of the stronger one. -/
theorem ReachableVia.mono {ok ok' : σ → α → Prop} (h : ∀ s a, ok s a → ok' s a) {s : σ}
    (hs : M.ReachableVia ok s) : M.ReachableVia ok' s := by
  induction hs with
  | initial hinit => exact .initial hinit
  | step _ hok hstep ih => exact .step ih (h _ _ hok) hstep

/-- Conditioned runs are runs. -/
theorem ReachableVia.reachable {ok : σ → α → Prop} {s : σ} (hs : M.ReachableVia ok s) :
    M.Reachable s :=
  hs.mono fun _ _ _ => trivial

/-- A property of the initial states kept by every admitted step holds in every state met. -/
theorem ReachableVia.invariant {ok : σ → α → Prop} {I : σ → Prop}
    (hinit : ∀ s, M.initial s → I s)
    (hstep : ∀ s a t, M.ReachableVia ok s → I s → ok s a → M.step s a = some t → I t)
    {s : σ} (hs : M.ReachableVia ok s) : I s := by
  induction hs with
  | initial h => exact hinit _ h
  | step hs hok h ih => exact hstep _ _ _ hs ih hok h

/-- The unconditioned invariant rule; the step may use that its source state is reachable. -/
theorem Reachable.invariant {I : σ → Prop} (hinit : ∀ s, M.initial s → I s)
    (hstep : ∀ s a t, M.Reachable s → I s → M.step s a = some t → I t)
    {s : σ} (hs : M.Reachable s) : I s :=
  ReachableVia.invariant hinit (fun s a t hr hI _ h => hstep s a t hr hI h) hs

/-- One more step of an unconditioned run. -/
theorem Reachable.step {s t : σ} {a : α} (hs : M.Reachable s) (h : M.step s a = some t) :
    M.Reachable t :=
  ReachableVia.step hs trivial h

/-- Executing actions that satisfy the condition is a conditioned run. -/
theorem ReachableVia.run {ok : σ → α → Prop} {s t : σ} {as : List α} (hs : M.ReachableVia ok s)
    (hok : M.Along ok s as) (h : M.run s as = some t) : M.ReachableVia ok t := by
  induction as generalizing s with
  | nil =>
    simp only [Machine.run, Option.some.injEq] at h
    exact h ▸ hs
  | cons a rest ih =>
    obtain ⟨u, hu, hrest⟩ := Option.bind_eq_some_iff.mp h
    simp only [Along, hu] at hok
    exact ih (hs.step hok.1 hu) hok.2 hrest

/-- A property that admitted steps keep holds at the end of a run whose steps are admitted. -/
theorem Along.invariant {ok : σ → α → Prop} {I : σ → Prop}
    (hstep : ∀ s a t, I s → ok s a → M.step s a = some t → I t) {s t : σ} {as : List α}
    (hok : M.Along ok s as) (hI : I s) (h : M.run s as = some t) : I t := by
  induction as generalizing s with
  | nil => exact Option.some.inj h ▸ hI
  | cons a rest ih =>
    obtain ⟨u, hu, hrest⟩ := Option.bind_eq_some_iff.mp h
    simp only [Along, hu] at hok
    exact ih hok.2 (hstep s a u hI hok.1 hu) hrest

/-- A condition that holds of every action of a list holds along its run. -/
theorem along_of_forall {ok : σ → α → Prop} {as : List α} (h : ∀ a ∈ as, ∀ s, ok s a) (s : σ) :
    M.Along ok s as := by
  induction as generalizing s with
  | nil => trivial
  | cons a rest ih =>
    refine ⟨h a List.mem_cons_self s, ?_⟩
    cases M.step s a with
    | none => trivial
    | some t => exact ih (fun b hb => h b (List.mem_cons_of_mem a hb)) t

/-- A condition on actions alone holds along a run of a machine that takes every action exactly when
all actions satisfy it. -/
theorem along_iff_forall {p : α → Prop} (htotal : ∀ s a, ∃ t, M.step s a = some t) (s : σ)
    (as : List α) : M.Along (fun _ a => p a) s as ↔ ∀ a ∈ as, p a := by
  induction as generalizing s with
  | nil => simp [Along]
  | cons a rest ih =>
    obtain ⟨t, ht⟩ := htotal s a
    simp only [Along, ht, ih t, List.forall_mem_cons]

/-- Executing actions from a reachable state stays reachable. -/
theorem Reachable.run {s t : σ} {as : List α} (hs : M.Reachable s) (h : M.run s as = some t) :
    M.Reachable t :=
  ReachableVia.run hs (along_of_forall (fun _ _ _ => trivial) s) h

/-- A condition that decides, step by step, whether a property survives decides it for whole runs:
the property holds in every state met exactly when every step satisfies the condition. -/
theorem throughout_iff_along {I : σ → Prop} {ok : σ → α → Prop}
    (hexact : ∀ s a t, M.Reachable s → I s → M.step s a = some t → (I t ↔ ok s a))
    {s t : σ} {as : List α} (hs : M.Reachable s) (hI : I s) (h : M.run s as = some t) :
    M.Throughout I s as ↔ M.Along ok s as := by
  induction as generalizing s with
  | nil => simp only [Throughout, Along, hI]
  | cons a rest ih =>
    obtain ⟨u, hu, hrest⟩ := Option.bind_eq_some_iff.mp h
    have hhead : ∀ v, M.Throughout I v rest → I v := by
      intro v hv
      cases rest with
      | nil => exact hv
      | cons => exact hv.1
    simp only [Throughout, Along, hI, hu, true_and]
    constructor
    · intro hall
      have hIu := hhead u hall
      exact ⟨(hexact s a u hs hI hu).mp hIu, (ih (hs.step hu) hIu hrest).mp hall⟩
    · rintro ⟨hok, halong⟩
      exact (ih (hs.step hu) ((hexact s a u hs hI hu).mpr hok) hrest).mpr halong

/-- Conditions that agree in every reachable state agree along every run. -/
theorem along_congr {ok ok' : σ → α → Prop} (h : ∀ s a, M.Reachable s → (ok s a ↔ ok' s a))
    {s : σ} (hs : M.Reachable s) (as : List α) : M.Along ok s as ↔ M.Along ok' s as := by
  induction as generalizing s with
  | nil => exact Iff.rfl
  | cons a rest ih =>
    simp only [Along]
    cases ht : M.step s a with
    | none => simp only [h s a hs]
    | some t => simp only [h s a hs, ih (hs.step ht)]

/-- What each step shows holds along a run exactly when a condition on the steps does, if the
condition keeps the invariant under which the two agree. -/
theorem along_iff_along {I : σ → Prop} {shows ok : σ → α → Prop}
    (hagree : ∀ s a, I s → (shows s a ↔ ok s a))
    (hkeep : ∀ s a t, I s → ok s a → M.step s a = some t → I t) {s : σ} (hs : I s) (as : List α) :
    M.Along shows s as ↔ M.Along ok s as := by
  induction as generalizing s with
  | nil => exact Iff.rfl
  | cons a rest ih =>
    simp only [Along, hagree s a hs]
    refine and_congr_right fun hok => ?_
    cases ht : M.step s a with
    | none => exact Iff.rfl
    | some t => exact ih (hkeep s a t hs hok ht)

/-- A condition that keeps an invariant under which steps show something makes runs show it. -/
theorem Along.of_invariant {I : σ → Prop} {shows ok : σ → α → Prop} {s : σ} {as : List α}
    (hok : M.Along ok s as) (hshows : ∀ s a, I s → ok s a → shows s a)
    (hkeep : ∀ s a t, I s → ok s a → M.step s a = some t → I t) (hs : I s) :
    M.Along shows s as := by
  induction as generalizing s with
  | nil => trivial
  | cons a rest ih =>
    simp only [Along] at hok ⊢
    refine ⟨hshows s a hs hok.1, ?_⟩
    cases ht : M.step s a with
    | none => trivial
    | some t =>
      rw [ht] at hok
      exact ih hok.2 (hkeep s a t hs hok.1 ht)

/-- A run may be continued by actions that satisfy the condition everywhere. -/
theorem Along.append {ok : σ → α → Prop} {s : σ} {as bs : List α} (hok : M.Along ok s as)
    (hbs : ∀ t, M.Along ok t bs) : M.Along ok s (as ++ bs) := by
  induction as generalizing s with
  | nil => exact hbs s
  | cons a rest ih =>
    simp only [List.cons_append, Along] at hok ⊢
    refine ⟨hok.1, ?_⟩
    cases ht : M.step s a with
    | none => trivial
    | some t =>
      rw [ht] at hok
      exact ih hok.2

/-- From a state that every step showing something keeps lost, each run has a continuation that does
not show it. -/
theorem not_along_of_lost {ι : Sort*} {lost : σ → Prop} {shows : σ → α → Prop} {later : ι → List α}
    (hstay : ∀ s a, lost s → shows s a → ∃ t, M.step s a = some t ∧ lost t)
    (hfail : ∀ s, lost s → ∃ i, ¬ M.Along shows s (later i)) {s : σ} (hs : lost s) (as : List α) :
    ∃ i, ¬ M.Along shows s (as ++ later i) := by
  induction as generalizing s with
  | nil => exact hfail s hs
  | cons a rest ih =>
    by_cases ha : shows s a
    · obtain ⟨t, ht, hlost⟩ := hstay s a hs ha
      obtain ⟨i, hi⟩ := ih hlost
      refine ⟨i, fun hall => hi ?_⟩
      simp only [List.cons_append, Along, ht] at hall
      exact hall.2
    · obtain ⟨i, -⟩ := hfail s hs
      exact ⟨i, fun hall => ha hall.1⟩

/-- A condition on the steps of a run is exactly what all its continuations need to show something, if
it keeps an invariant under which steps show it and every step that breaks it loses it for good. -/
theorem along_continued_iff {ι : Sort*} (I lost : σ → Prop) {shows ok : σ → α → Prop}
    {later : ι → List α} (hlater : ∀ i s, M.Along ok s (later i))
    (hshows : ∀ s a, I s → ok s a → shows s a)
    (hkeep : ∀ s a, I s → ok s a → ∃ t, M.step s a = some t ∧ I t)
    (hlose : ∀ s a, I s → ¬ ok s a → ∃ t, M.step s a = some t ∧ lost t)
    (hstay : ∀ s a, lost s → shows s a → ∃ t, M.step s a = some t ∧ lost t)
    (hfail : ∀ s, lost s → ∃ i, ¬ M.Along shows s (later i)) {s : σ} (hs : I s) (as : List α) :
    (∀ i, M.Along shows s (as ++ later i)) ↔ M.Along ok s as := by
  constructor
  · intro hall
    induction as generalizing s with
    | nil => trivial
    | cons a rest ih =>
      by_cases ha : ok s a
      · obtain ⟨t, ht, hI⟩ := hkeep s a hs ha
        simp only [List.cons_append, Along, ht] at hall ⊢
        exact ⟨ha, ih hI fun i => (hall i).2⟩
      · obtain ⟨t, ht, hlost⟩ := hlose s a hs ha
        simp only [List.cons_append, Along, ht] at hall
        obtain ⟨i, hi⟩ := not_along_of_lost hstay hfail hlost rest
        exact absurd (hall i).2 hi
  · intro hok i
    refine (hok.append (hlater i)).of_invariant hshows ?_ hs
    intro s a t hI ha ht
    obtain ⟨u, hu, hIu⟩ := hkeep s a hI ha
    rw [ht] at hu
    exact Option.some.inj hu ▸ hIu

/-- A weaker condition holds along the runs of the stronger one. -/
theorem Along.mono {ok ok' : σ → α → Prop} {s : σ} {as : List α} (hok : M.Along ok s as)
    (h : ∀ s a, ok s a → ok' s a) : M.Along ok' s as := by
  induction as generalizing s with
  | nil => trivial
  | cons a rest ih =>
    simp only [Along] at hok ⊢
    refine ⟨h s a hok.1, ?_⟩
    cases ht : M.step s a with
    | none => trivial
    | some t =>
      rw [ht] at hok
      exact ih hok.2

/-- Conditions that agree wherever a third one holds agree along the runs that meet that one. -/
theorem Along.congr {ok ok' on : σ → α → Prop} {s : σ} {as : List α} (hon : M.Along on s as)
    (h : ∀ s a, on s a → (ok s a ↔ ok' s a)) : M.Along ok s as ↔ M.Along ok' s as := by
  induction as generalizing s with
  | nil => exact Iff.rfl
  | cons a rest ih =>
    simp only [Along] at hon ⊢
    rw [h s a hon.1]
    refine and_congr_right fun _ => ?_
    cases ht : M.step s a with
    | none => exact Iff.rfl
    | some t =>
      rw [ht] at hon
      exact ih hon.2

/-- A run goes on from where its first action leads. -/
theorem run_cons {s t : σ} {a : α} (h : M.step s a = some t) (as : List α) :
    M.run s (a :: as) = M.run t as := by
  rw [Machine.run, h, Option.bind_some]

/-- A run reaches its end exactly when each of its actions is enabled. -/
theorem along_isSome_iff {s : σ} {as : List α} :
    M.Along (fun s a => (M.step s a).isSome) s as ↔ (M.run s as).isSome := by
  induction as generalizing s with
  | nil => simp only [Along, run, Option.isSome_some]
  | cons a rest ih =>
    cases ht : M.step s a with
    | none => simp only [Along, run, ht, Option.isSome_none, Bool.false_eq_true, false_and,
        Option.bind_none]
    | some t => simp only [Along, run, ht, Option.isSome_some, true_and, Option.bind_some, ih]

/-- A run splits at any point of its action list. -/
theorem run_append (s : σ) (as bs : List α) :
    M.run s (as ++ bs) = (M.run s as).bind fun t => M.run t bs := by
  induction as generalizing s with
  | nil => rfl
  | cons a rest ih =>
    simp only [List.cons_append, Machine.run, Option.bind_assoc]
    congr 1
    funext t
    exact ih t

/-- What holds throughout a run holds at its end. -/
theorem Throughout.last {I : σ → Prop} {s t : σ} {as : List α} (hI : M.Throughout I s as)
    (h : M.run s as = some t) : I t := by
  induction as generalizing s with
  | nil => exact Option.some.inj h ▸ hI
  | cons a rest ih =>
    obtain ⟨u, hu, hrest⟩ := Option.bind_eq_some_iff.mp h
    simp only [Throughout, hu] at hI
    exact ih hI.2 hrest

/-- If every step of a machine is some steps of another one on the image of the state, every run is
a run of the other one. What relates a step to its images relates the actions of the runs. -/
theorem run_image {τ β : Type*} {N : Machine τ β} {f : σ → τ} {R : α → β → Prop} {I : σ → Prop}
    (hkept : ∀ s a t, I s → M.step s a = some t → I t)
    (hstep : ∀ s a t, I s → M.step s a = some t →
      ∃ bs, N.run (f s) bs = some (f t) ∧ ∀ b ∈ bs, R a b)
    {s t : σ} {as : List α} (hI : I s) (h : M.run s as = some t) :
    ∃ bs, N.run (f s) bs = some (f t) ∧ ∀ b ∈ bs, ∃ a ∈ as, R a b := by
  induction as generalizing s with
  | nil => exact ⟨[], by rw [Option.some.inj h]; rfl, fun _ hb => (List.not_mem_nil hb).elim⟩
  | cons a rest ih =>
    obtain ⟨u, hu, hrest⟩ := Option.bind_eq_some_iff.mp h
    obtain ⟨first, hfirst, hR⟩ := hstep s a u hI hu
    obtain ⟨later, hlater, hR'⟩ := ih (hkept s a u hI hu) hrest
    refine ⟨first ++ later, by rw [run_append, hfirst]; exact hlater, fun b hb => ?_⟩
    cases List.mem_append.mp hb with
    | inl hin => exact ⟨a, List.mem_cons_self, hR b hin⟩
    | inr hin =>
      obtain ⟨a', ha', hR⟩ := hR' b hin
      exact ⟨a', List.mem_cons_of_mem a ha', hR⟩

/-- The image of a conditioned run is a conditioned run. -/
theorem ReachableVia.image {τ β : Type*} {N : Machine τ β} {f : σ → τ} {ok : σ → α → Prop}
    {ok' : τ → β → Prop} {s : σ} (hs : M.ReachableVia ok s)
    (hinit : ∀ s, M.initial s → N.initial (f s))
    (hstep : ∀ s a t, M.ReachableVia ok s → ok s a → M.step s a = some t →
      ∃ bs, N.run (f s) bs = some (f t) ∧ N.Along ok' (f s) bs) : N.ReachableVia ok' (f s) := by
  induction hs with
  | initial h => exact .initial (hinit _ h)
  | step hs hok h ih =>
    obtain ⟨bs, hrun, halong⟩ := hstep _ _ _ hs hok h
    exact ih.run halong hrun

/-- What every step keeps between the state and all that was emitted holds after a run. -/
theorem trace_invariant {β : Type*} {out : σ → α → List β} {P : σ → List β → Prop}
    (hstep : ∀ s a t seen, M.Reachable s → P s seen → M.step s a = some t → P t (seen ++ out s a))
    {s t : σ} {as : List α} {seen : List β} (hs : M.Reachable s) (h : P s seen)
    (hrun : M.run s as = some t) : P t (seen ++ M.trace out s as) := by
  induction as generalizing s seen with
  | nil =>
    rw [trace, List.append_nil]
    exact Option.some.inj hrun ▸ h
  | cons a rest ih =>
    obtain ⟨u, hu, hrest⟩ := Option.bind_eq_some_iff.mp hrun
    have hfirst := hstep s a u seen hs h hu
    simp only [trace, hu, ← List.append_assoc]
    exact ih (hs.step hu) hfirst hrest

/-- A cost that no step raises by more than it earns is paid for over the whole run. -/
theorem le_add_tally {cost : σ → ℕ} {earn : σ → α → ℕ}
    (hstep : ∀ s a t, M.Reachable s → M.step s a = some t → cost t ≤ cost s + earn s a)
    {s t : σ} {as : List α} (hs : M.Reachable s) (hrun : M.run s as = some t) :
    cost t ≤ cost s + M.tally earn s as := by
  induction as generalizing s with
  | nil =>
    obtain rfl := Option.some.inj hrun
    exact Nat.le_refl _
  | cons a rest ih =>
    obtain ⟨u, hu, hrest⟩ := Option.bind_eq_some_iff.mp hrun
    have hfirst := hstep s a u hs hu
    have hlater := ih (hs.step hu) hrest
    simp only [tally, hu]
    omega

end Machine

end Multicrew.Library
