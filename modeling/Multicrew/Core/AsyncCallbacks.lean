import Multicrew.Library.Machine
import Multicrew.Library.Sweep

/-!
# Asynchronous callbacks

The first callee that asks for a callback makes the core post a message; handling it calls all callees
asked for so far, in the order of their addresses, and then forgets them. A callback may ask for
more callbacks. Other threads wait outside while it does, so what they ask for comes before or after.
-/

namespace Multicrew.Core

open Multicrew.Library

/-- `MulticrewCoreImpl::Data` and the message queue of the program. While `callbackAsync` runs,
`iterator` is where it stands, before the first callee or at the one it is calling. `owed` are the
callees that have not been called since they asked. -/
structure AsyncCore (κ : Type*) where
  asyncCallees : Finset κ := ∅
  messages : ℕ := 0
  iterator : Option (WithBot κ) := none
  owed : Finset κ := ∅

/-- One step: a request, a message that is handled, or an iterator that moves on. -/
inductive AsyncAction (κ : Type*)
  | triggerAsyncCallback (callee : κ)
  | callbackAsync
  | next
  deriving DecidableEq, Repr

namespace AsyncCore

variable {κ : Type*} [LinearOrder κ] (s : AsyncCore κ)

/-- `MulticrewCoreImpl::triggerAsyncCallback`, with `initAsyncCallback` connected to a slot that
posts a message. -/
def triggerAsyncCallback (callee : κ) : AsyncCore κ where
  asyncCallees := insert callee s.asyncCallees
  messages := if s.asyncCallees = ∅ then s.messages + 1 else s.messages
  iterator := s.iterator
  owed := insert callee s.owed

/-- The iterator of `MulticrewCoreImpl::callbackAsync` moves on from where it stands: the next callee
is called, or there is none and the set is cleared. -/
def next (it : WithBot κ) : AsyncCore κ :=
  match sweepNext s.asyncCallees it with
  | some callee => { s with iterator := some callee, owed := s.owed.erase callee }
  | none => { s with iterator := none, asyncCallees := ∅ }

/-- Inside `callbackAsync` only the callee that is being called can ask for a callback. -/
def step : AsyncAction κ → Option (AsyncCore κ)
  | .triggerAsyncCallback callee =>
    if s.iterator = some ⊥ then none else some (s.triggerAsyncCallback callee)
  | .callbackAsync =>
    match s.iterator, s.messages with
    | none, messages + 1 => some { s with iterator := some ⊥, messages := messages }
    | _, _ => none
  | .next => s.iterator.map s.next

/-- Outside `callbackAsync` a message is waiting if callees are, and no callee that asked is still
to be called when none is. -/
def NoneLost : Prop :=
  s.iterator = none →
    (s.asyncCallees ≠ ∅ → 0 < s.messages) ∧ (s.messages = 0 → s.owed = ∅)

/-- A callback asks only for callees behind its own in the order of the addresses. -/
def Forward : AsyncAction κ → Prop
  | .triggerAsyncCallback callee => ∀ it, s.iterator = some it → it < callee
  | _ => True

end AsyncCore

/-- The callbacks of a program from its start on. -/
def asyncMachine (κ : Type*) [LinearOrder κ] : Machine (AsyncCore κ) (AsyncAction κ) where
  initial s := s = {}
  step := AsyncCore.step

namespace AsyncCore

variable {κ : Type*} [LinearOrder κ] {s t : AsyncCore κ} {a : AsyncAction κ}

/-- What a step can do. -/
theorem step_cases (h : s.step a = some t) :
    (∃ callee, a = .triggerAsyncCallback callee ∧ s.iterator ≠ some ⊥ ∧
        t = s.triggerAsyncCallback callee) ∨
      (∃ messages, a = .callbackAsync ∧ s.iterator = none ∧ s.messages = messages + 1 ∧
        t = { s with iterator := some ⊥, messages := messages }) ∨
      (∃ it callee, a = .next ∧ s.iterator = some it ∧
        sweepNext s.asyncCallees it = some callee ∧
        t = { s with iterator := some callee, owed := s.owed.erase callee }) ∨
      ∃ it, a = .next ∧ s.iterator = some it ∧ sweepNext s.asyncCallees it = none ∧
        t = { s with iterator := none, asyncCallees := ∅ } := by
  cases a with
  | triggerAsyncCallback callee =>
    simp only [step, Option.ite_none_left_eq_some, Option.some.injEq] at h
    exact .inl ⟨callee, rfl, h.1, h.2.symm⟩
  | callbackAsync =>
    simp only [step] at h
    split at h
    · rename_i messages hit hmessages
      exact .inr (.inl ⟨messages, rfl, hit, hmessages, (Option.some.inj h).symm⟩)
    · cases h
  | next =>
    obtain ⟨it, hit, rfl⟩ := Option.map_eq_some_iff.mp h
    cases hnext : sweepNext s.asyncCallees it with
    | some callee =>
      exact .inr (.inr (.inl ⟨it, callee, rfl, hit, hnext, by simp only [next, hnext]⟩))
    | none => exact .inr (.inr (.inr ⟨it, rfl, hit, hnext, by simp only [next, hnext]⟩))

/-- One message waits for a set that is not empty, and none while the set is gone through. -/
structure Posted (s : AsyncCore κ) : Prop where
  outside : s.iterator = none → s.messages = if s.asyncCallees = ∅ then 0 else 1
  inside : s.iterator ≠ none → s.messages = 0 ∧ s.asyncCallees ≠ ∅

/-- Messages are posted and handled so that one waits exactly when it has to. -/
theorem Posted.step (hs : s.Posted) (h : s.step a = some t) : t.Posted := by
  obtain ⟨callee, -, -, rfl⟩ | ⟨messages, -, hit, hmessages, rfl⟩ | ⟨it, callee, -, hit, -, rfl⟩ |
    ⟨it, -, hit, -, rfl⟩ := step_cases h
  · refine ⟨fun hnone => ?_, fun hsome => ?_⟩
    · have houtside := hs.outside hnone
      simp only [triggerAsyncCallback, Finset.insert_ne_empty, if_false]
      split at houtside
      · rename_i hempty
        rw [if_pos hempty, houtside]
      · rename_i hne
        rw [if_neg hne, houtside]
    · obtain ⟨hzero, hne⟩ := hs.inside hsome
      simp only [triggerAsyncCallback, if_neg hne]
      exact ⟨hzero, Finset.insert_ne_empty _ _⟩
  · refine ⟨fun hnone => by simp at hnone, fun _ => ?_⟩
    have houtside := hs.outside hit
    split at houtside
    · omega
    · rename_i hne
      exact ⟨by simp only; omega, hne⟩
  · exact ⟨fun hnone => by simp at hnone, fun _ => hs.inside (by simp [hit])⟩
  · refine ⟨fun _ => ?_, fun hsome => absurd rfl hsome⟩
    simp only [if_true]
    exact (hs.inside (by simp [hit])).1

/-- Whoever asked is still in the set, and ahead of the iterator if there is one. -/
structure Sound (s : AsyncCore κ) : Prop where
  posted : s.Posted
  owed : ∀ c ∈ s.owed, c ∈ s.asyncCallees ∧ ∀ it, s.iterator = some it → it < c

/-- Between two runs of `callbackAsync` nothing is lost if all that is owed is in the set. -/
theorem Sound.noneLost (hs : s.Sound) : s.NoneLost := by
  intro hit
  have houtside := hs.posted.outside hit
  refine ⟨fun hne => by rw [if_neg hne] at houtside; omega, fun hzero => ?_⟩
  have hempty : s.asyncCallees = ∅ := by
    by_contra hne
    rw [if_neg hne] at houtside
    omega
  refine Finset.eq_empty_of_forall_notMem fun c hc => ?_
  have hmem := (hs.owed c hc).1
  rw [hempty] at hmem
  exact Finset.notMem_empty c hmem

/-- A step keeps what is owed ahead of the iterator, unless a callback asks for a callee behind. -/
theorem Sound.step (hs : s.Sound) (hok : s.Forward a) (h : s.step a = some t) : t.Sound := by
  refine ⟨hs.posted.step h, ?_⟩
  obtain ⟨callee, rfl, -, rfl⟩ | ⟨messages, -, hit, -, rfl⟩ | ⟨it, callee, -, hit, hnext, rfl⟩ |
    ⟨it, -, hit, hnext, rfl⟩ := step_cases h
  · intro c hc
    cases Finset.mem_insert.mp hc with
    | inl heq =>
      subst heq
      exact ⟨Finset.mem_insert_self _ _, hok⟩
    | inr hold => exact ⟨Finset.mem_insert_of_mem (hs.owed c hold).1, (hs.owed c hold).2⟩
  · intro c hc
    refine ⟨(hs.owed c hc).1, fun it hit' => ?_⟩
    obtain rfl := Option.some.inj hit'
    exact WithBot.bot_lt_coe c
  · intro c hc
    obtain ⟨hne, hold⟩ := Finset.mem_erase.mp hc
    refine ⟨(hs.owed c hold).1, fun it' hit' => ?_⟩
    obtain rfl := Option.some.inj hit'
    exact ahead_of_sweepNext hnext (hs.owed c hold).1 ((hs.owed c hold).2 it hit) hne
  · intro c hc
    obtain ⟨hmem, hlt⟩ := hs.owed c hc
    exact absurd (hlt it hit) (sweepNext_eq_none.mp hnext c hmem)

/-- A callee that asked is behind the iterator already. -/
structure Lost (s : AsyncCore κ) : Prop where
  posted : s.Posted
  behind : ∃ it c, s.iterator = some it ∧ c ∈ s.owed ∧ (c : WithBot κ) ≤ it

/-- The iterator never goes back: the callee stays behind it, or the set is cleared without it. -/
theorem Lost.step (hs : s.Lost) (h : s.step a = some t) : t.Lost ∨ ¬ t.NoneLost := by
  have hposted := hs.posted.step h
  obtain ⟨it₀, c, hit₀, hc, hle⟩ := hs.behind
  obtain ⟨callee, -, -, rfl⟩ | ⟨messages, -, hit, -, -⟩ | ⟨it, callee, -, hit, hnext, rfl⟩ |
    ⟨it, -, hit, -, rfl⟩ := step_cases h
  · exact .inl ⟨hposted, it₀, c, hit₀, Finset.mem_insert_of_mem hc, hle⟩
  · rw [hit₀] at hit
    cases hit
  · obtain rfl : it₀ = it := Option.some.inj (hit₀.symm.trans hit)
    have hlt := hle.trans_lt (sweepNext_eq_some hnext).2.1
    refine .inl ⟨hposted, callee, c, rfl, Finset.mem_erase.mpr ⟨?_, hc⟩, hlt.le⟩
    rintro rfl
    exact lt_irrefl _ hlt
  · refine .inr fun hnone => ?_
    have hempty := (hnone rfl).2 (hposted.outside rfl)
    simp only at hempty
    rw [hempty] at hc
    exact Finset.notMem_empty c hc

/-- A request behind the iterator loses the callee. -/
theorem Sound.lost (hs : s.Sound) (hok : ¬ s.Forward a) (h : s.step a = some t) : t.Lost := by
  refine ⟨hs.posted.step h, ?_⟩
  obtain ⟨callee, rfl, -, rfl⟩ | ⟨-, rfl, -⟩ | ⟨-, -, rfl, -⟩ | ⟨-, rfl, -⟩ := step_cases h
  · simp only [Forward, not_forall, not_lt] at hok
    obtain ⟨it, hit, hle⟩ := hok
    exact ⟨it, callee, hit, Finset.mem_insert_self _ _, hle⟩
  · exact absurd trivial hok
  · exact absurd trivial hok
  · exact absurd trivial hok

/-- A run that has lost a callee and leaves `callbackAsync` shows it. -/
theorem Lost.not_throughout (hs : s.Lost) {as : List (AsyncAction κ)}
    (h : (asyncMachine κ).run s as = some t) (hit : t.iterator = none) :
    ¬ (asyncMachine κ).Throughout NoneLost s as := by
  induction as generalizing s with
  | nil =>
    obtain rfl := Option.some.inj h
    obtain ⟨it, c, hsome, -⟩ := hs.behind
    rw [hit] at hsome
    cases hsome
  | cons a rest ih =>
    obtain ⟨u, hu, hrest⟩ := Option.bind_eq_some_iff.mp h
    simp only [Machine.Throughout, hu]
    rintro ⟨-, hall⟩
    cases hs.step hu with
    | inl hlost => exact ih hlost hrest hall
    | inr hshown =>
      refine hshown ?_
      cases rest with
      | nil => exact hall
      | cons => exact hall.1

/-- While every request is forward, nothing is lost. -/
theorem Sound.throughout (hs : s.Sound) {as : List (AsyncAction κ)}
    (hok : (asyncMachine κ).Along Forward s as) : (asyncMachine κ).Throughout NoneLost s as := by
  induction as generalizing s with
  | nil => exact hs.noneLost
  | cons a rest ih =>
    simp only [Machine.Throughout, Machine.Along] at hok ⊢
    refine ⟨hs.noneLost, ?_⟩
    cases hu : (asyncMachine κ).step s a with
    | none => trivial
    | some u =>
      rw [hu] at hok
      exact ih (hs.step hok.1 hu) hok.2

/-- If nothing was lost outside `callbackAsync`, every request of the run was forward. -/
theorem Sound.along (hs : s.Sound) {as : List (AsyncAction κ)}
    (h : (asyncMachine κ).run s as = some t) (hit : t.iterator = none)
    (hall : (asyncMachine κ).Throughout NoneLost s as) : (asyncMachine κ).Along Forward s as := by
  induction as generalizing s with
  | nil => trivial
  | cons a rest ih =>
    obtain ⟨u, hu, hrest⟩ := Option.bind_eq_some_iff.mp h
    simp only [Machine.Throughout, hu] at hall
    have hok : s.Forward a := by
      by_contra hback
      exact (hs.lost hback hu).not_throughout hrest hit hall.2
    simp only [Machine.Along, hu]
    exact ⟨hok, ih (hs.step hok hu) hrest hall.2⟩

/-- Nothing is registered at the start. -/
theorem sound_empty : ({} : AsyncCore κ).Sound where
  posted := ⟨fun _ => rfl, fun h => absurd rfl h⟩
  owed c hc := absurd hc (Finset.notMem_empty c)

end AsyncCore

/-- In a run whose callbacks ask only for callees behind their own, no request is lost; and a run
that has left `callbackAsync` and lost none is such a run. -/
theorem noneLost_iff_forward {κ : Type*} [LinearOrder κ] (as : List (AsyncAction κ)) :
    ((asyncMachine κ).Along AsyncCore.Forward {} as →
        (asyncMachine κ).Throughout AsyncCore.NoneLost {} as) ∧
      ∀ t, (asyncMachine κ).run {} as = some t → t.iterator = none →
        ((asyncMachine κ).Throughout AsyncCore.NoneLost {} as ↔
          (asyncMachine κ).Along AsyncCore.Forward {} as) :=
  ⟨AsyncCore.sound_empty.throughout, fun _ h hit =>
    ⟨AsyncCore.sound_empty.along h hit, AsyncCore.sound_empty.throughout⟩⟩

/-- A callback asks for a callee behind its own, which is called before `callbackAsync` is left. -/
def forwardRun : List (AsyncAction ℕ) :=
  [.triggerAsyncCallback 1, .callbackAsync, .next, .triggerAsyncCallback 2, .next, .next]

/-- Nothing is lost. -/
theorem noneLost_forwardRun :
    ∃ t, (asyncMachine ℕ).run {} forwardRun = some t ∧ t.iterator = none ∧
      (asyncMachine ℕ).Throughout AsyncCore.NoneLost {} forwardRun :=
  ⟨_, rfl, rfl, ((noneLost_iff_forward forwardRun).2 _ rfl rfl).mpr
    ⟨fun _ h => by simp at h, trivial, trivial,
      fun it h => by obtain rfl := Option.some.inj h; decide, trivial, trivial, trivial⟩⟩

/-- A callback asks for a callee at a smaller address than its own. -/
def backwardRun : List (AsyncAction ℕ) :=
  [.triggerAsyncCallback 2, .callbackAsync, .next, .triggerAsyncCallback 1, .next]

/-- That callee is not called, and no message is waiting. -/
theorem backwardRun_lost : ¬ (asyncMachine ℕ).Throughout AsyncCore.NoneLost {} backwardRun :=
  fun h => absurd ((h.2.2.2.2.2 rfl).2 rfl) (by decide)

end Multicrew.Core
