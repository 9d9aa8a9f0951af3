import Multicrew.Library.Machine
import Mathlib.Logic.Function.Basic

/-!
# Threads and their two events

A `Thread` has an event that asks its worker to leave `threadProc` and one that tells that it has. The
owner and the workers run in any order; a worker reads the events from the object whenever it needs
them, so after a wait that timed out an old worker would use those of a new one.
-/

namespace Multicrew.Core

open Multicrew.Library

/-- Where a worker is: in `threadProc`, behind it in `threadProcImpl`, or behind its `SetEvent`. -/
inductive WorkerPhase
  | running
  | returned
  | ended
  deriving DecidableEq, Repr

/-- `Thread::Data`, the event handles of the process that are open, with their states, and the workers
in the order in which they were created. The owner is in `stopThread` while `stopping`. -/
structure ThreadObject where
  thread : Option ℕ := none
  exitEvent : ℕ := 0
  exitedEvent : ℕ := 0
  stopping : Bool := false
  events : ℕ → Option Bool := fun _ => none
  handles : ℕ := 1
  workers : ℕ → Option WorkerPhase := fun _ => none
  spawned : ℕ := 0

/-- What the owner, the system and the workers do. -/
inductive ThreadAction
  | startThread (created : Bool)
  | stopThread
  | waited (timedOut : Bool)
  | shouldExit (worker : ℕ)
  | leave (worker : ℕ)
  | setExited (worker : ℕ)
  | startFromWorker (worker : ℕ) (created : Bool)
  deriving DecidableEq, Repr

namespace ThreadObject

variable (s : ThreadObject)

/-- `startThread`; `created` tells whether `CreateThread` succeeds. It is one step, although the worker
runs before `CreateThread` has returned and `d->thread` is set: a `startThread` of the worker comes after
the owner's has returned. -/
def startThread (created : Bool) : ThreadObject :=
  if s.thread = none then
    let exitEvent := s.handles
    let exitedEvent := s.handles + 1
    let events := Function.update (Function.update s.events exitEvent (some false)) exitedEvent
      (some false)
    let s := { s with handles := s.handles + 2, exitedEvent := exitedEvent }
    if created then
      { s with
        exitEvent := exitEvent
        events := events
        thread := some s.spawned
        workers := Function.update s.workers s.spawned (some .running)
        spawned := s.spawned + 1 }
    else { s with exitEvent := 0, events := Function.update events exitEvent none }
  else s

/-- `SetEvent`, which fails if the handle is not open. -/
def setEvent (handle : ℕ) : ThreadObject :=
  { s with events := Function.update s.events handle ((s.events handle).map fun _ => true) }

/-- `stopThread` up to its wait. -/
def stopThread : ThreadObject :=
  if s.thread = none then s else { s.setEvent s.exitEvent with stopping := true }

/-- `stopThread` from its wait on. -/
def waited : ThreadObject :=
  { s with
    thread := none
    stopping := false
    events := Function.update (Function.update s.events s.exitEvent none) s.exitedEvent none }

/-- A worker comes to another place. -/
def moveTo (worker : ℕ) (phase : WorkerPhase) : ThreadObject :=
  { s with workers := Function.update s.workers worker (some phase) }

/-- One step of the owner or of a worker. A wait times out only if the event is not signaled. -/
def step (s : ThreadObject) : ThreadAction → Option ThreadObject
  | .startThread created => if s.stopping then none else some (s.startThread created)
  | .stopThread => if s.stopping then none else some s.stopThread
  | .waited timedOut =>
    if s.stopping ∧ timedOut = decide (s.events s.exitedEvent = some false) then some s.waited
    else none
  | .shouldExit worker =>
    if s.workers worker = some .running then
      some (if s.events s.exitEvent = some true then s.moveTo worker .returned else s)
    else none
  | .leave worker =>
    if s.workers worker = some .running then some (s.moveTo worker .returned) else none
  | .setExited worker =>
    if s.workers worker = some .returned then
      some ((s.setEvent s.exitedEvent).moveTo worker .ended)
    else none
  | .startFromWorker worker created =>
    if s.workers worker = some .running then some (s.startThread created) else none

/-- Every worker that has not ended is the one of the object, and its events are open. -/
def Alone : Prop :=
  ∀ worker phase, s.workers worker = some phase → phase ≠ .ended →
    s.thread = some worker ∧ (s.events s.exitEvent).isSome ∧ (s.events s.exitedEvent).isSome

/-- A step does not leave a worker behind. -/
def KeepsAlone (a : ThreadAction) : Prop := ∀ t, s.step a = some t → t.Alone

/-- The wait in `stopThread` times out. -/
def TimesOut (a : ThreadAction) : Prop :=
  a = .waited true ∧ s.stopping = true ∧ s.events s.exitedEvent = some false

/-- The events and the worker of the object belong together, and there is no other worker. -/
structure Sound : Prop where
  current : ∀ worker, s.thread = some worker → ∃ phase, s.workers worker = some phase ∧
    s.events s.exitEvent = some s.stopping ∧
    s.events s.exitedEvent = some (decide (phase = .ended))
  only : ∀ worker phase, s.workers worker = some phase → phase ≠ .ended → s.thread = some worker
  distinct : s.thread ≠ none → s.exitEvent ≠ s.exitedEvent
  idle : s.thread = none → s.stopping = false

variable {s} {t : ThreadObject}

/-- A worker of a sound object is alone. -/
theorem Sound.alone (h : s.Sound) : s.Alone := by
  intro worker phase hworker hphase
  have hthread := h.only worker phase hworker hphase
  obtain ⟨_, -, hexit, hexited⟩ := h.current worker hthread
  exact ⟨hthread, by rw [hexit]; rfl, by rw [hexited]; rfl⟩

/-- Starting a thread when there is none keeps all in place. -/
theorem Sound.startThread (h : s.Sound) (created : Bool) : (s.startThread created).Sound := by
  unfold ThreadObject.startThread
  split
  · rename_i hnone
    have hall : ∀ worker phase, s.workers worker = some phase → phase = .ended := by
      intro worker phase hworker
      by_contra hphase
      have hthread := h.only worker phase hworker hphase
      rw [hnone] at hthread
      cases hthread
    cases created with
    | false =>
      refine ⟨?_, ?_, ?_, ?_⟩
      · intro worker hthread
        cases hnone.symm.trans hthread
      · intro worker phase hworker hphase
        exact absurd (hall worker phase hworker) hphase
      · exact fun hthread => absurd hnone hthread
      · exact fun _ => h.idle hnone
    | true =>
      refine ⟨?_, ?_, ?_, ?_⟩
      · intro worker hthread
        obtain rfl : s.spawned = worker := Option.some.inj hthread
        refine ⟨.running, Function.update_self _ _ _, ?_, ?_⟩
        · simp [h.idle hnone]
        · simp
      · intro worker phase hworker hphase
        by_cases hnew : worker = s.spawned
        · exact congrArg some hnew.symm
        · simp only [if_true, Function.update_of_ne hnew] at hworker
          exact absurd (hall worker phase hworker) hphase
      · intro _
        simp
      · intro hthread
        cases hthread
  · exact h

/-- A worker that leaves `threadProc` is still the one of the object. -/
theorem Sound.leave (h : s.Sound) {worker : ℕ} (hworker : s.workers worker = some .running) :
    (s.moveTo worker .returned).Sound := by
  have hthread := h.only worker .running hworker (by simp)
  refine ⟨?_, ?_, h.distinct, h.idle⟩
  · intro worker' hcurrent
    obtain rfl : worker = worker' := Option.some.inj (hthread.symm.trans hcurrent)
    obtain ⟨phase, hphase, hexit, hexited⟩ := h.current worker hcurrent
    obtain rfl : WorkerPhase.running = phase := Option.some.inj (hworker.symm.trans hphase)
    exact ⟨.returned, Function.update_self _ _ _, hexit, hexited⟩
  · intro worker' phase hworker' hphase
    by_cases heq : worker' = worker
    · exact heq ▸ hthread
    · simp only [moveTo, Function.update_of_ne heq] at hworker'
      exact h.only worker' phase hworker' hphase

/-- A worker that ends signals the event of the object. -/
theorem Sound.setExited (h : s.Sound) {worker : ℕ} (hworker : s.workers worker = some .returned) :
    ((s.setEvent s.exitedEvent).moveTo worker .ended).Sound := by
  have hthread := h.only worker .returned hworker (by simp)
  have hdistinct := h.distinct (by rw [hthread]; simp)
  refine ⟨?_, ?_, h.distinct, h.idle⟩
  · intro worker' hcurrent
    obtain rfl : worker = worker' := Option.some.inj (hthread.symm.trans hcurrent)
    obtain ⟨phase, hphase, hexit, hexited⟩ := h.current worker hcurrent
    refine ⟨.ended, Function.update_self _ _ _, ?_, ?_⟩
    · simp only [moveTo, setEvent, Function.update_of_ne hdistinct, hexit]
    · simp [moveTo, setEvent, hexited]
  · intro worker' phase hworker' hphase
    by_cases heq : worker' = worker
    · exact heq ▸ hthread
    · simp only [moveTo, setEvent, Function.update_of_ne heq] at hworker'
      exact h.only worker' phase hworker' hphase

/-- Asking for the end signals the event of the object. -/
theorem Sound.stopThread (h : s.Sound) : s.stopThread.Sound := by
  unfold ThreadObject.stopThread
  split
  · exact h
  · rename_i hthread
    have hdistinct := h.distinct hthread
    refine ⟨?_, h.only, h.distinct, fun hnone => absurd hnone hthread⟩
    intro worker hcurrent
    obtain ⟨phase, hphase, hexit, hexited⟩ := h.current worker hcurrent
    refine ⟨phase, hphase, ?_, ?_⟩
    · simp [setEvent, hexit]
    · simp only [setEvent, Function.update_of_ne (Ne.symm hdistinct), hexited]

/-- Behind a wait that did not time out no worker is left. -/
theorem Sound.waited (h : s.Sound)
    (hexited : s.events s.exitedEvent ≠ some false) : s.waited.Sound := by
  have hended : ∀ worker phase, s.workers worker = some phase → phase = .ended := by
    intro worker phase hworker
    by_contra hphase
    obtain ⟨phase', hphase', -, hevent⟩ := h.current worker (h.only worker phase hworker hphase)
    obtain rfl : phase = phase' := Option.some.inj (hworker.symm.trans hphase')
    rw [decide_eq_false hphase] at hevent
    exact hexited hevent
  refine ⟨fun worker hcurrent => ?_, fun worker phase hworker hphase => ?_, fun hthread => ?_,
    fun _ => rfl⟩
  · cases hcurrent
  · exact absurd (hended worker phase hworker) hphase
  · exact absurd rfl hthread

/-- Every step but a wait that times out keeps the object sound. -/
theorem Sound.step (h : s.Sound) {a : ThreadAction} (hok : ¬ s.TimesOut a)
    (hstep : s.step a = some t) : t.Sound := by
  cases a with
  | startThread created =>
    simp only [ThreadObject.step, Option.ite_none_left_eq_some, Option.some.injEq] at hstep
    exact hstep.2 ▸ h.startThread created
  | stopThread =>
    simp only [ThreadObject.step, Option.ite_none_left_eq_some, Option.some.injEq] at hstep
    exact hstep.2 ▸ h.stopThread
  | waited timedOut =>
    simp only [ThreadObject.step, Option.ite_none_right_eq_some, Option.some.injEq] at hstep
    obtain ⟨⟨hstopping, htimedOut⟩, rfl⟩ := hstep
    refine h.waited fun hexited => hok ⟨?_, hstopping, hexited⟩
    rw [htimedOut, decide_eq_true hexited]
  | shouldExit worker =>
    simp only [ThreadObject.step, Option.ite_none_right_eq_some, Option.some.injEq] at hstep
    obtain ⟨hworker, rfl⟩ := hstep
    split
    · exact h.leave hworker
    · exact h
  | leave worker =>
    simp only [ThreadObject.step, Option.ite_none_right_eq_some, Option.some.injEq] at hstep
    exact hstep.2 ▸ h.leave hstep.1
  | setExited worker =>
    simp only [ThreadObject.step, Option.ite_none_right_eq_some, Option.some.injEq] at hstep
    exact hstep.2 ▸ h.setExited hstep.1
  | startFromWorker worker created =>
    simp only [ThreadObject.step, Option.ite_none_right_eq_some, Option.some.injEq] at hstep
    exact hstep.2 ▸ h.startThread created

/-- Exactly the waits that time out leave a worker behind. -/
theorem Sound.step_keepsAlone_iff (h : s.Sound) (a : ThreadAction) :
    s.KeepsAlone a ↔ ¬ s.TimesOut a := by
  constructor
  · rintro hkeeps ⟨rfl, hstopping, hexited⟩
    have hstep : s.step (.waited true) = some s.waited := by
      simp only [ThreadObject.step, hstopping, hexited]
      rfl
    cases hthread : s.thread with
    | none =>
      rw [h.idle hthread] at hstopping
      cases hstopping
    | some worker =>
      obtain ⟨phase, hphase, -, hevent⟩ := h.current worker hthread
      have hrunning : phase ≠ .ended := by
        rintro rfl
        rw [hevent] at hexited
        cases hexited
      have hleft := (hkeeps _ hstep worker phase hphase hrunning).1
      cases hleft
  · intro hok t hstep
    exact (h.step hok hstep).alone

/-- The runs of a new object. -/
def machine : Machine ThreadObject ThreadAction where
  initial s := s = {}
  step := ThreadObject.step

/-- A new object has no worker. -/
theorem sound_new : ({} : ThreadObject).Sound where
  current worker hthread := by cases hthread
  only worker phase hworker := by cases hworker
  distinct hthread := absurd rfl hthread
  idle _ := rfl

/-- In a run every worker that has not ended is the one of the object, with open events, after every
step exactly if no wait in `stopThread` times out. So at most one worker runs at a time, and none once
`stopThread` has returned. -/
theorem keepsAlone_iff (as : List ThreadAction) :
    machine.Along KeepsAlone {} as ↔ machine.Along (fun s a => ¬ s.TimesOut a) {} as :=
  Machine.along_iff_along (fun _ a h => h.step_keepsAlone_iff a) (fun _ _ _ h hok hstep => h.step hok hstep)
    sound_new as

/-- A worker that is slow to look at its event is still there when the next one is started. -/
theorem slow_worker_left :
    ¬ machine.Along KeepsAlone {} [.startThread true, .stopThread, .waited true, .startThread true] := by
  rw [keepsAlone_iff]
  intro h
  exact h.2.2.1 ⟨rfl, rfl, rfl⟩

/-- A wait behind which no worker is left returns. -/
theorem run_waited (h : s.Sound) (hstopping : s.stopping = true) {worker : ℕ}
    (hthread : s.thread = some worker) (hended : s.workers worker = some .ended) :
    machine.run s [.waited false] = some s.waited := by
  obtain ⟨phase, hphase, -, hexited⟩ := h.current worker hthread
  obtain rfl : WorkerPhase.ended = phase := Option.some.inj (hended.symm.trans hphase)
  have hstep : machine.step s (.waited false) = some s.waited := by
    simp [machine, ThreadObject.step, hstopping, hexited]
  rw [Machine.run_cons hstep]
  rfl

/-- A worker behind its `threadProc` ends, and the wait returns. -/
theorem run_setExited (h : s.Sound) (hstopping : s.stopping = true) {worker : ℕ}
    (hreturned : s.workers worker = some .returned) :
    ∃ t, machine.run s [.setExited worker, .waited false] = some t ∧ t.thread = none := by
  have hthread := h.only worker .returned hreturned (by simp)
  have hstep : machine.step s (.setExited worker) =
      some ((s.setEvent s.exitedEvent).moveTo worker .ended) := if_pos hreturned
  have hlast := run_waited (h.setExited hreturned) hstopping hthread (Function.update_self _ _ _)
  exact ⟨_, (Machine.run_cons hstep _).trans hlast, rfl⟩

/-- In a run without a wait that times out, `stopThread` returns without one as well: it is enough that
the worker looks at its event once more and ends. -/
theorem stopThread_returns {before : List ThreadAction}
    (hok : machine.Along (fun s a => ¬ s.TimesOut a) {} before)
    (hrun : machine.run {} before = some s) (hstopping : s.stopping = false) {worker : ℕ}
    (hthread : s.thread = some worker) :
    ∃ later t, later ⊆ [.shouldExit worker, .setExited worker] ∧
      machine.run s (.stopThread :: (later ++ [.waited false])) = some t ∧ t.thread = none := by
  have h : s.Sound := hok.invariant (fun _ _ _ h hok hstep => h.step hok hstep) sound_new hrun
  have hstep : machine.step s .stopThread = some s.stopThread := by
    simp [machine, ThreadObject.step, hstopping]
  have hasked : s.stopThread = { s.setEvent s.exitEvent with stopping := true } :=
    if_neg (by rw [hthread]; simp)
  have hstopped := h.stopThread
  have hstopping' : s.stopThread.stopping = true := by rw [hasked]
  have hthread' : s.stopThread.thread = some worker := by rw [hasked]; exact hthread
  obtain ⟨phase, hphase, hexit, -⟩ := hstopped.current worker hthread'
  cases phase with
  | running =>
    have hlook : machine.step s.stopThread (.shouldExit worker) =
        some (s.stopThread.moveTo worker .returned) := by
      simp only [machine, ThreadObject.step, hphase, if_true, hexit, hstopping']
    have hreturned : (s.stopThread.moveTo worker .returned).workers worker = some .returned :=
      Function.update_self _ _ _
    obtain ⟨t, ht, hnone⟩ := run_setExited (hstopped.leave hphase) hstopping' hreturned
    refine ⟨[.shouldExit worker, .setExited worker], t, List.Subset.refl _, ?_, hnone⟩
    exact (Machine.run_cons hstep _).trans ((Machine.run_cons hlook _).trans ht)
  | returned =>
    obtain ⟨t, ht, hnone⟩ := run_setExited hstopped hstopping' hphase
    refine ⟨[.setExited worker], t, by simp, ?_, hnone⟩
    exact (Machine.run_cons hstep _).trans ht
  | ended =>
    refine ⟨[], s.stopThread.waited, by simp, ?_, rfl⟩
    exact (Machine.run_cons hstep _).trans (run_waited hstopped hstopping' hthread' hphase)

/-- A worker that has started its own thread once more is stopped. -/
theorem stopThread_returns_started :
    ∃ s later t, machine.run {} [.startThread true, .startFromWorker 0 true] = some s ∧
      machine.run s (.stopThread :: (later ++ [.waited false])) = some t ∧ t.thread = none := by
  have hrun : machine.run {} [.startThread true, .startFromWorker 0 true] = some _ := rfl
  have hok : machine.Along (fun s a => ¬ s.TimesOut a) {}
      [.startThread true, .startFromWorker 0 true] := by
    refine Machine.along_of_forall (fun a ha s htimesOut => ?_) _
    rw [htimesOut.1] at ha
    revert ha
    decide
  obtain ⟨later, t, -, ht, hnone⟩ := stopThread_returns hok hrun rfl rfl
  exact ⟨_, later, t, hrun, ht, hnone⟩

end ThreadObject

end Multicrew.Core
