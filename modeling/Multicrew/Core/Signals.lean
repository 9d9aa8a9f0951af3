import Mathlib.Data.List.Nodup
import Mathlib.Logic.Function.Basic
import Multicrew.Library.Machine
import Multicrew.Library.Table

/-!
# Signals and slots

A signal keeps a list of callbacks and a list of slots, a slot a pointer to its signal. `Slot` to
`Slot4` and `Signal` to `Signal4` have the same bodies, so one of each is modelled. Objects are
numbered like addresses, which may be used again; the callback of a slot's adapter has the number of
the slot. A call through a null or dangling pointer fails, and nothing happens after it.
-/

namespace Multicrew.Core

open Multicrew.Library

/-- `Signal` -/
structure Signal where
  callbacks : List ℕ := []
  slots : List ℕ := []
  deriving DecidableEq, Repr

namespace Signal

/-- `Signal::connect` -/
def connect (d : Signal) (callback slot : ℕ) : Signal where
  callbacks := d.callbacks ++ [callback]
  slots := d.slots ++ [slot]

/-- `Signal::disconnect`; `std::list::remove` takes out every occurrence. -/
def disconnect (d : Signal) (callback slot : ℕ) : Signal where
  callbacks := d.callbacks.filter (· ≠ callback)
  slots := d.slots.filter (· ≠ slot)

end Signal

/-- The signals and slots that are alive; of a slot its signal pointer is kept, and when it was
connected last. -/
structure SignalState where
  signals : ℕ → Option Signal := fun _ => none
  slots : ℕ → Option (Option ℕ) := fun _ => none
  since : ℕ → ℕ := fun _ => 0
  clock : ℕ := 0
  failed : Bool := false

/-- The operations of the two classes. -/
inductive SignalAction
  | newSignal (g : ℕ)
  | newSlot (slot : ℕ) (signal : Option ℕ)
  | connect (slot : ℕ) (signal : Option ℕ)
  | disconnect (slot : ℕ)
  | destroySlot (slot : ℕ)
  | destroySignal (g : ℕ)
  deriving DecidableEq, Repr

namespace SignalState

variable (s : SignalState)

/-- `signal->disconnect( adapter.callback(), this )` through a pointer. -/
def signalDisconnect (signal : Option ℕ) (slot : ℕ) : SignalState :=
  match signal.bind fun g => (s.signals g).map (g, ·) with
  | none => { s with failed := true }
  | some (g, d) => { s with signals := Function.update s.signals g (some (d.disconnect slot slot)) }

/-- `signal->connect( adapter.callback(), this )` through a pointer. -/
def signalConnect (signal : Option ℕ) (slot : ℕ) : SignalState :=
  match signal.bind fun g => (s.signals g).map (g, ·) with
  | none => { s with failed := true }
  | some (g, d) =>
    { s with
      signals := Function.update s.signals g (some (d.connect slot slot))
      since := Function.update s.since slot s.clock
      clock := s.clock + 1 }

/-- A slot with another signal pointer, or without the slot. -/
def setSlot (slot : ℕ) (place : Option (Option ℕ)) : SignalState :=
  { s with slots := Function.update s.slots slot place }

/-- `Slot::Slot` -/
def newSlot (slot : ℕ) (signal : Option ℕ) : SignalState :=
  let s := s.setSlot slot (some signal)
  if signal.isSome then s.signalConnect signal slot else s

/-- `Slot::connect` of a slot with the pointer `this->signal`. -/
def connect (slot : ℕ) (current signal : Option ℕ) : SignalState :=
  -- the argument hides the member of the same name
  let s := if current.isSome then s.signalDisconnect signal slot else s
  let s := s.setSlot slot (some signal)
  if signal.isSome then s.signalConnect signal slot else s

/-- `Slot::disconnect` -/
def disconnect (slot : ℕ) (current : Option ℕ) : SignalState :=
  (if current.isSome then s.signalDisconnect current slot else s).setSlot slot (some none)

/-- `Slot::~Slot` -/
def destroySlot (slot : ℕ) (current : Option ℕ) : SignalState :=
  (if current.isSome then s.signalDisconnect current slot else s).setSlot slot none

/-- The loop of `Signal::~Signal` over its list of slots. A slot that disconnects from this signal
is taken out of the list behind the iterator; if it comes right again, the iterator dangles. -/
def destroyLoop (g : ℕ) (s : SignalState) (removed : List ℕ) : List ℕ → SignalState
  | [] => s
  | slot :: rest =>
    if slot ∈ removed then destroyLoop g s removed rest
    else match s.slots slot with
      | none => { s with failed := true }
      | some current =>
        let s := s.disconnect slot current
        if current = some g then
          if rest.head? = some slot then { s with failed := true }
          else destroyLoop g s (slot :: removed) rest
        else destroyLoop g s removed rest

/-- `Signal::~Signal` -/
def destroySignal (g : ℕ) (d : Signal) : SignalState :=
  let s := destroyLoop g s [] d.slots
  { s with signals := Function.update s.signals g none }

/-- The callbacks `Signal::emit` invokes, in order. -/
def emit (g : ℕ) : List ℕ := (s.signals g).elim [] (·.callbacks)

/-- A pointer the caller may pass: null, or a signal that is alive. -/
def Valid (signal : Option ℕ) : Bool := signal.all fun g => (s.signals g).isSome

/-- One operation on objects that are alive. -/
def step (s : SignalState) (a : SignalAction) : Option SignalState :=
  if s.failed then none
  else match a with
    | .newSignal g =>
      match s.signals g with
      | none => some { s with signals := Function.update s.signals g (some {}) }
      | some _ => none
    | .newSlot slot signal =>
      match s.slots slot with
      | none => if s.Valid signal then some (s.newSlot slot signal) else none
      | some _ => none
    | .connect slot signal =>
      match s.slots slot with
      | some current => if s.Valid signal then some (s.connect slot current signal) else none
      | none => none
    | .disconnect slot => (s.slots slot).map (s.disconnect slot)
    | .destroySlot slot => (s.slots slot).map (s.destroySlot slot)
    | .destroySignal g => (s.signals g).map (s.destroySignal g)

end SignalState

/-- No object is there at first. -/
def signalMachine : Machine SignalState SignalAction where
  initial s := s = {}
  step := SignalState.step

namespace SignalState

/-- Signals and slots know of each other, and a signal's lists are those of its slots in the order
they were connected. -/
structure Consistent (s : SignalState) : Prop where
  running : s.failed = false
  both : ∀ g d, s.signals g = some d → ∀ slot, slot ∈ d.slots ↔ s.slots slot = some (some g)
  once : ∀ g d, s.signals g = some d → d.slots.Nodup
  same : ∀ g d, s.signals g = some d → d.callbacks = d.slots
  alive : ∀ slot g, s.slots slot = some (some g) → ∃ d, s.signals g = some d
  order : ∀ g d, s.signals g = some d → d.slots.Pairwise fun a b => s.since a < s.since b
  past : ∀ slot g, s.slots slot = some (some g) → s.since slot < s.clock

variable {s t : SignalState} {slot g : ℕ} {d : Signal}

/-- Emitting reaches exactly the slots connected to the signal, once each and in the order they were
connected. -/
theorem Consistent.emit (hs : s.Consistent) (hd : s.signals g = some d) :
    (∀ slot, slot ∈ s.emit g ↔ s.slots slot = some (some g)) ∧ (s.emit g).Nodup ∧
      (s.emit g).Pairwise fun a b => s.since a < s.since b := by
  have hemit : s.emit g = d.slots := by rw [SignalState.emit, hd, Option.elim_some, hs.same g d hd]
  rw [hemit]
  exact ⟨hs.both g d hd, hs.once g d hd, hs.order g d hd⟩

/-- A slot that is not connected may change as long as it does not become connected. -/
theorem Consistent.setSlot (hs : s.Consistent) (hslot : ∀ g, s.slots slot ≠ some (some g))
    {place : Option (Option ℕ)} (hplace : ∀ g, place ≠ some (some g)) :
    (s.setSlot slot place).Consistent := by
  have hconnected : ∀ k g, (s.setSlot slot place).slots k = some (some g) ↔
      s.slots k = some (some g) := by
    intro k g
    by_cases hk : k = slot
    · subst hk
      simp [SignalState.setSlot, hplace, hslot]
    · simp [SignalState.setSlot, hk]
  exact ⟨hs.running, fun g d hd k => (hs.both g d hd k).trans (hconnected k g).symm, hs.once,
    hs.same, fun k g hk => hs.alive k g ((hconnected k g).mp hk), hs.order,
    fun k g hk => hs.past k g ((hconnected k g).mp hk)⟩

/-- A slot taken out of its signal's lists. -/
theorem Consistent.remove (hs : s.Consistent) (hslot : s.slots slot = some (some g))
    (hd : s.signals g = some d) {place : Option (Option ℕ)} (hplace : ∀ g, place ≠ some (some g)) :
    Consistent { s with
      signals := Function.update s.signals g (some (d.disconnect slot slot))
      slots := Function.update s.slots slot place } := by
  have hconnected : ∀ k g', Function.update s.slots slot place k = some (some g') ↔
      k ≠ slot ∧ s.slots k = some (some g') := by
    intro k g'
    by_cases hk : k = slot
    · subst hk
      simp [hplace]
    · simp [hk]
  -- the lists of each signal before the step
  have hsignals : ∀ g' d', Function.update s.signals g (some (d.disconnect slot slot)) g' =
      some d' → (g' = g ∧ d' = d.disconnect slot slot) ∨ (g' ≠ g ∧ s.signals g' = some d') := by
    intro g' d' hd'
    exact (update_eq_some hd').imp_left fun hnew => ⟨hnew.1, (Option.some.inj hnew.2).symm⟩
  refine ⟨hs.running, fun g' d' hd' k => ?_, fun g' d' hd' => ?_, fun g' d' hd' => ?_,
    fun k g' hk => ?_, fun g' d' hd' => ?_, fun k g' hk => hs.past k g' ((hconnected k g').mp hk).2⟩
  · rw [hconnected]
    rcases hsignals g' d' hd' with ⟨rfl, rfl⟩ | ⟨hg, hd'⟩
    · simp [Signal.disconnect, hs.both g' d hd k, and_comm]
    · rw [hs.both g' d' hd' k]
      refine ⟨fun hk => ⟨fun heq => ?_, hk⟩, fun hk => hk.2⟩
      subst heq
      exact hg (Option.some.inj (Option.some.inj (hk.symm.trans hslot)))
  · rcases hsignals g' d' hd' with ⟨rfl, rfl⟩ | ⟨-, hd'⟩
    · exact (hs.once g' d hd).filter _
    · exact hs.once g' d' hd'
  · rcases hsignals g' d' hd' with ⟨rfl, rfl⟩ | ⟨-, hd'⟩
    · simp only [Signal.disconnect, hs.same g' d hd]
    · exact hs.same g' d' hd'
  · obtain ⟨d', hd'⟩ := hs.alive k g' ((hconnected k g').mp hk).2
    by_cases hg : g' = g
    · subst hg
      exact ⟨_, Function.update_self ..⟩
    · exact ⟨d', (Function.update_of_ne hg ..).trans hd'⟩
  · rcases hsignals g' d' hd' with ⟨rfl, rfl⟩ | ⟨-, hd'⟩
    · exact (hs.order g' d hd).filter _
    · exact hs.order g' d' hd'

/-- A slot put at the end of a signal's lists. -/
theorem Consistent.insert (hs : s.Consistent) (hslot : ∀ g, s.slots slot ≠ some (some g))
    (hd : s.signals g = some d) :
    Consistent { s with
      signals := Function.update s.signals g (some (d.connect slot slot))
      slots := Function.update s.slots slot (some (some g))
      since := Function.update s.since slot s.clock
      clock := s.clock + 1 } := by
  have hconnected : ∀ k g', Function.update s.slots slot (some (some g)) k = some (some g') ↔
      (k = slot ∧ g' = g) ∨ s.slots k = some (some g') := by
    intro k g'
    by_cases hk : k = slot
    · subst hk
      simp [hslot, eq_comm]
    · simp [hk]
  have hsignals : ∀ g' d', Function.update s.signals g (some (d.connect slot slot)) g' =
      some d' → (g' = g ∧ d' = d.connect slot slot) ∨ (g' ≠ g ∧ s.signals g' = some d') := by
    intro g' d' hd'
    exact (update_eq_some hd').imp_left fun hnew => ⟨hnew.1, (Option.some.inj hnew.2).symm⟩
  have hnotin : ∀ g' d', s.signals g' = some d' → slot ∉ d'.slots := fun g' d' hd' hin =>
    hslot g' ((hs.both g' d' hd' slot).mp hin)
  -- the other slots were connected when they were
  have hsince : ∀ k g', s.slots k = some (some g') →
      Function.update s.since slot s.clock k = s.since k := by
    intro k g' hk
    refine Function.update_of_ne (fun heq => ?_) ..
    subst heq
    exact hslot g' hk
  have horder : ∀ g' d', s.signals g' = some d' → d'.slots.Pairwise fun a b =>
      Function.update s.since slot s.clock a < Function.update s.since slot s.clock b := by
    intro g' d' hd'
    refine (hs.order g' d' hd').imp_of_mem fun ha hb hab => ?_
    rwa [hsince _ g' ((hs.both g' d' hd' _).mp ha), hsince _ g' ((hs.both g' d' hd' _).mp hb)]
  refine ⟨hs.running, fun g' d' hd' k => ?_, fun g' d' hd' => ?_, fun g' d' hd' => ?_,
    fun k g' hk => ?_, fun g' d' hd' => ?_, fun k g' hk => ?_⟩
  · rw [hconnected]
    rcases hsignals g' d' hd' with ⟨rfl, rfl⟩ | ⟨hg, hd'⟩
    · simp [Signal.connect, hs.both g' d hd k, or_comm]
    · rw [hs.both g' d' hd' k]
      simp [hg]
  · rcases hsignals g' d' hd' with ⟨rfl, rfl⟩ | ⟨-, hd'⟩
    · refine List.nodup_append.mpr ⟨hs.once g' d hd, List.nodup_singleton slot, ?_⟩
      intro a ha b hb heq
      exact hnotin g' d hd (List.mem_singleton.mp hb ▸ heq ▸ ha)
    · exact hs.once g' d' hd'
  · rcases hsignals g' d' hd' with ⟨rfl, rfl⟩ | ⟨-, hd'⟩
    · simp only [Signal.connect, hs.same g' d hd]
    · exact hs.same g' d' hd'
  · by_cases hg : g' = g
    · subst hg
      exact ⟨_, Function.update_self ..⟩
    · rcases (hconnected k g').mp hk with ⟨-, heq⟩ | hold
      · exact absurd heq hg
      · obtain ⟨d', hd'⟩ := hs.alive k g' hold
        exact ⟨d', (Function.update_of_ne hg ..).trans hd'⟩
  · rcases hsignals g' d' hd' with ⟨rfl, rfl⟩ | ⟨-, hd'⟩
    · refine List.pairwise_append.mpr ⟨horder g' d hd, List.pairwise_singleton .., ?_⟩
      intro a ha b hb
      have hconn := (hs.both g' d hd a).mp ha
      obtain rfl := List.mem_singleton.mp hb
      simpa only [hsince a g' hconn, Function.update_self] using hs.past a g' hconn
    · exact horder g' d' hd'
  · rcases (hconnected k g').mp hk with ⟨rfl, -⟩ | hold
    · simp
    · have hpast := hs.past k g' hold
      simp only [hsince k g' hold]
      omega

/-- A signal made where none is. -/
theorem Consistent.newSignal (hs : s.Consistent) (hnone : s.signals g = none) :
    Consistent { s with signals := Function.update s.signals g (some {}) } := by
  have hfree : ∀ slot, s.slots slot ≠ some (some g) := by
    intro slot hslot
    obtain ⟨d, hd⟩ := hs.alive slot g hslot
    cases hnone.symm.trans hd
  have hsignals : ∀ g' d', Function.update s.signals g (some {}) g' = some d' →
      (g' = g ∧ d' = {}) ∨ s.signals g' = some d' := by
    intro g' d' hd'
    exact (update_eq_some hd').imp (fun hnew => ⟨hnew.1, (Option.some.inj hnew.2).symm⟩)
      fun hold => hold.2
  refine ⟨hs.running, fun g' d' hd' k => ?_, fun g' d' hd' => ?_, fun g' d' hd' => ?_,
    fun k g' hk => ?_, fun g' d' hd' => ?_, hs.past⟩
  · rcases hsignals g' d' hd' with ⟨rfl, rfl⟩ | hd'
    · simp [hfree]
    · exact hs.both g' d' hd' k
  · rcases hsignals g' d' hd' with ⟨rfl, rfl⟩ | hd'
    · exact List.nodup_nil
    · exact hs.once g' d' hd'
  · rcases hsignals g' d' hd' with ⟨rfl, rfl⟩ | hd'
    · rfl
    · exact hs.same g' d' hd'
  · obtain ⟨d', hd'⟩ := hs.alive k g' hk
    have hg : g' ≠ g := fun heq => hfree k (heq ▸ hk)
    exact ⟨d', (Function.update_of_ne hg ..).trans hd'⟩
  · rcases hsignals g' d' hd' with ⟨rfl, rfl⟩ | hd'
    · exact List.Pairwise.nil
    · exact hs.order g' d' hd'

/-- A signal without slots may go. -/
theorem Consistent.dropSignal (hs : s.Consistent) (hd : s.signals g = some d)
    (hnil : d.slots = []) :
    Consistent { s with signals := Function.update s.signals g none } := by
  have hsignals : ∀ g' d', Function.update s.signals g none g' = some d' →
      s.signals g' = some d' := by
    intro g' d' hd'
    cases update_eq_some hd' with
    | inl hnew => cases hnew.2
    | inr hold => exact hold.2
  refine ⟨hs.running, fun g' d' hd' => hs.both g' d' (hsignals g' d' hd'),
    fun g' d' hd' => hs.once g' d' (hsignals g' d' hd'),
    fun g' d' hd' => hs.same g' d' (hsignals g' d' hd'), fun k g' hk => ?_,
    fun g' d' hd' => hs.order g' d' (hsignals g' d' hd'), hs.past⟩
  obtain ⟨d', hd'⟩ := hs.alive k g' hk
  have hg : g' ≠ g := by
    rintro rfl
    have hin := (hs.both g' d hd k).mpr hk
    rw [hnil] at hin
    exact List.not_mem_nil hin
  exact ⟨d', (Function.update_of_ne hg ..).trans hd'⟩

/-! ### The operations -/

/-- Disconnecting through a pointer to a signal that is alive. -/
theorem signalDisconnect_some (hd : s.signals g = some d) (slot : ℕ) :
    s.signalDisconnect (some g) slot =
      { s with signals := Function.update s.signals g (some (d.disconnect slot slot)) } := by
  simp [signalDisconnect, hd]

/-- Connecting through a pointer to a signal that is alive. -/
theorem signalConnect_some (hd : s.signals g = some d) (slot : ℕ) :
    s.signalConnect (some g) slot =
      { s with
        signals := Function.update s.signals g (some (d.connect slot slot))
        since := Function.update s.since slot s.clock
        clock := s.clock + 1 } := by
  simp [signalConnect, hd]

/-- A pointer that may be passed is null or to a signal. -/
theorem valid_some (h : s.Valid (some g) = true) : ∃ d, s.signals g = some d :=
  Option.isSome_iff_exists.mp h

/-- Making a slot, and connecting one that is not connected. -/
theorem Consistent.place (hs : s.Consistent) (hslot : ∀ g, s.slots slot ≠ some (some g))
    {signal : Option ℕ} (hvalid : s.Valid signal = true) :
    (if signal.isSome then (s.setSlot slot (some signal)).signalConnect signal slot
      else s.setSlot slot (some signal)).Consistent := by
  cases signal with
  | none => exact hs.setSlot hslot (by simp)
  | some g =>
    obtain ⟨d, hd⟩ := valid_some hvalid
    have hplaced : (s.setSlot slot (some (some g))).signals g = some d := hd
    simp only [Option.isSome_some, if_true, signalConnect_some hplaced]
    exact hs.insert hslot hd

/-- A connected slot, disconnected. -/
theorem disconnect_some (hd : s.signals g = some d) (slot : ℕ) :
    s.disconnect slot (some g) = { s with
      signals := Function.update s.signals g (some (d.disconnect slot slot))
      slots := Function.update s.slots slot (some none) } := by
  simp only [SignalState.disconnect, Option.isSome_some, if_true, signalDisconnect_some hd,
    SignalState.setSlot]

/-- Disconnecting a slot, and destroying it. -/
theorem Consistent.leave (hs : s.Consistent) {current : Option ℕ}
    (hslot : s.slots slot = some current) {place : Option (Option ℕ)}
    (hplace : ∀ g, place ≠ some (some g)) :
    ((if current.isSome then s.signalDisconnect current slot else s).setSlot slot
      place).Consistent := by
  cases current with
  | none => exact hs.setSlot (by simp [hslot]) hplace
  | some g =>
    obtain ⟨d, hd⟩ := hs.alive slot g hslot
    simp only [Option.isSome_some, if_true, signalDisconnect_some hd]
    exact hs.remove hslot hd hplace

/-- Connecting a slot again to the signal it is connected to puts it at the end. -/
theorem Consistent.reconnect (hs : s.Consistent) (hslot : s.slots slot = some (some g)) :
    (s.connect slot (some g) (some g)).Consistent := by
  obtain ⟨d, hd⟩ := hs.alive slot g hslot
  have hremoved := @Consistent.remove s slot g d hs hslot hd (some none) (by simp)
  have hplaced := @Consistent.insert _ slot g (d.disconnect slot slot) hremoved (by simp) (by simp)
  simpa [SignalState.connect, signalDisconnect_some hd, signalConnect,
    SignalState.setSlot] using hplaced

/-- Connecting a slot elsewhere leaves it in the lists of its signal, or fails at null. -/
theorem Consistent.not_connect (hs : s.Consistent) (hslot : s.slots slot = some (some g))
    {signal : Option ℕ} (hvalid : s.Valid signal = true) (hne : signal ≠ some g) :
    ¬ (s.connect slot (some g) signal).Consistent := by
  intro hafter
  cases signal with
  | none =>
    have hfailed : (s.connect slot (some g) none).failed = true := rfl
    rw [hafter.running] at hfailed
    cases hfailed
  | some g' =>
    obtain ⟨d, hd⟩ := hs.alive slot g hslot
    obtain ⟨d', hd'⟩ := valid_some hvalid
    have hg : g ≠ g' := fun heq => hne (heq ▸ rfl)
    -- the signal the slot was connected to is as it was
    have hsignal : (s.connect slot (some g) (some g')).signals g = some d := by
      simp [SignalState.connect, signalDisconnect_some hd', signalConnect, SignalState.setSlot,
        hg, hd]
    have hpointer : (s.connect slot (some g) (some g')).slots slot = some (some g') := by
      simp [SignalState.connect, signalDisconnect_some hd', signalConnect, SignalState.setSlot]
    have hin := (hafter.both g d hsignal slot).mp ((hs.both g d hd slot).mpr hslot)
    rw [hpointer] at hin
    exact hg (Option.some.inj (Option.some.inj hin)).symm

/-- The loop of the destructor takes the slots out one after the other. -/
theorem Consistent.destroyLoop {remaining removed : List ℕ} (hs : s.Consistent)
    (hd : s.signals g = some d) (hremaining : d.slots = remaining)
    (hremoved : ∀ slot ∈ remaining, slot ∉ removed) :
    (SignalState.destroyLoop g s removed remaining).Consistent ∧
      ∃ d', (SignalState.destroyLoop g s removed remaining).signals g = some d' ∧
        d'.slots = [] := by
  induction remaining generalizing s d removed with
  | nil => exact ⟨hs, d, hd, hremaining⟩
  | cons slot rest ih =>
    have hslot : s.slots slot = some (some g) :=
      (hs.both g d hd slot).mp (hremaining ▸ List.mem_cons_self ..)
    have honce := hs.once g d hd
    rw [hremaining, List.nodup_cons] at honce
    have hhead : rest.head? ≠ some slot := fun heq => honce.1 (List.mem_of_mem_head? heq)
    have hnext : (s.disconnect slot (some g)).Consistent := hs.leave hslot (by simp)
    have hd' : (s.disconnect slot (some g)).signals g = some (d.disconnect slot slot) := by
      simp [disconnect_some hd]
    have hrest : (d.disconnect slot slot).slots = rest := by
      have hkept : rest.filter (· ≠ slot) = rest := List.filter_eq_self.mpr fun k hk => by
        simpa using fun heq : k = slot => honce.1 (heq ▸ hk)
      simpa [Signal.disconnect, hremaining] using hkept
    have hnotin : ∀ k ∈ rest, k ∉ slot :: removed := by
      intro k hk hin
      cases List.mem_cons.mp hin with
      | inl heq => exact honce.1 (heq ▸ hk)
      | inr hin => exact hremoved k (List.mem_cons_of_mem _ hk) hin
    simpa only [SignalState.destroyLoop, hslot, if_neg (hremoved slot (List.mem_cons_self ..)),
      if_true, if_neg hhead] using ih hnext hd' hrest hnotin

/-- Destroying a signal. -/
theorem Consistent.destroySignal (hs : s.Consistent) (hd : s.signals g = some d) :
    (s.destroySignal g d).Consistent := by
  obtain ⟨hloop, d', hd', hnil⟩ := hs.destroyLoop hd rfl fun slot _ => @List.not_mem_nil _ slot
  exact hloop.dropSignal hd' hnil

/-- A slot is connected only when it is not connected, or to the signal it is connected to. -/
def ConnectsFresh (s : SignalState) : SignalAction → Prop
  | .connect slot signal => ∀ g ∈ (s.slots slot).join, signal = some g
  | _ => True

instance (s : SignalState) : ∀ a, Decidable (s.ConnectsFresh a)
  | .connect slot signal => inferInstanceAs (Decidable (∀ g ∈ (s.slots slot).join, signal = some g))
  | .newSignal _ | .newSlot .. | .disconnect _ | .destroySlot _ | .destroySignal _ =>
    .isTrue trivial

/-- Connecting keeps the two ends in step exactly when it does not leave another signal. -/
theorem Consistent.connect_iff (hs : s.Consistent) {current signal : Option ℕ}
    (hslot : s.slots slot = some current) (hvalid : s.Valid signal = true) :
    (s.connect slot current signal).Consistent ↔ s.ConnectsFresh (.connect slot signal) := by
  cases current with
  | none =>
    have hfree : ∀ g, s.slots slot ≠ some (some g) := by simp [hslot]
    refine iff_of_true ?_ fun g hg => absurd (Option.join_eq_some_iff.mp hg) (hfree g)
    simpa [SignalState.connect] using hs.place hfree hvalid
  | some g =>
    constructor
    · intro hafter g' hg'
      rw [Option.mem_def, hslot, Option.join_some, Option.some.injEq] at hg'
      by_contra hne
      exact hs.not_connect hslot hvalid (hg' ▸ hne) hafter
    · intro hfresh
      rw [hfresh g (Option.join_eq_some_iff.mpr hslot)]
      exact hs.reconnect hslot

/-- One operation keeps the two ends in step exactly when it connects a fresh slot. -/
theorem Consistent.step_iff (hs : s.Consistent) {a : SignalAction}
    (hstep : signalMachine.step s a = some t) : t.Consistent ↔ s.ConnectsFresh a := by
  have hstep : s.step a = some t := hstep
  simp only [step, hs.running, Bool.false_eq_true, if_false] at hstep
  cases a with
  | newSignal g =>
    cases hd : s.signals g with
    | some d => simp [hd] at hstep
    | none =>
      simp only [hd, Option.some.injEq] at hstep
      have hnext := hs.newSignal hd
      rw [hs.running, hstep] at hnext
      exact iff_of_true hnext trivial
  | newSlot slot signal =>
    cases hslot : s.slots slot with
    | some current => simp [hslot] at hstep
    | none =>
      simp only [hslot, Option.ite_none_right_eq_some, Option.some.injEq] at hstep
      obtain ⟨hvalid, rfl⟩ := hstep
      exact iff_of_true (hs.place (by simp [hslot]) hvalid) trivial
  | connect slot signal =>
    cases hslot : s.slots slot with
    | none => simp [hslot] at hstep
    | some current =>
      simp only [hslot, Option.ite_none_right_eq_some, Option.some.injEq] at hstep
      obtain ⟨hvalid, rfl⟩ := hstep
      exact hs.connect_iff hslot hvalid
  | disconnect slot =>
    obtain ⟨current, hslot, rfl⟩ := Option.map_eq_some_iff.mp hstep
    exact iff_of_true (hs.leave hslot (by simp)) trivial
  | destroySlot slot =>
    obtain ⟨current, hslot, rfl⟩ := Option.map_eq_some_iff.mp hstep
    exact iff_of_true (hs.leave hslot (by simp)) trivial
  | destroySignal g =>
    obtain ⟨d, hd, rfl⟩ := Option.map_eq_some_iff.mp hstep
    exact iff_of_true (hs.destroySignal hd) trivial

/-- Nothing is connected at first. -/
theorem consistent_initial : ({} : SignalState).Consistent :=
  ⟨rfl, by simp, by simp, by simp, by simp, by simp, by simp⟩

/-- In a run every state is consistent exactly when every slot that is connected is not connected
elsewhere; each signal then reaches its slots once, in the order they were connected. -/
theorem consistent_iff_connectsFresh {as : List SignalAction}
    (h : signalMachine.run {} as = some t) :
    (signalMachine.Throughout Consistent {} as ↔ signalMachine.Along ConnectsFresh {} as) ∧
      (signalMachine.Along ConnectsFresh {} as → ∀ g d, t.signals g = some d →
        (∀ slot, slot ∈ t.emit g ↔ t.slots slot = some (some g)) ∧ (t.emit g).Nodup ∧
          (t.emit g).Pairwise fun a b => t.since a < t.since b) := by
  have hexact : ∀ s a t, signalMachine.Reachable s → s.Consistent →
      signalMachine.step s a = some t → (t.Consistent ↔ s.ConnectsFresh a) :=
    fun s a t _ hs hstep => hs.step_iff hstep
  have hiff := signalMachine.throughout_iff_along hexact (.initial rfl) consistent_initial h
  exact ⟨hiff, fun hok g d hd => ((hiff.mpr hok).last h).emit hd⟩

/-- Two slots on one signal, of which the first is connected again, and the signal is destroyed. -/
def reconnectRun : List SignalAction :=
  [.newSignal 0, .newSlot 0 (some 0), .newSlot 1 (some 0), .connect 0 (some 0), .newSlot 2 none,
    .connect 2 (some 0), .disconnect 1, .newSignal 1, .destroySignal 0, .connect 0 (some 1)]

/-- Every state of it is consistent, and the slot on the other signal is the one called. -/
theorem consistent_iff_connectsFresh_reconnectRun :
    ∃ t, signalMachine.run {} reconnectRun = some t ∧
      signalMachine.Throughout Consistent {} reconnectRun ∧ t.emit 1 = [0] ∧
        (t.emit 1).Nodup := by
  obtain ⟨t, ht⟩ := Option.isSome_iff_exists.mp
    (by decide : (signalMachine.run {} reconnectRun).isSome = true)
  have hboth := consistent_iff_connectsFresh ht
  have hok : signalMachine.Along ConnectsFresh {} reconnectRun := by decide
  have hemit : (signalMachine.run {} reconnectRun).map (·.emit 1) = some [0] := by decide
  have hone : (signalMachine.run {} reconnectRun).map (fun t => (t.signals 1).isSome) =
      some true := by decide
  rw [ht] at hemit hone
  obtain ⟨d, hd⟩ := Option.isSome_iff_exists.mp (Option.some.inj hone)
  exact ⟨t, ht, hboth.1.mpr hok, Option.some.inj hemit, (hboth.2 hok 1 d hd).2.1⟩

/-- A slot moved from one signal to another and destroyed. -/
def moveRun : List SignalAction :=
  [.newSignal 0, .newSignal 1, .newSlot 0 (some 0), .connect 0 (some 1), .destroySlot 0]

/-- The first signal keeps its callback when the slot is gone, and connecting to null fails. -/
theorem moveRun_leaves_callback :
    (∃ t, signalMachine.run {} moveRun = some t ∧ t.emit 0 = [0] ∧ t.slots 0 = none ∧
      ¬ t.Consistent) ∧
      ∃ t, signalMachine.run {} [.newSignal 0, .newSlot 0 (some 0), .connect 0 none] = some t ∧
        t.failed = true := by
  constructor
  · obtain ⟨t, ht⟩ := Option.isSome_iff_exists.mp
      (by decide : (signalMachine.run {} moveRun).isSome = true)
    have hsignal : (signalMachine.run {} moveRun).map (·.signals 0) = some (some ⟨[0], [0]⟩) := by
      decide
    have hslot : (signalMachine.run {} moveRun).map (·.slots 0) = some none := by decide
    rw [ht] at hsignal hslot
    have hd : t.signals 0 = some ⟨[0], [0]⟩ := Option.some.inj hsignal
    have hgone : t.slots 0 = none := Option.some.inj hslot
    refine ⟨t, ht, by rw [SignalState.emit, hd]; rfl, hgone, fun hs => ?_⟩
    have hin := (hs.both 0 _ hd 0).mp (List.mem_singleton_self 0)
    rw [hgone] at hin
    cases hin
  · exact ⟨_, rfl, rfl⟩

end SignalState

end Multicrew.Core
