import Multicrew.Core.ChannelProtocol
import Multicrew.Library.Bytes
import Multicrew.Library.Machine

/-!
# Connections and the report of their end

A connection that becomes disconnected asks for an asynchronous callback and holds itself alive until
then; the callback reports the reason and lets go. The reason is whatever text was given last, and
the core's set of callees holds the connection at most once, so what happens between the two matters.
-/

namespace Multicrew.Core

open Multicrew.Library

/-- `Connection::State` -/
inductive ConnectionState
  | idle
  | connecting
  | connected
  | disconnected
  deriving DecidableEq, Repr

/-- The arguments of `Connection::setState`. -/
structure SetState where
  state : ConnectionState
  error : Str := []
  deriving DecidableEq, Repr

/-- `Connection::Data`, with whether the thread runs. -/
structure Connection where
  error : Str := []
  state : ConnectionState := .idle
  thread : Bool := false
  deriving DecidableEq, Repr

namespace Connection

variable (c : Connection)

/-- `Connection::setState` on the data of the connection. -/
def setState (call : SetState) : Connection :=
  let c := { c with error := call.error }
  if call.state = c.state then c
  else
    match call.state with
    | .idle => { c with state := .idle, thread := false }
    | .connecting => { c with state := .connecting, thread := true }
    | .connected => { c with state := .connected, thread := true }
    | .disconnected => { c with state := .disconnected }

/-- The call makes a connection disconnected that was not: `ref` and `triggerAsyncCallback`. -/
def Disconnects (call : SetState) : Prop := call.state = .disconnected ∧ c.state ≠ .disconnected

instance (call : SetState) : Decidable (c.Disconnects call) :=
  inferInstanceAs (Decidable (_ ∧ _))

/-- The state a call asks for is the state afterwards. -/
@[simp] theorem setState_state (call : SetState) : (c.setState call).state = call.state := by
  cases hstate : call.state <;> simp only [setState, hstate] <;> split <;> simp_all

/-- The text of a call replaces the one before, whether the state changes or not. -/
@[simp] theorem setState_error (call : SetState) : (c.setState call).error = call.error := by
  cases hstate : call.state <;> simp only [setState, hstate] <;> split <;> rfl

end Connection

/-- A connection and its place in the core's set of callees. `ref` and `deref` are counted; `owed`
are the texts of the disconnections since `callbackAsync` ran last. -/
structure ConnectionRun where
  con : Connection := {}
  asyncCallee : Bool := false
  refs : ℕ := 0
  derefs : ℕ := 0
  owed : List Str := []
  deriving DecidableEq, Repr

/-- What happens to a connection. The slots that hear of the disconnection may set the state. -/
inductive ConnectionAction
  | setState (call : SetState)
  | callbackAsync (slots : List SetState)
  deriving DecidableEq, Repr

namespace ConnectionRun

variable (s : ConnectionRun)

/-- `Connection::setState` -/
def setState (call : SetState) : ConnectionRun :=
  let t := { s with con := s.con.setState call }
  if s.con.Disconnects call then
    { t with refs := t.refs + 1, asyncCallee := true, owed := t.owed ++ [call.error] }
  else t

/-- What `disconnected.emit` tells during `callbackAsync`. -/
def emitted : List Str := if s.asyncCallee then [s.con.error] else []

/-- `MulticrewCoreImpl::callbackAsync` with `Connection::asyncCallback`, if the connection is in the
set, and with the calls of the slots. -/
def callbackAsync (slots : List SetState) : ConnectionRun :=
  let s := { s with owed := [] }
  if s.asyncCallee then
    let t := slots.foldl setState s
    { t with derefs := t.derefs + 1, asyncCallee := false }
  else s

/-- One step. -/
def step : ConnectionAction → Option ConnectionRun
  | .setState call => some (s.setState call)
  | .callbackAsync slots => some (s.callbackAsync slots)

/-- The references taken and not given back: one while a callback is asked for. -/
def Balanced : Prop := (s.refs : ℤ) - s.derefs = if s.asyncCallee then 1 else 0

instance : Decidable s.Balanced := inferInstanceAs (Decidable (_ = _))

/-- `callbackAsync` tells of every disconnection since the last one, once and with its text. -/
def Reports : ConnectionAction → Prop
  | .setState _ => True
  | .callbackAsync _ => s.emitted = s.owed

/-- None of the calls makes a connection disconnected that is not. -/
def NoneDisconnects (c : Connection) : List SetState → Prop
  | [] => True
  | call :: rest => ¬ c.Disconnects call ∧ NoneDisconnects (c.setState call) rest

/-- The connection is not disconnected a second time before `callbackAsync` ran, nor by the slots it
calls, and the text given last before it is that of the disconnection. -/
def Undisturbed : ConnectionAction → Prop
  | .setState call => s.con.Disconnects call → s.owed = []
  | .callbackAsync slots =>
    s.owed ≠ [] → (∀ reason ∈ s.owed, reason = s.con.error) ∧ NoneDisconnects s.con slots

end ConnectionRun

/-- A connection from its construction on. -/
def connectionMachine : Machine ConnectionRun ConnectionAction where
  initial s := s = {}
  step := ConnectionRun.step

namespace ConnectionRun

variable {s t : ConnectionRun}

/-- A callback is asked for exactly while one disconnection is not reported. -/
structure Sound (s : ConnectionRun) : Prop where
  owed : s.owed.length = if s.asyncCallee then 1 else 0
  balanced : s.Balanced

/-- Nothing is owed exactly while no callback is registered. -/
theorem Sound.owed_eq_nil (hs : s.Sound) : s.owed = [] ↔ s.asyncCallee = false := by
  have howed := hs.owed
  rw [← List.length_eq_zero_iff, howed]
  cases s.asyncCallee <;> simp

/-- What one call of `setState` does besides setting the state. -/
theorem setState_cases (s : ConnectionRun) (call : SetState) :
    (¬ s.con.Disconnects call ∧ s.setState call = { s with con := s.con.setState call }) ∨
      (s.con.Disconnects call ∧ s.setState call =
        { s with
          con := s.con.setState call
          refs := s.refs + 1
          asyncCallee := true
          owed := s.owed ++ [call.error] }) := by
  by_cases h : s.con.Disconnects call
  · exact .inr ⟨h, if_pos h⟩
  · exact .inl ⟨h, if_neg h⟩

/-- The references are balanced after a call unless it disconnects a second time. -/
theorem Sound.setState_balanced (hs : s.Sound) (call : SetState) :
    (s.setState call).Balanced ↔ s.Undisturbed (.setState call) := by
  have hbalanced := hs.balanced
  obtain ⟨hnot, heq⟩ | ⟨hdisconnects, heq⟩ := setState_cases s call
  · simp only [Undisturbed, hnot, false_implies, iff_true, heq]
    exact hbalanced
  · simp only [Undisturbed, hdisconnects, true_implies, hs.owed_eq_nil, heq]
    unfold Balanced at hbalanced ⊢
    push_cast
    cases hcallee : s.asyncCallee with
    | false =>
      rw [hcallee, if_neg Bool.false_ne_true] at hbalanced
      simp only [if_true, iff_true]
      omega
    | true =>
      rw [hcallee, if_pos rfl] at hbalanced
      simp only [if_true, Bool.true_eq_false, iff_false]
      omega

/-- A call that may be made keeps the invariant. -/
theorem Sound.setState (hs : s.Sound) {call : SetState} (hok : s.Undisturbed (.setState call)) :
    (s.setState call).Sound := by
  refine ⟨?_, (hs.setState_balanced call).mpr hok⟩
  obtain ⟨-, heq⟩ | ⟨hdisconnects, heq⟩ := setState_cases s call
  · rw [heq]
    exact hs.owed
  · rw [heq]
    simp only [hok hdisconnects, List.nil_append, List.length_singleton, if_true]

/-- The calls of the slots take a reference for each disconnection and give none back. -/
theorem slots_refs (s : ConnectionRun) (slots : List SetState) :
    s.refs ≤ (slots.foldl ConnectionRun.setState s).refs ∧
      ((slots.foldl ConnectionRun.setState s).refs = s.refs ↔ NoneDisconnects s.con slots) ∧
      (slots.foldl ConnectionRun.setState s).derefs = s.derefs ∧
      (NoneDisconnects s.con slots → (slots.foldl ConnectionRun.setState s).owed = s.owed) := by
  induction slots generalizing s with
  | nil => simp [NoneDisconnects]
  | cons call rest ih =>
    obtain ⟨hle, hrefs, hderefs, howed⟩ := ih (s.setState call)
    rw [List.foldl_cons]
    obtain ⟨hnot, heq⟩ | ⟨hdisconnects, heq⟩ := setState_cases s call
    · rw [heq] at hle hrefs hderefs howed ⊢
      refine ⟨hle, ?_, hderefs, fun h => howed h.2⟩
      simp only [hrefs, NoneDisconnects, hnot, not_false_eq_true, true_and]
    · have hmore : (s.setState call).refs = s.refs + 1 := by rw [heq]
      have hsame : (s.setState call).derefs = s.derefs := by rw [heq]
      simp only [NoneDisconnects, hdisconnects, not_true_eq_false, false_and, iff_false,
        false_implies, and_true]
      exact ⟨by omega, by omega, hderefs.trans hsame⟩

/-- A connection in the set is called, and everything its slots do comes before the reference is
given back and the set is cleared. -/
theorem callbackAsync_of_callee (hcallee : s.asyncCallee = true) (slots : List SetState) :
    s.callbackAsync slots =
      { slots.foldl ConnectionRun.setState { s with owed := [] } with
        derefs := (slots.foldl ConnectionRun.setState { s with owed := [] }).derefs + 1
        asyncCallee := false } :=
  if_pos hcallee

/-- `callbackAsync` reports and balances exactly when nothing has disturbed the disconnection. -/
theorem Sound.callbackAsync_iff (hs : s.Sound) (slots : List SetState) :
    (s.Reports (.callbackAsync slots) ∧ (s.callbackAsync slots).Balanced) ↔
      s.Undisturbed (.callbackAsync slots) := by
  have hbalanced := hs.balanced
  have howed := hs.owed
  cases hcallee : s.asyncCallee with
  | false =>
    have hnil := hs.owed_eq_nil.mpr hcallee
    simp only [Reports, emitted, Undisturbed, ConnectionRun.callbackAsync, hcallee, hnil,
      Bool.false_eq_true, if_false, ne_eq, not_true_eq_false, false_implies, true_and, iff_true]
    unfold Balanced at hbalanced ⊢
    rwa [hcallee] at hbalanced
  | true =>
    rw [hcallee, if_pos rfl] at howed
    obtain ⟨reason, hreason⟩ := List.length_eq_one_iff.mp howed
    obtain ⟨hle, hrefs, hderefs, -⟩ := slots_refs { s with owed := [] } slots
    unfold Balanced at hbalanced
    rw [hcallee, if_pos rfl] at hbalanced
    have hafter : (s.callbackAsync slots).Balanced ↔ NoneDisconnects s.con slots := by
      rw [← hrefs, callbackAsync_of_callee hcallee]
      simp only [Balanced, hderefs, Bool.false_eq_true, if_false]
      push_cast
      omega
    simp only [Reports, emitted, Undisturbed, hcallee, if_true, hreason, hafter, ne_eq,
      List.cons_ne_nil, not_false_eq_true, true_implies, List.mem_singleton, forall_eq,
      List.cons.injEq, and_true]
    exact and_congr_left fun _ => eq_comm

/-- A `callbackAsync` that may run keeps the invariant. -/
theorem Sound.callbackAsync (hs : s.Sound) {slots : List SetState}
    (hok : s.Undisturbed (.callbackAsync slots)) : (s.callbackAsync slots).Sound := by
  refine ⟨?_, ((hs.callbackAsync_iff slots).mpr hok).2⟩
  cases hcallee : s.asyncCallee with
  | false => simp [ConnectionRun.callbackAsync, hcallee]
  | true =>
    have hnone := (hok (fun hnil => by simp [hs.owed_eq_nil.mp hnil] at hcallee)).2
    have howed := (slots_refs { s with owed := [] } slots).2.2.2 hnone
    simp only [callbackAsync_of_callee hcallee, howed, Bool.false_eq_true, if_false,
      List.length_nil]

end ConnectionRun

/-- Along any run, every disconnection is reported by the next `callbackAsync`, once and with its own
reason, and the references balance, exactly when no disconnection is disturbed before its report. -/
theorem disconnected_reported_iff (as : List ConnectionAction) :
    (connectionMachine.Along (fun s a => s.Reports a ∧ ∀ t, s.step a = some t → t.Balanced) {} as) ↔
      connectionMachine.Along ConnectionRun.Undisturbed {} as := by
  refine Machine.along_iff_along (I := ConnectionRun.Sound) ?_ ?_ ⟨rfl, by decide⟩ as
  · intro s a hs
    cases a with
    | setState call =>
      rw [← hs.setState_balanced call]
      simp [ConnectionRun.Reports, ConnectionRun.step]
    | callbackAsync slots =>
      rw [← hs.callbackAsync_iff slots]
      simp [ConnectionRun.step]
  · intro s a t hs hok h
    cases a with
    | setState call => exact Option.some.inj h ▸ hs.setState hok
    | callbackAsync slots => exact Option.some.inj h ▸ hs.callbackAsync hok

/-- A host loses its client, and its user disconnects before the callback runs. -/
def lostThenDisconnectRun : List ConnectionAction :=
  [.setState ⟨.connected, []⟩, .setState ⟨.disconnected, ascii "Client connection lost"⟩,
    .setState ⟨.disconnected, []⟩, .callbackAsync []]

/-- The disconnection is reported without its reason. -/
theorem lostThenDisconnectRun_not_reported :
    ¬ connectionMachine.Along (fun s a => s.Reports a ∧ ∀ t, s.step a = some t → t.Balanced) {}
      lostThenDisconnectRun :=
  fun h => absurd h.2.2.2.1.1 (show ¬ ([[]] = [ascii "Client connection lost"]) by decide)

end Multicrew.Core
