import Multicrew.Core.ChannelProtocol
import Multicrew.Library.Shuffle

/-!
# The FSUIPC module

`FsuipcModule` mirrors variables of the simulator. On the host its watches are read in a frame
and the changed ones are sent; on a client the packets received wait in `todo` until a frame
writes them into the simulator with one FSUIPC request.

The FSUIPC library is outside: what it answers to a request is an argument. An entry it does not
take is not part of the request, and a request it does not process has no effect.
-/

namespace Multicrew.Core

open Multicrew.Library (Shuffle)

/-- What the FSUIPC library answers to one request: whether it takes the `i`-th entry, the bytes
the `i`-th entry reads, and whether the request is processed. -/
structure FsuipcAnswers where
  accepts : ℕ → Bool := fun _ => true
  reads : ℕ → List UInt8 := fun _ => []
  processed : Bool := true

/-- `FsuipcPacket` -/
structure FsuipcPacket where
  id : UInt16
  size : UInt8
  data : List UInt8
  deriving DecidableEq, Repr

/-- `FsuipcWatch`; both buffers are `size` bytes. -/
structure FsuipcWatch where
  id : UInt16
  size : UInt8
  prio : Priority
  data : List UInt8
  oldData : List UInt8
  deriving DecidableEq, Repr

namespace FsuipcWatch

/-- The buffers of a new watch are zeroed. -/
def new (id : UInt16) (size : UInt8) (prio : Priority) : FsuipcWatch :=
  ⟨id, size, prio, List.replicate size.toNat 0, List.replicate size.toNat 0⟩

/-- The buffer after the request in which this watch is the `i`-th entry. -/
def update (w : FsuipcWatch) (answers : FsuipcAnswers) (i : ℕ) : FsuipcWatch :=
  if answers.accepts i && answers.processed then { w with data := answers.reads i } else w

/-- The packet to send, if the value changed or all are due. -/
def process (w : FsuipcWatch) (fullSend : Bool) : FsuipcWatch × Option FsuipcPacket :=
  if fullSend || w.oldData != w.data then
    ({ w with oldData := w.data }, some ⟨w.id, w.size, w.data⟩)
  else (w, none)

/-- Not the `safe` a watch was made with. -/
def safe (_ : FsuipcWatch) : Bool := true

end FsuipcWatch

/-- `FsuipcModule::Data`; `fsuipc` tells whether the pointer is set. Until the first
`sendFullState` the flag `nextIsFullSend` is whatever the memory held. -/
structure FsuipcModule where
  watches : List FsuipcWatch := []
  fsuipc : Bool := false
  nextIsFullSend : Bool := false
  todo : List FsuipcPacket := []
  watchNow : Bool := false
  deriving DecidableEq, Repr

/-- What one frame does: the packets sent, the values the simulator takes over, and whether the
end iterator of `todo` is dereferenced. -/
structure FsuipcFrame where
  state : FsuipcModule
  sent : List (FsuipcPacket × Bool × Priority) := []
  written : List FsuipcPacket := []
  readsEnd : Bool := false
  deriving DecidableEq, Repr

namespace FsuipcModule

variable (d : FsuipcModule)

/-- `start`: the pointer is set. -/
def start : FsuipcModule := { d with fsuipc := true }

/-- `watch`, which sets the pointer too. -/
def watch (id : UInt16) (size : UInt8) (highPrio : Bool) : FsuipcModule :=
  { d with
    fsuipc := true
    watches := d.watches ++ [.new id size (if highPrio then .high else .medium)] }

/-- One turn of `threadProc`. -/
def threadProc (mode : Mode) : FsuipcModule :=
  match mode with
  | .idle => d
  | .host => { d with watchNow := true }
  | .client => d

/-- `receive`, which only queues the packet, in both modes. -/
def receive (mode : Mode) (packet : FsuipcPacket) : FsuipcModule :=
  match mode with
  | .idle => d
  | .host => { d with todo := d.todo ++ [packet] }
  | .client => { d with todo := d.todo ++ [packet] }

/-- `sendFullState` -/
def sendFullState : FsuipcModule := { d with nextIsFullSend := true }

/-- The loop over `todo` from its `i`-th entry on: what the request holds, and the rest from the
iterator on, which is at the end when every write was taken. -/
def write (accepts : ℕ → Bool) : ℕ → List FsuipcPacket → List FsuipcPacket × List FsuipcPacket
  | _, [] => ([], [])
  | i, packet :: rest =>
    if accepts i then
      let (request, it) := write accepts (i + 1) rest
      (packet :: request, it)
    else ([], packet :: rest)

/-- The watches after their updates, the first being the `i`-th entry of the request. -/
def updateFrom (answers : FsuipcAnswers) : ℕ → List FsuipcWatch → List FsuipcWatch
  | _, [] => []
  | i, w :: rest => w.update answers i :: updateFrom answers (i + 1) rest

/-- The watches after `process`, and what is sent for them. -/
def processAll (fullSend : Bool) :
    List FsuipcWatch → List FsuipcWatch × List (FsuipcPacket × Bool × Priority)
  | [] => ([], [])
  | w :: rest =>
    let (w', packet) := w.process fullSend
    let (rest', sent) := processAll fullSend rest
    (w' :: rest', (packet.map fun p => (p, w.safe, w.prio)).toList ++ sent)

/-- `FsuipcModule::frameCallback` -/
def frameCallback (mode : Mode) (answers : FsuipcAnswers) : FsuipcFrame :=
  match mode with
  | .idle => { state := d }
  | .host =>
    if d.watchNow && d.fsuipc then
      let watches := updateFrom answers 0 d.watches
      if answers.processed then
        let (watches, sent) := processAll d.nextIsFullSend watches
        { state := { d with watchNow := false, nextIsFullSend := false, watches := watches }
          sent := sent }
      else { state := { d with watchNow := false, watches := watches } }
    else { state := d }
  | .client =>
    if d.fsuipc then
      if d.todo.isEmpty then { state := d }
      else
        let (request, it) := write answers.accepts 0 d.todo
        { state := { d with todo := [] }
          written := if answers.processed then request else []
          -- the message of a failed request names the packet under the iterator
          readsEnd := !answers.processed && it.isEmpty }
    else { state := d }

/-! ### The queue of a client -/

/-- The request is what stands before the iterator. -/
theorem write_append (accepts : ℕ → Bool) (i : ℕ) (todo : List FsuipcPacket) :
    (write accepts i todo).1 ++ (write accepts i todo).2 = todo := by
  induction todo generalizing i with
  | nil => rfl
  | cons packet rest ih =>
    unfold write
    split
    · simp only [List.cons_append, ih]
    · rfl

/-- The iterator reaches the end exactly when every write is taken. -/
theorem write_end_iff (accepts : ℕ → Bool) (i : ℕ) (todo : List FsuipcPacket) :
    (write accepts i todo).2 = [] ↔ ∀ k < todo.length, accepts (i + k) = true := by
  induction todo generalizing i with
  | nil => simp [write]
  | cons packet rest ih =>
    unfold write
    by_cases hi : accepts i
    · simp only [hi, if_true, ih, List.length_cons]
      constructor
      · intro h k hk
        cases k with
        | zero => exact hi
        | succ k =>
          have := h k (by omega)
          rwa [Nat.add_right_comm] at this
      · intro h k hk
        have := h (k + 1) (by omega)
        rwa [← Nat.add_assoc, Nat.add_right_comm] at this
    · simp only [hi, Bool.false_eq_true, if_false, reduceCtorEq, List.length_cons, false_iff]
      intro h
      exact hi (h 0 (by omega))

/-- With every write taken the request is the whole queue. -/
theorem write_request_eq_iff (accepts : ℕ → Bool) (todo : List FsuipcPacket) :
    (write accepts 0 todo).1 = todo ↔ ∀ k < todo.length, accepts k = true := by
  have happend := write_append accepts 0 todo
  have hend := write_end_iff accepts 0 todo
  simp only [Nat.zero_add] at hend
  rw [← hend]
  constructor
  · intro h
    have hlen := congrArg List.length happend
    rw [List.length_append, h] at hlen
    exact List.length_eq_zero_iff.mp (by omega)
  · intro h
    rwa [h, List.append_nil] at happend

/-- What a frame of a client with packets waiting does. -/
theorem frameCallback_client (hfsuipc : d.fsuipc = true) (htodo : d.todo ≠ [])
    (answers : FsuipcAnswers) :
    d.frameCallback .client answers =
      { state := { d with todo := [] }
        written := if answers.processed then (write answers.accepts 0 d.todo).1 else []
        readsEnd := !answers.processed && (write answers.accepts 0 d.todo).2.isEmpty } := by
  simp only [frameCallback, hfsuipc, if_true, List.isEmpty_iff, htodo, if_false]

/-- While the pointer is null, or with nothing to write, a client's frame changes nothing. -/
theorem frameCallback_client_idle (h : d.fsuipc = false ∨ d.todo = []) (answers : FsuipcAnswers) :
    d.frameCallback .client answers = { state := d } := by
  cases h with
  | inl hfsuipc => simp [frameCallback, hfsuipc]
  | inr htodo => simp [frameCallback, htodo]

/-- With the pointer set only a client's frame touches the queue: it writes what the request of
all of it holds, if FSUIPC processes it, and empties it. -/
theorem frameCallback_fsuipc (hfsuipc : d.fsuipc = true) (mode : Mode)
    (answers : FsuipcAnswers) :
    (d.frameCallback mode answers).state.fsuipc = true ∧
      (d.frameCallback mode answers).state.todo = (if mode = .client then [] else d.todo) ∧
      (d.frameCallback mode answers).written =
        if mode = .client ∧ answers.processed = true then (write answers.accepts 0 d.todo).1
        else [] := by
  cases mode with
  | idle => exact ⟨hfsuipc, rfl, rfl⟩
  | host =>
    unfold frameCallback
    simp only [hfsuipc, Bool.and_true]
    split
    · split <;> exact ⟨rfl, rfl, rfl⟩
    · exact ⟨hfsuipc, rfl, rfl⟩
  | client =>
    by_cases htodo : d.todo = []
    · rw [d.frameCallback_client_idle (.inr htodo) answers]
      exact ⟨hfsuipc, htodo, by simp [htodo, write]⟩
    · rw [d.frameCallback_client hfsuipc htodo answers]
      exact ⟨hfsuipc, rfl, by simp⟩

/-- Every packet that waited was written by a successful request or still waits, each in order,
and the error message names a packet. -/
def LosesNothing (frame : FsuipcFrame) : Prop :=
  Shuffle d.todo frame.written frame.state.todo ∧ frame.readsEnd = false

/-- A client's frame loses nothing exactly when its pointer is null, it has nothing to write, or FSUIPC
takes every write and processes the request. A pointer to an `Fsuipc` that is not open is set, and
its request is not processed. -/
theorem frameCallback_losesNothing_iff (answers : FsuipcAnswers) :
    d.LosesNothing (d.frameCallback .client answers) ↔
      d.fsuipc = false ∨ d.todo = [] ∨
        (answers.processed = true ∧ ∀ i < d.todo.length, answers.accepts i = true) := by
  by_cases hidle : d.fsuipc = false ∨ d.todo = []
  · rw [d.frameCallback_client_idle hidle answers]
    constructor
    · intro _
      exact hidle.elim .inl fun htodo => .inr (.inl htodo)
    · intro _
      exact ⟨.all_right d.todo, rfl⟩
  · have hfsuipc : d.fsuipc = true := by
      cases hf : d.fsuipc with
      | true => rfl
      | false => exact absurd (.inl hf) hidle
    have htodo : d.todo ≠ [] := fun h => hidle (.inr h)
    have hrest : (d.fsuipc = false ∨ d.todo = [] ∨
        (answers.processed = true ∧ ∀ i < d.todo.length, answers.accepts i = true)) ↔
          (answers.processed = true ∧ ∀ i < d.todo.length, answers.accepts i = true) := by
      simp [hfsuipc, htodo]
    rw [hrest, LosesNothing, d.frameCallback_client hfsuipc htodo answers]
    -- nothing stays in the queue, so all of it must have been written
    rw [Shuffle.nil_right_iff]
    cases hprocessed : answers.processed with
    | false =>
      simp only [Bool.false_eq_true, if_false, false_and, iff_false, not_and]
      intro h
      exact absurd h.symm htodo
    | true =>
      simp only [if_true, Bool.not_true, Bool.false_and, and_true, true_and]
      exact write_request_eq_iff answers.accepts d.todo

/-- One packet waits, FSUIPC takes the write and fails the request: the packet is gone, and the
message reads the end of the queue. -/
theorem frameCallback_drops_failed_request :
    ¬ LosesNothing { fsuipc := true, todo := [⟨0x0b4c, 2, [1, 0]⟩] }
      (frameCallback { fsuipc := true, todo := [⟨0x0b4c, 2, [1, 0]⟩] } .client
        { processed := false }) := by
  intro h
  have hlength := h.1.length_eq
  revert hlength
  decide

end FsuipcModule

end Multicrew.Core
