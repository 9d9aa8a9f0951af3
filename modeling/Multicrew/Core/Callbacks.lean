import Multicrew.Library.Bytes
import Multicrew.Library.Machine
import Multicrew.Library.Memory

/-!
# Callbacks in machine code

A `CallbackAdapter` hands out the address of ten bytes of machine code, which loads the address of the
adapter into `edx` and jumps to the `methodThunk` of its class; that calls the member of the target. The
two instructions are executed here from memory, where adapters come and go.

Whether the memory may be executed is not modelled.
-/

namespace Multicrew.Core

open Multicrew.Library

/-- `CallbackThunk`: `mov edx, thisPtr` and `jmp relProc`. -/
structure CallbackThunk where
  mov : UInt8
  thisPtr : UInt32
  jmp : UInt8
  relProc : UInt32
  deriving DecidableEq, Repr

/-- The packed structure in memory. -/
def CallbackThunk.bytes (thunk : CallbackThunk) : List UInt8 :=
  [thunk.mov] ++ toBytes 4 thunk.thisPtr.toNat ++ [thunk.jmp] ++ toBytes 4 thunk.relProc.toNat

/-- `sizeof(CallbackThunk)` -/
def thunkSize : ℕ := 10

/-- A `CallbackAdapter` of any number of parameters at the address `this`: the address of its
`d->thunk`, that of the `methodThunk` of its class, and what that calls: the member, the target and the
value of the user. -/
structure CallbackAdapter (α : Type*) where
  this : UInt32
  thunk : UInt32
  methodThunk : UInt32
  member : α

namespace CallbackAdapter

variable {α : Type*} (a : CallbackAdapter α)

/-- `CallbackAdapterBase( methodThunk )` fills the thunk. -/
def code : CallbackThunk where
  mov := 0xba
  thisPtr := a.this
  jmp := 0xe9
  relProc := a.methodThunk - a.thunk - thunkSize.toUInt32

/-- `callback()` -/
def callback : UInt32 := a.thunk

/-- Two thunks have no byte in common. -/
def Apart (b : CallbackAdapter α) : Prop :=
  a.thunk.toNat + thunkSize ≤ b.thunk.toNat ∨ b.thunk.toNat + thunkSize ≤ a.thunk.toNat

instance (b : CallbackAdapter α) : Decidable (a.Apart b) := inferInstanceAs (Decidable (_ ∨ _))

end CallbackAdapter

/-- The registers of the processor that a thunk uses. -/
structure Registers where
  eip : UInt32
  edx : UInt32
  deriving DecidableEq, Repr

/-- The operand of an instruction of one byte. -/
def operand (memory : ℕ → UInt8) (eip : UInt32) : UInt32 :=
  .ofNat (ofBytes (Memory.window memory (eip.toNat + 1) 4))

/-- The processor executes `mov edx, imm32` or `jmp rel32`, which counts from the next instruction. -/
def execute (memory : ℕ → UInt8) (r : Registers) : Option Registers :=
  match memory r.eip.toNat with
  | 0xba => some ⟨r.eip + 5, operand memory r.eip⟩
  | 0xe9 => some ⟨r.eip + 5 + operand memory r.eip, r.edx⟩
  | _ => none

/-- The memory of the process, and the adapters that live in it. -/
structure CallbackHeap (α : Type*) where
  memory : ℕ → UInt8
  adapters : List (CallbackAdapter α) := []

/-- An adapter is made, with its thunk on the heap, or deleted, or something else is written. -/
inductive CallbackAction (α : Type*)
  | construct (a : CallbackAdapter α)
  | destroy (this : UInt32)
  | write (start : ℕ) (block : List UInt8)

namespace CallbackHeap

variable {α : Type*} (s : CallbackHeap α)

/-- An adapter may be placed: its thunk is in the address space, and neither it nor its thunk is in the
way of another one. -/
def Free (a : CallbackAdapter α) : Prop :=
  a.thunk.toNat + thunkSize ≤ 2 ^ 32 ∧ ∀ b ∈ s.adapters, b.this ≠ a.this ∧ b.Apart a

instance (a : CallbackAdapter α) : Decidable (s.Free a) :=
  @instDecidableAnd _ _ (Nat.decLe _ _) (List.decidableBAll _ s.adapters)

/-- A block lies outside of all thunks. -/
def Outside (start size : ℕ) : Prop :=
  ∀ b ∈ s.adapters, b.thunk.toNat + thunkSize ≤ start ∨ start + size ≤ b.thunk.toNat

instance (start size : ℕ) : Decidable (s.Outside start size) := List.decidableBAll _ s.adapters

/-- One step of the program; the heap gives free blocks, and nothing writes into thunks. -/
def step (s : CallbackHeap α) : CallbackAction α → Option (CallbackHeap α)
  | .construct a =>
    if s.Free a then
      some ⟨Memory.write s.memory a.thunk.toNat a.code.bytes, a :: s.adapters⟩
    else none
  | .destroy this => some { s with adapters := s.adapters.filter fun a => a.this ≠ this }
  | .write start block =>
    if s.Outside start block.length then some { s with memory := Memory.write s.memory start block }
    else none

/-- A call of an address: the processor executes a thunk, and the `methodThunk` it comes to calls the
member of the adapter in `edx`. -/
def call (address edx : UInt32) : Option α :=
  match (execute s.memory ⟨address, edx⟩).bind (execute s.memory) with
  | none => none
  | some r =>
    (s.adapters.find? fun a => a.this = r.edx ∧ a.methodThunk = r.eip).map CallbackAdapter.member

end CallbackHeap

/-- The runs of a program that begins without adapters. -/
def callbackMachine (α : Type*) : Machine (CallbackHeap α) (CallbackAction α) where
  initial s := s.adapters = []
  step := CallbackHeap.step

variable {α : Type*} {memory : ℕ → UInt8}

/-! ### One thunk -/

/-- A thunk is ten bytes. -/
@[simp] theorem CallbackThunk.length_bytes (thunk : CallbackThunk) :
    thunk.bytes.length = thunkSize := by
  simp [CallbackThunk.bytes, thunkSize]

/-- A value of 32 bits is read back from its bytes. -/
theorem ofNat_ofBytes_toBytes (value : UInt32) : UInt32.ofNat (ofBytes (toBytes 4 value.toNat)) = value := by
  rw [ofBytes_toBytes_of_lt value.toNat_lt, UInt32.ofNat_toNat]

/-- The instructions of a thunk in memory. -/
theorem instructions_of_window {thunk : CallbackThunk} {p : ℕ}
    (h : Memory.window memory p thunkSize = thunk.bytes) :
    memory p = thunk.mov ∧ Memory.window memory (p + 1) 4 = toBytes 4 thunk.thisPtr.toNat ∧
      memory (p + 5) = thunk.jmp ∧
      Memory.window memory (p + 6) 4 = toBytes 4 thunk.relProc.toNat := by
  have hload : Memory.window memory p 5 =
      Memory.window memory p 1 ++ Memory.window memory (p + 1) 4 := Memory.window_add memory p 1 4
  have hopcode : Memory.window memory p 6 =
      Memory.window memory p 5 ++ Memory.window memory (p + 5) 1 := Memory.window_add memory p 5 1
  have hjump : Memory.window memory p thunkSize =
      Memory.window memory p 6 ++ Memory.window memory (p + 6) 4 := Memory.window_add memory p 6 4
  rw [hjump, hopcode, hload, CallbackThunk.bytes] at h
  obtain ⟨h, hrel⟩ := List.append_inj h (by simp)
  obtain ⟨h, hjmp⟩ := List.append_inj h (by simp)
  obtain ⟨hmov, hthis⟩ := List.append_inj h (by simp)
  refine ⟨?_, hthis, ?_, hrel⟩
  · simpa [Memory.window] using hmov
  · simpa [Memory.window] using hjmp

/-- From the address of a thunk in memory the processor comes to the `methodThunk`, with the adapter in
`edx`. -/
theorem execute_code (a : CallbackAdapter α) (hspace : a.thunk.toNat + thunkSize ≤ 2 ^ 32)
    (hcode : Memory.window memory a.thunk.toNat thunkSize = a.code.bytes) (edx : UInt32) :
    (execute memory ⟨a.callback, edx⟩).bind (execute memory) = some ⟨a.methodThunk, a.this⟩ := by
  obtain ⟨hmov, hthis, hjmp, hrel⟩ := instructions_of_window hcode
  have hnext : (a.thunk + 5).toNat = a.thunk.toNat + 5 := by
    rw [UInt32.toNat_add]
    exact Nat.mod_eq_of_lt (by simp [thunkSize] at hspace ⊢; omega)
  have hload : operand memory a.thunk = a.this := by
    rw [operand, hthis]
    exact ofNat_ofBytes_toBytes a.this
  have hoffset : operand memory (a.thunk + 5) = a.code.relProc := by
    rw [operand, hnext, hrel]
    exact ofNat_ofBytes_toBytes a.code.relProc
  -- the offset counts from the end of the thunk
  have htarget : a.thunk + 5 + 5 + a.code.relProc = a.methodThunk := by
    simp only [CallbackAdapter.code, thunkSize]
    grind
  have hfirst : execute memory ⟨a.callback, edx⟩ = some ⟨a.thunk + 5, a.this⟩ := by
    simp only [execute, CallbackAdapter.callback, hmov, CallbackAdapter.code, hload]
  have hsecond : execute memory ⟨a.thunk + 5, a.this⟩ = some ⟨a.methodThunk, a.this⟩ := by
    have hjmp' : memory (a.thunk.toNat + 5) = 0xe9 := hjmp
    simp only [execute, hnext, hjmp', hoffset, htarget]
  rw [hfirst, Option.bind_some, hsecond]

namespace CallbackHeap

variable {s t : CallbackHeap α}

/-! ### All adapters -/

/-- Every live adapter has its code in memory, and no two have the same address. -/
structure Sound (s : CallbackHeap α) : Prop where
  space : ∀ a ∈ s.adapters, a.thunk.toNat + thunkSize ≤ 2 ^ 32
  code : ∀ a ∈ s.adapters, Memory.window s.memory a.thunk.toNat thunkSize = a.code.bytes
  distinct : s.adapters.Pairwise fun a b => a.this ≠ b.this

/-- Every step keeps the code of the live adapters. -/
theorem Sound.step (h : s.Sound) {action : CallbackAction α} (hstep : s.step action = some t) :
    t.Sound := by
  cases action with
  | construct a =>
    simp only [CallbackHeap.step, Option.ite_none_right_eq_some, Option.some.injEq] at hstep
    obtain ⟨⟨hspace, hfree⟩, rfl⟩ := hstep
    constructor
    · intro b hb
      cases List.mem_cons.mp hb with
      | inl hnew => exact hnew ▸ hspace
      | inr hold => exact h.space b hold
    · intro b hb
      cases List.mem_cons.mp hb with
      | inl hnew =>
        subst hnew
        rw [← b.code.length_bytes]
        exact Memory.window_write_self _ _ _
      | inr hold =>
        have hapart := (hfree b hold).2
        rw [← h.code b hold]
        refine Memory.window_write_of_disjoint _ ?_
        rw [CallbackThunk.length_bytes]
        exact hapart
    · exact List.pairwise_cons.mpr ⟨fun b hb => Ne.symm (hfree b hb).1, h.distinct⟩
  | destroy this =>
    obtain rfl := Option.some.inj hstep
    have hlive : ∀ a ∈ s.adapters.filter fun a => a.this ≠ this, a ∈ s.adapters :=
      fun a ha => List.mem_of_mem_filter ha
    exact ⟨fun a ha => h.space a (hlive a ha), fun a ha => h.code a (hlive a ha),
      h.distinct.filter _⟩
  | write start block =>
    simp only [CallbackHeap.step, Option.ite_none_right_eq_some, Option.some.injEq] at hstep
    obtain ⟨houtside, rfl⟩ := hstep
    refine ⟨h.space, fun a ha => ?_, h.distinct⟩
    rw [← h.code a ha]
    exact Memory.window_write_of_disjoint _ (houtside a ha)

/-- Whatever adapters were made and deleted before, a call of the callback of a live one calls its own
member, with its own target and value. -/
theorem call_callback (h : (callbackMachine α).Reachable s) {a : CallbackAdapter α}
    (ha : a ∈ s.adapters) (edx : UInt32) : s.call a.callback edx = some a.member := by
  have hs : s.Sound := by
    refine h.invariant (fun s hinit => ?_) fun s action t _ hs hstep => hs.step hstep
    have hnone : s.adapters = [] := hinit
    exact ⟨by simp [hnone], by simp [hnone], by simp [hnone]⟩
  have hexecute := execute_code a (hs.space a ha) (hs.code a ha) edx
  have hfind : s.adapters.find? (fun b => b.this = a.this ∧ b.methodThunk = a.methodThunk) =
      some a := by
    obtain ⟨before, after, hadapters⟩ := List.append_of_mem ha
    rw [List.find?_eq_some_iff_append]
    refine ⟨by simp, before, after, hadapters, fun b hb => ?_⟩
    have hdistinct := hs.distinct
    rw [hadapters, List.pairwise_append] at hdistinct
    have hne := hdistinct.2.2 b hb a List.mem_cons_self
    simp [hne]
  simp only [call, hexecute, hfind, Option.map_some]

/-- Two adapters of one class, and a third one in the place of the first. -/
def threeAdapters : List (CallbackAction String) :=
  [.construct ⟨0x1000, 0x2000, 0x40, "frame"⟩, .construct ⟨0x1010, 0x200A, 0x40, "mouse"⟩,
    .destroy 0x1000, .write 0x2000 [0xcc], .construct ⟨0x1000, 0x2000, 0xfffffff0, "timer"⟩]

/-- The thunks of a jump backwards and of one around the end of the address space. -/
theorem call_callback_threeAdapters :
    ∃ s, (callbackMachine String).run ⟨fun _ => 0, []⟩ threeAdapters = some s ∧
      s.call 0x200A 0 = some "mouse" ∧ s.call 0x2000 0 = some "timer" := by
  have hrun : (callbackMachine String).run ⟨fun _ => 0, []⟩ threeAdapters = some _ := rfl
  have hreach := Machine.Reachable.run (.initial rfl) hrun
  exact ⟨_, hrun, @call_callback _ _ hreach ⟨0x1010, 0x200A, 0x40, "mouse"⟩ (by simp) 0,
    @call_callback _ _ hreach ⟨0x1000, 0x2000, 0xfffffff0, "timer"⟩ (by simp) 0⟩

end CallbackHeap

end Multicrew.Core
