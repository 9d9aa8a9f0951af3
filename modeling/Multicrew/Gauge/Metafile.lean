import Mathlib.Data.List.Basic

/-!
# The metafile compressor and decompressor

The host records frames and sends each as a delta against the frame before it, or against zeros
when its counter is 0. Both sides count, and a packet is accepted when the counters agree. The
delta coder itself is a parameter.

`threadProc` leaves the critical section while it compresses, so its work is two steps with a
state between them. A frame is the byte string of its `GlobalMem`.
-/

namespace Multicrew.Gauge

/-- A memory block, as `GlobalMem` locks it: `GlobalSize` is taken to be the size asked for. -/
abbrev Bytes := List UInt8

/-- The delta coder: `zd_compress1` and `zd_uncompress1`, `none` where they do not return `ZD_OK`. -/
structure Zdelta where
  compress : (ref tar : Bytes) → Option Bytes
  uncompress : (ref delta : Bytes) → Option Bytes

/-- What the code relies on: a delta decodes against its own reference. -/
def Zdelta.Lossless (z : Zdelta) : Prop :=
  ∀ ref tar delta, z.compress ref tar = some delta → z.uncompress ref delta = some tar

/-- A coder whose delta is the target itself. -/
def Zdelta.stored : Zdelta where
  compress _ tar := some tar
  uncompress _ delta := some delta

/-- Storing loses nothing. -/
theorem Zdelta.stored_lossless : Zdelta.stored.Lossless :=
  fun _ _ _ h => h.symm

/-- The reference without a previous frame: 1000 zero bytes. -/
def zeroReference : Bytes := List.replicate 1000 0

/-- `MetafileDataPacket`. -/
structure MetafileDataPacket where
  counter : UInt32
  buffer : Bytes
  deriving DecidableEq, Repr

/-- The packets a client answers with: `MetafileResetPacket` and `MetafileAckPacket`. -/
inductive MetafileReply
  | resetPacket
  | ackPacket
  deriving DecidableEq, Repr

/-- What `threadProc` holds while it compresses. -/
structure Work where
  last : Bytes
  ref : Bytes
  counter : UInt32
  deriving DecidableEq, Repr

/-- Where the compressor thread is. -/
inductive ThreadState
  | waiting
  | compressing (work : Work)
  | exited
  deriving DecidableEq, Repr

/-- `MetafileCompressor::Data`, with its thread. -/
structure MetafileCompressor where
  lastMetafile : Option Bytes := none
  previousMetafile : Option Bytes := none
  metafileCounter : UInt32 := 0
  timeout : ℕ := 0
  thread : ThreadState := .waiting
  deriving DecidableEq, Repr

namespace MetafileCompressor

variable (z : Zdelta) (d : MetafileCompressor)

/-- `MetafileCompressor::receive`. -/
def receive : MetafileReply → MetafileCompressor
  | .resetPacket => { d with metafileCounter := 0 }
  | .ackPacket => { d with timeout := 0 }

/-- `MetafileCompressor::open`: ready for the next frame. -/
def isOpen : Bool := d.lastMetafile.isNone

/-- `MetafileCompressor::close`; without a frame the last one stays. -/
def close (metafile : Option Bytes) : MetafileCompressor :=
  match metafile with
  | some metafile => { d with lastMetafile := some metafile }
  | none => d

/-- One turn of `threadProc` up to the compression, `none` when the thread is not waiting. -/
def wake : Option MetafileCompressor :=
  match d.thread with
  | .waiting =>
    if 0 < d.timeout then
      some { d with timeout := d.timeout - 1 }
    else
      match d.lastMetafile with
      | none => some d
      | some last =>
        if d.metafileCounter = 0 then
          some { d with thread := .compressing ⟨last, zeroReference, d.metafileCounter⟩ }
        else
          match d.previousMetafile with
          | none => some { d with thread := .exited }
          | some previous =>
            some { d with thread := .compressing ⟨last, previous, d.metafileCounter⟩ }
  | _ => none

/-- The rest of the turn: the packet is sent unless the coder failed or the counter was reset
meanwhile. -/
def finish (work : Work) : MetafileCompressor × Option MetafileDataPacket :=
  let d₁ := { d with lastMetafile := none, timeout := 10, thread := .waiting }
  match z.compress work.ref work.last with
  | some delta =>
    if work.counter = d.metafileCounter then
      ({ d₁ with
          metafileCounter := d.metafileCounter + 1
          previousMetafile := some work.last },
        some ⟨d.metafileCounter, delta⟩)
    else
      (d₁, none)
  | none => (d₁, none)

/-- A turn of the thread does not touch the counter. -/
theorem wake_metafileCounter {d d' : MetafileCompressor} (h : d.wake = some d') :
    d'.metafileCounter = d.metafileCounter := by
  unfold wake at h
  split at h
  · split at h
    · cases h
      rfl
    · split at h
      · cases h
        rfl
      · split at h
        · cases h
          rfl
        · split at h <;>
          · cases h
            rfl
  · cases h

/-- Closing does not touch the counter. -/
@[simp] theorem close_metafileCounter (metafile : Option Bytes) :
    (d.close metafile).metafileCounter = d.metafileCounter := by
  cases metafile <;> rfl

end MetafileCompressor

/-- `MetafileDecompressor::Data`. The source's `int` counter is compared as `unsigned`. -/
structure MetafileDecompressor where
  lastMetafile : Option Bytes := none
  metafileCounter : UInt32 := 0
  deriving DecidableEq, Repr

namespace MetafileDecompressor

variable (z : Zdelta) (d : MetafileDecompressor)

/-- The reference a packet in sequence is decoded against. -/
def reference : Option Bytes :=
  if d.metafileCounter = 0 then some zeroReference else d.lastMetafile

/-- `MetafileDecompressor::receive`; `none` when it dereferences the null `lastMetafile`. -/
def receive (mdp : MetafileDataPacket) : Option (MetafileDecompressor × MetafileReply) :=
  if d.metafileCounter ≠ mdp.counter then
    some ({ d with metafileCounter := 0 }, .resetPacket)
  else
    match d.reference with
    | none => none
    | some ref =>
      match z.uncompress ref mdp.buffer with
      | some tar => some (⟨some tar, d.metafileCounter + 1⟩, .ackPacket)
      | none => some (d, .ackPacket)

/-- Out of sequence, the counter is reset. -/
theorem receive_of_ne {mdp : MetafileDataPacket} (h : d.metafileCounter ≠ mdp.counter) :
    d.receive z mdp = some ({ d with metafileCounter := 0 }, .resetPacket) :=
  if_pos h

/-- In sequence and against its own reference, a packet becomes the next frame. -/
theorem receive_of_eq {mdp : MetafileDataPacket} (h : d.metafileCounter = mdp.counter)
    {ref tar : Bytes} (href : d.reference = some ref)
    (htar : z.uncompress ref mdp.buffer = some tar) :
    d.receive z mdp = some (⟨some tar, d.metafileCounter + 1⟩, .ackPacket) := by
  simp [receive, h, href, htar]

end MetafileDecompressor

end Multicrew.Gauge
