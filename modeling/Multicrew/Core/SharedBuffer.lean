import Multicrew.Core.ChannelProtocol
import Multicrew.Library.Bytes
import Multicrew.Library.Checked

/-!
# Shared buffers

A `SharedBuffer` is a range of a `Buffer`. The decoders take its pointer and never compare what
they read with its size, so a read is checked here against the end of the memory block. A slice
that starts behind the end has an underflowing size. Both are faults, and so are the uses of a
packet object that is missing or of another type.
-/

namespace Multicrew.Core

open Multicrew.Library

/-- What must not happen while a packet is decoded. -/
inductive Fault
  | outOfBounds
  | underflow
  | nullPacket
  | wrongType
  deriving DecidableEq, Repr

/-- `SharedBuffer`, with the content of its `Buffer`. -/
structure SharedBuffer where
  buf : List UInt8
  start : ℕ
  size : ℕ
  deriving DecidableEq, Repr

namespace SharedBuffer

variable (b : SharedBuffer)

/-- `SharedBuffer( data, size )` -/
def copyOf (data : List UInt8) : SharedBuffer := ⟨data, 0, data.length⟩

/-- Bytes somewhere in a buffer. -/
def within (before bytes after : List UInt8) : SharedBuffer :=
  ⟨before ++ bytes ++ after, before.length, bytes.length⟩

/-- The memory from `data()` on. -/
def data : List UInt8 := b.buf.drop b.start

/-- `SharedBuffer( buf, start )` -/
def slice (start : ℕ) : Except Fault SharedBuffer :=
  if start ≤ b.size then .ok ⟨b.buf, b.start + start, b.size - start⟩ else .error .underflow

/-- `SharedBuffer( buf, start, size )` -/
def range (start size : ℕ) : SharedBuffer := ⟨b.buf, b.start + start, size⟩

/-- A read of the first `n` bytes. -/
def read (n : ℕ) : Except Fault (List UInt8) :=
  if n ≤ b.data.length then .ok (b.data.take n) else .error .outOfBounds

/-- A read of the byte at an offset. -/
def readByte (offset : ℕ) : Except Fault UInt8 :=
  match b.data[offset]? with
  | some byte => .ok byte
  | none => .error .outOfBounds

/-- A read of a C string. -/
def readString : Except Fault Str :=
  if 0 ∈ b.data then .ok (cString b.data) else .error .outOfBounds

/-- The range reaches to the end of its buffer. -/
def Tail : Prop := b.start + b.size = b.buf.length

variable {b}

/-- The data are everything from the start of the range on. -/
@[simp] theorem data_within (before bytes after : List UInt8) :
    (within before bytes after).data = bytes ++ after := by
  simp [within, data]

/-- A read of what the bytes of a range begin with. -/
theorem read_within (before head rest after : List UInt8) {n : ℕ} (hn : head.length = n) :
    (within before (head ++ rest) after).read n = .ok head := by
  have hdata : (within before (head ++ rest) after).data = head ++ (rest ++ after) := by
    rw [data_within, List.append_assoc]
  have hle : n ≤ (head ++ (rest ++ after)).length := by
    rw [List.length_append]
    omega
  rw [read, hdata, if_pos hle, List.take_left' hn]

/-- A slice behind what the bytes of a range begin with. -/
theorem slice_within (before head rest after : List UInt8) {n : ℕ} (hn : head.length = n) :
    (within before (head ++ rest) after).slice n = .ok (within (before ++ head) rest after) := by
  subst hn
  have hle : head.length ≤ (head ++ rest).length := by
    rw [List.length_append]
    omega
  rw [slice, within, if_pos hle]
  simp [within]

/-- A range inside the bytes of a range. -/
theorem range_within (before head bytes rest after : List UInt8) {n : ℕ} (hn : head.length = n) :
    (within before (head ++ (bytes ++ rest)) after).range n bytes.length =
      within (before ++ head) bytes (rest ++ after) := by
  subst hn
  simp [range, within]

/-- A read of the C string that the bytes of a range begin with. -/
theorem readString_within (before rest after : List UInt8) {s : Str} (hs : 0 ∉ s) :
    (within before (s ++ 0 :: rest) after).readString = .ok s := by
  have hdata : (within before (s ++ 0 :: rest) after).data = s ++ 0 :: (rest ++ after) := by
    rw [data_within, List.append_assoc, List.cons_append]
  rw [readString, hdata, if_pos (List.mem_append_right s List.mem_cons_self), cString_append hs]

/-- The whole of a buffer is a tail. -/
theorem tail_copyOf (data : List UInt8) : (copyOf data).Tail := Nat.zero_add _

/-- A tail has the size of what can be read. -/
theorem Tail.length_data (h : b.Tail) : b.data.length = b.size := by
  unfold Tail at h
  rw [data, List.length_drop]
  omega

/-- A slice of a tail is a tail. -/
theorem Tail.of_slice (h : b.Tail) {start : ℕ} {b' : SharedBuffer} (hb' : b.slice start = .ok b') :
    b'.Tail := by
  unfold slice at hb'
  split at hb'
  · cases hb'
    unfold Tail at h ⊢
    simp only
    omega
  · cases hb'

end SharedBuffer

/-- A range of a received packet: all of it, or what is left behind a header. -/
structure Received where
  buffer : SharedBuffer
  tail : buffer.Tail

namespace Received

variable (b : Received)

/-- `SharedBuffer( data, size )` -/
def copyOf (data : List UInt8) : Received := ⟨.copyOf data, SharedBuffer.tail_copyOf data⟩

/-- The content. -/
def bytes : List UInt8 := b.buffer.data

/-- `SharedBuffer( buf, start )` -/
def slice (start : ℕ) : Except Fault Received :=
  match h : b.buffer.slice start with
  | .ok b' => .ok ⟨b', b.tail.of_slice h⟩
  | .error e => .error e

/-- A copy holds its data. -/
@[simp] theorem bytes_copyOf (data : List UInt8) : (copyOf data).bytes = data := rfl

/-- The size of a received range is the length of its content. -/
theorem size_eq : b.buffer.size = b.bytes.length := b.tail.length_data.symm

/-- A slice that starts inside the content. -/
theorem slice_of_le {start : ℕ} (h : start ≤ b.bytes.length) :
    ∃ b', b.slice start = .ok b' ∧ b'.bytes = b.bytes.drop start := by
  rw [← size_eq] at h
  have hslice : b.buffer.slice start = .ok ⟨b.buffer.buf, b.buffer.start + start,
    b.buffer.size - start⟩ := if_pos h
  refine ⟨⟨_, b.tail.of_slice hslice⟩, ?_, ?_⟩
  · unfold slice
    split
    · rename_i b' hb'
      rw [hslice] at hb'
      cases hb'
      rfl
    · rename_i e he
      rw [hslice] at he
      cases he
  · simp only [bytes, SharedBuffer.data, List.drop_drop]

/-- A slice that starts behind the content. -/
theorem slice_of_lt {start : ℕ} (h : b.bytes.length < start) :
    b.slice start = .error .underflow := by
  rw [← size_eq] at h
  have hslice : b.buffer.slice start = .error .underflow := if_neg (Nat.not_le.mpr h)
  unfold slice
  split
  · rename_i b' hb'
    rw [hslice] at hb'
    cases hb'
  · rename_i e he
    rw [hslice] at he
    cases he
    rfl

/-- Reading a header and slicing behind it. -/
theorem split {head rest : List UInt8} (hb : b.bytes = head ++ rest) {n : ℕ}
    (hn : head.length = n) :
    b.buffer.read n = .ok head ∧ ∃ b', b.slice n = .ok b' ∧ b'.bytes = rest := by
  have hdata : b.buffer.data = head ++ rest := hb
  have hle : n ≤ b.bytes.length := by
    rw [hb, List.length_append]
    omega
  constructor
  · have hread : b.buffer.read n = .ok (b.buffer.data.take n) := if_pos hle
    rw [hread, hdata, List.take_left' hn]
  · obtain ⟨b', hslice, hbytes⟩ := b.slice_of_le hle
    exact ⟨b', hslice, by rw [hbytes, hb, List.drop_left' hn]⟩

end Received

end Multicrew.Core
