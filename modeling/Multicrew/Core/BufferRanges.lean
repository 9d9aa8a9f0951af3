import Multicrew.Core.SharedBuffer

/-!
# Ranges made by nested constructors

The seven constructors of `SharedBuffer`, on the `unsigned` words they compute. A range is built
from a range, down to a memory block, and should be the part of that block that starts at the sum
of all the starts. The constructor for a part of a `Buffer` assigns `_start` to itself, so its
range starts where the memory of the object says.
-/

namespace Multicrew.Core.Unsigned

open Multicrew.Library

/-- `Buffer`. Its size is an `unsigned`. -/
structure Buffer where
  bytes : List UInt8
  fits : bytes.length < 2 ^ 32
  deriving DecidableEq

/-- `Buffer::size` -/
def Buffer.size (buf : Buffer) : UInt32 := UInt32.ofNat buf.bytes.length

/-- `SharedBuffer` -/
structure SharedBuffer where
  buf : Buffer
  start : UInt32
  size : UInt32
  deriving DecidableEq

namespace SharedBuffer

/-- `SharedBuffer( data, size, copy )`. A copy and the data itself have the same bytes. -/
def ofData (memory : Buffer) : SharedBuffer := ⟨memory, 0, memory.size⟩

/-- `SharedBuffer( size )`, with the bytes that `malloc` returned. -/
def ofSize (memory : Buffer) : SharedBuffer := ⟨memory, 0, memory.size⟩

/-- `SharedBuffer( buf )` -/
def ofBuffer (buf : Buffer) : SharedBuffer := ⟨buf, 0, buf.size⟩

/-- `SharedBuffer( buf, start, size )` on a `Buffer`: `this->_start = _start`. The member keeps
what the memory of the object held before, and the parameter is not read. -/
def ofBufferRange (old : UInt32) (buf : Buffer) (_start size : UInt32) : SharedBuffer :=
  ⟨buf, old, size⟩

variable (b : SharedBuffer)

/-- `SharedBuffer( const SharedBuffer &buf )` -/
def copy : SharedBuffer := ⟨b.buf, b.start, b.size⟩

/-- `SharedBuffer( buf, start )` -/
def slice (start : UInt32) : SharedBuffer := ⟨b.buf, b.start + start, b.size - start⟩

/-- `SharedBuffer( buf, start, size )` -/
def range (start size : UInt32) : SharedBuffer := ⟨b.buf, b.start + start, size⟩

/-- The memory from `data( start )` on. -/
def data (start : UInt32) : List UInt8 := b.buf.bytes.drop (b.start + start).toNat

/-- The content: `size()` bytes from `data()` on. -/
def content : List UInt8 := (b.data 0).take b.size.toNat

/-- The range on natural numbers that the decoders are modelled with. -/
def toRange : Core.SharedBuffer := ⟨b.buf.bytes, b.start.toNat, b.size.toNat⟩

end SharedBuffer

/-- How a `SharedBuffer` is obtained from a memory block by constructors. -/
inductive Nesting
  | data (memory : Buffer)
  | sized (memory : Buffer)
  | buffer (buf : Buffer)
  | bufferRange (buf : Buffer) (start size : UInt32)
  | copy (parent : Nesting)
  | slice (parent : Nesting) (start : UInt32)
  | range (parent : Nesting) (start size : UInt32)
  deriving DecidableEq

namespace Nesting

/-- What the constructors build. The first object was placed where its `_start` held `old`. -/
def build (old : UInt32) : Nesting → SharedBuffer
  | data memory => .ofData memory
  | sized memory => .ofSize memory
  | buffer buf => .ofBuffer buf
  | bufferRange buf start size => .ofBufferRange old buf start size
  | copy parent => (parent.build old).copy
  | slice parent start => (parent.build old).slice start
  | range parent start size => (parent.build old).range start size

/-- The memory block under all ranges. -/
def base : Nesting → Buffer
  | data memory => memory
  | sized memory => memory
  | buffer buf => buf
  | bufferRange buf _ _ => buf
  | copy parent => parent.base
  | slice parent _ => parent.base
  | range parent _ _ => parent.base

/-- The sum of the starts. -/
def offset : Nesting → ℕ
  | data _ => 0
  | sized _ => 0
  | buffer _ => 0
  | bufferRange _ start _ => start.toNat
  | copy parent => parent.offset
  | slice parent start => parent.offset + start.toNat
  | range parent start _ => parent.offset + start.toNat

/-- The bytes meant, by dropping and taking at each range. -/
def bytes : Nesting → List UInt8
  | data memory => memory.bytes
  | sized memory => memory.bytes
  | buffer buf => buf.bytes
  | bufferRange buf start size => (buf.bytes.drop start.toNat).take size.toNat
  | copy parent => parent.bytes
  | slice parent start => parent.bytes.drop start.toNat
  | range parent start size => (parent.bytes.drop start.toNat).take size.toNat

/-- Every start and every start plus size is within the size of the parent. -/
def Fits : Nesting → Prop
  | data _ => True
  | sized _ => True
  | buffer _ => True
  | bufferRange buf start size => start.toNat + size.toNat ≤ buf.bytes.length
  | copy parent => parent.Fits
  | slice parent start => parent.Fits ∧ start.toNat ≤ parent.bytes.length
  | range parent start size => parent.Fits ∧ start.toNat + size.toNat ≤ parent.bytes.length

/-- The range does not come from the constructor for a part of a `Buffer`, or the memory of the
object held the start already. -/
def Proper (old : UInt32) : Nesting → Prop
  | data _ => True
  | sized _ => True
  | buffer _ => True
  | bufferRange _ start _ => old = start
  | copy parent => parent.Proper old
  | slice parent _ => parent.Proper old
  | range parent _ _ => parent.Proper old

/-- What is built is the part of the memory block that is meant, and ranges compose. -/
structure Denotes (old : UInt32) (n : Nesting) : Prop where
  /-- The block is the one under all ranges. -/
  buf : (n.build old).buf = n.base
  /-- The range starts at the sum of the starts. -/
  start : (n.build old).start.toNat = n.offset
  /-- `size()` is the number of bytes meant. -/
  size : (n.build old).size.toNat = n.bytes.length
  /-- `size()` bytes from `data()` on are the bytes meant. -/
  content : (n.build old).content = n.bytes
  /-- These are the bytes of the block behind the sum of the starts. -/
  window : n.bytes = (n.base.bytes.drop n.offset).take (n.build old).size.toNat
  /-- The range does not leave the block. -/
  inside : (n.build old).start.toNat + (n.build old).size.toNat ≤ n.base.bytes.length
  /-- Within the size, `data( start )` is behind the sum of the starts as well. -/
  data : ∀ start : UInt32, start.toNat ≤ (n.build old).size.toNat →
    (n.build old).data start = n.base.bytes.drop (n.offset + start.toNat)
  /-- A slice of a slice is the slice by the sum. -/
  slice_slice : ∀ start start' : UInt32, start.toNat + start'.toNat ≤ (n.build old).size.toNat →
    ((n.slice start).slice start').build old = (n.slice (start + start')).build old
  /-- A range of a slice is the range by the sum. -/
  slice_range : ∀ start start' size' : UInt32,
    start.toNat + start'.toNat + size'.toNat ≤ (n.build old).size.toNat →
    ((n.slice start).range start' size').build old = (n.range (start + start') size').build old
  /-- A slice of a range is the range by the sum. -/
  range_slice : ∀ start size start' : UInt32, start.toNat + size.toNat ≤ (n.build old).size.toNat →
    start'.toNat ≤ size.toNat →
    ((n.range start size).slice start').build old =
      (n.range (start + start') (size - start')).build old
  /-- A range of a range is the range by the sum. -/
  range_range : ∀ start size start' size' : UInt32,
    start.toNat + size.toNat ≤ (n.build old).size.toNat → start'.toNat + size'.toNat ≤ size.toNat →
    ((n.range start size).range start' size').build old = (n.range (start + start') size').build old

variable {old : UInt32} {n : Nesting}

/-- No constructor leaves the memory block. -/
theorem buf_build (old : UInt32) (n : Nesting) : (n.build old).buf = n.base := by
  induction n with
  | data _ | sized _ | buffer _ | bufferRange _ _ _ => rfl
  | copy parent ih => exact ih
  | slice parent start ih => exact ih
  | range parent start size ih => exact ih

/-- The bytes meant are inside the block, behind the sum of the starts. -/
theorem offset_add_length (h : n.Fits) : n.offset + n.bytes.length ≤ n.base.bytes.length := by
  induction n with
  | data _ | sized _ | buffer _ => exact (Nat.zero_add _).le
  | bufferRange buf start size =>
    have hfits : start.toNat + size.toNat ≤ buf.bytes.length := h
    simp only [offset, bytes, base, List.length_take, List.length_drop]
    omega
  | copy parent ih => exact ih h
  | slice parent start ih =>
    have hparent := ih h.1
    have hstart : start.toNat ≤ parent.bytes.length := h.2
    simp only [offset, bytes, base, List.length_drop]
    omega
  | range parent start size ih =>
    have hparent := ih h.1
    have hstart : start.toNat + size.toNat ≤ parent.bytes.length := h.2
    simp only [offset, bytes, base, List.length_take, List.length_drop]
    omega

/-- Dropping and taking at each range is dropping the sum of the starts and taking once. -/
theorem bytes_eq (h : n.Fits) :
    n.bytes = (n.base.bytes.drop n.offset).take n.bytes.length := by
  induction n with
  | data _ | sized _ | buffer _ => exact List.take_length.symm
  | bufferRange buf start size =>
    simp only [bytes, base, offset, List.length_take]
    rw [List.take_eq_take_iff]
    simp
  | copy parent ih => exact ih h
  | slice parent start ih =>
    have hstart : start.toNat ≤ parent.bytes.length := h.2
    simp only [bytes, base, offset, List.length_drop]
    conv_lhs => rw [ih h.1]
    rw [List.drop_take, List.drop_drop]
  | range parent start size ih =>
    have hstart : start.toNat + size.toNat ≤ parent.bytes.length := h.2
    have hlength : min size.toNat (parent.bytes.length - start.toNat) = size.toNat := by omega
    have hmin : min size.toNat (parent.bytes.length - start.toNat) = size.toNat := by omega
    simp only [bytes, base, offset, List.length_take, List.length_drop]
    conv_lhs => rw [ih h.1]
    rw [List.drop_take, List.drop_drop, List.take_take]

/-- `size()` is the number of bytes meant, whichever constructor made the first range. -/
theorem size_build (h : n.Fits) : (n.build old).size.toNat = n.bytes.length := by
  induction n with
  | data memory => exact UInt32.toNat_ofNat_of_lt' memory.fits
  | sized memory => exact UInt32.toNat_ofNat_of_lt' memory.fits
  | buffer buf => exact UInt32.toNat_ofNat_of_lt' buf.fits
  | bufferRange buf start size =>
    have hfits : start.toNat + size.toNat ≤ buf.bytes.length := h
    simp only [build, SharedBuffer.ofBufferRange, bytes, List.length_take, List.length_drop]
    omega
  | copy parent ih => exact ih h
  | slice parent start ih =>
    have hparent := ih h.1
    have hle : start ≤ (parent.build old).size := by
      rw [UInt32.le_iff_toNat_le, hparent]
      exact h.2
    simp only [build, SharedBuffer.slice, bytes, List.length_drop]
    rw [UInt32.toNat_sub_of_le _ _ hle, hparent]
  | range parent start size ih =>
    have hstart : start.toNat + size.toNat ≤ parent.bytes.length := h.2
    simp only [build, SharedBuffer.range, bytes, List.length_take, List.length_drop]
    omega

/-- A word added to the start of a parent gives the sum of the starts exactly when the parent starts
at the sum of its own. -/
theorem add_start_iff {word start : UInt32} {sum : ℕ} (h : sum + start.toNat < 2 ^ 32) :
    (word + start).toNat = sum + start.toNat ↔ word.toNat = sum := by
  have hword := word.toNat_lt
  have hstart := start.toNat_lt
  rw [UInt32.toNat_add]
  omega

/-- The range starts at the sum of the starts exactly when the first one does. -/
theorem start_build_iff (h : n.Fits) : (n.build old).start.toNat = n.offset ↔ n.Proper old := by
  have hinside := offset_add_length h
  induction n with
  | data _ | sized _ | buffer _ => exact iff_true_intro rfl
  | bufferRange buf start size => exact UInt32.toNat_inj
  | copy parent ih => exact ih h hinside
  | slice parent start ih =>
    have hfits := (slice parent start).base.fits
    have hsum : parent.offset + start.toNat < 2 ^ 32 := by
      simp only [offset] at hinside
      omega
    exact (add_start_iff hsum).trans (ih h.1 (offset_add_length h.1))
  | range parent start size ih =>
    have hfits := (range parent start size).base.fits
    have hsum : parent.offset + start.toNat < 2 ^ 32 := by
      simp only [offset] at hinside
      omega
    exact (add_start_iff hsum).trans (ih h.1 (offset_add_length h.1))

/-- Behind a start the content goes on at the sum, as long as it is within the size. -/
theorem data_build (h : n.Fits) (hproper : n.Proper old) {start : UInt32}
    (hstart : start.toNat ≤ n.bytes.length) :
    (n.build old).data start = n.base.bytes.drop (n.offset + start.toNat) := by
  have hinside := offset_add_length h
  have hfits := n.base.fits
  have hsum : n.offset + start.toNat < 2 ^ 32 := by omega
  have hadd := (add_start_iff hsum).mpr ((start_build_iff h).mpr hproper)
  rw [SharedBuffer.data, buf_build, hadd]

/-- A proper nesting that fits is the part of the block that is meant. -/
theorem denotes_of_proper (h : n.Fits) (hproper : n.Proper old) : n.Denotes old := by
  have hsize : (n.build old).size.toNat = n.bytes.length := size_build h
  have hstart := (start_build_iff h).mpr hproper
  have hwindow := bytes_eq h
  constructor
  case buf => exact buf_build old n
  case start => exact hstart
  case size => exact hsize
  case content =>
    have hdata : (n.build old).data 0 = n.base.bytes.drop n.offset :=
      data_build h hproper (Nat.zero_le _)
    rw [SharedBuffer.content, hdata, hsize]
    exact hwindow.symm
  case window =>
    rw [hsize]
    exact hwindow
  case inside =>
    rw [hstart, hsize]
    exact offset_add_length h
  case data =>
    intro start hle
    rw [hsize] at hle
    exact data_build h hproper hle
  case slice_slice =>
    intro start start' _
    have hsub : (n.build old).size - start - start' = (n.build old).size - (start + start') :=
      UInt32.toBitVec_inj.mp (BitVec.sub_sub _ _ _)
    simp only [build, SharedBuffer.slice, UInt32.add_assoc, hsub]
  case slice_range =>
    intro start start' size' _
    simp only [build, SharedBuffer.slice, SharedBuffer.range, UInt32.add_assoc]
  case range_slice =>
    intro start size start' _ _
    simp only [build, SharedBuffer.slice, SharedBuffer.range, UInt32.add_assoc]
  case range_range =>
    intro start size start' size' _ _
    simp only [build, SharedBuffer.range, UInt32.add_assoc]

/-- Every nesting that fits is the part of the block that is meant exactly when its first range is
not a part of a `Buffer`, or was placed where the start stood already. -/
theorem denotes_iff_proper (old : UInt32) (n : Nesting) (h : n.Fits) :
    n.Denotes old ↔ n.Proper old := by
  constructor
  · intro hdenotes
    exact (start_build_iff h).mp hdenotes.start
  · exact denotes_of_proper h

/-- Three bytes. -/
def abc : Buffer := ⟨[0x61, 0x62, 0x63], by decide⟩

/-- A range of a slice of three bytes. -/
theorem denotes_iff_proper_abc :
    ((((buffer abc).slice 1).copy.range 1 1).Fits ∧
      ((((buffer abc).slice 1).copy.range 1 1).Denotes 7 ↔
        (((buffer abc).slice 1).copy.range 1 1).Proper 7)) :=
  ⟨by simp [Fits, bytes, abc], denotes_iff_proper 7 _ (by simp [Fits, bytes, abc])⟩

/-- The last two of three bytes, in zeroed memory: the range has the first two. -/
theorem bufferRange_abc_not_denotes :
    (bufferRange abc 1 2).Fits ∧ (bufferRange abc 1 2).bytes = [0x62, 0x63] ∧
      ((bufferRange abc 1 2).build 0).content = [0x61, 0x62] ∧
      ¬ (bufferRange abc 1 2).Denotes 0 := by
  refine ⟨by simp [Fits, abc], rfl, rfl, fun h => ?_⟩
  have hstart : (0 : ℕ) = 1 := h.start
  omega

end Nesting

namespace SharedBuffer

variable {b : SharedBuffer}

/-- On natural numbers a slice is the same slice, if it starts inside. -/
theorem slice_toRange {start : UInt32} (hfits : b.start.toNat + b.size.toNat < 2 ^ 32)
    (hstart : start.toNat ≤ b.size.toNat) :
    b.toRange.slice start.toNat = .ok (b.slice start).toRange := by
  have hsum : b.start.toNat + start.toNat < 2 ^ 32 := by omega
  have hadd : (b.start + start).toNat = b.start.toNat + start.toNat :=
    (Nesting.add_start_iff hsum).mpr rfl
  have hsub : (b.size - start).toNat = b.size.toNat - start.toNat :=
    UInt32.toNat_sub_of_le _ _ (UInt32.le_iff_toNat_le.mpr hstart)
  rw [Core.SharedBuffer.slice, toRange, if_pos hstart, toRange, slice, hadd, hsub]

/-- On natural numbers a range is the same range, if it is inside. -/
theorem range_toRange {start size : UInt32} (hfits : b.start.toNat + b.size.toNat < 2 ^ 32)
    (hstart : start.toNat + size.toNat ≤ b.size.toNat) :
    b.toRange.range start.toNat size.toNat = (b.range start size).toRange := by
  have hsum : b.start.toNat + start.toNat < 2 ^ 32 := by omega
  have hadd : (b.start + start).toNat = b.start.toNat + start.toNat :=
    (Nesting.add_start_iff hsum).mpr rfl
  rw [Core.SharedBuffer.range, toRange, toRange, range, hadd]

/-- The whole of a memory block is the received range that the decoders start with. -/
theorem toRange_ofData (memory : Buffer) :
    (ofData memory).toRange = Core.SharedBuffer.copyOf memory.bytes := by
  have hsize : memory.size.toNat = memory.bytes.length := UInt32.toNat_ofNat_of_lt' memory.fits
  rw [toRange, ofData, hsize, Core.SharedBuffer.copyOf]
  rfl

end SharedBuffer

/-- What proper constructors build is the range of the decoders: the bytes meant, between the bytes of
the block before and after them. -/
theorem Nesting.toRange_build {old : UInt32} {n : Nesting} (h : n.Fits) (hproper : n.Proper old) :
    (n.build old).toRange = .within (n.base.bytes.take n.offset) n.bytes
      (n.base.bytes.drop (n.offset + n.bytes.length)) := by
  have hdenotes := denotes_of_proper h hproper
  have hinside := offset_add_length h
  have hbytes : n.base.bytes.take n.offset ++ n.bytes ++
      n.base.bytes.drop (n.offset + n.bytes.length) = n.base.bytes := by
    conv_lhs =>
      enter [1, 2]
      rw [bytes_eq h]
    rw [← List.take_add, List.take_append_drop]
  have hlength : (n.base.bytes.take n.offset).length = n.offset := by
    rw [List.length_take]
    omega
  rw [SharedBuffer.toRange, Core.SharedBuffer.within, hbytes, hlength, hdenotes.buf,
    hdenotes.start, hdenotes.size]

end Multicrew.Core.Unsigned
