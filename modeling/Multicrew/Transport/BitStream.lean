import Multicrew.Library.Bits
import Multicrew.Library.Bytes
import Mathlib.Logic.Function.Basic

/-!
# Bit streams

`RakNet::BitStream` packs bits into bytes, most significant first, with shifts and joins on a
buffer whose unwritten part is whatever it was. The model keeps that buffer. Its meaning is the
list of bits written so far: every write appends the bits of what it writes, and every read at the
position of a write gives back what was written.
-/

namespace Multicrew.Transport

open Multicrew.Library

/-- A buffer of which the first `numberOfBitsUsed` bits are written, with a read position. -/
structure BitStream where
  data : ℕ → UInt8 := fun _ => 0
  numberOfBitsUsed : ℕ := 0
  readOffset : ℕ := 0

/-- The macro `BITS_TO_BYTES`. -/
def bitsToBytes (bits : ℕ) : ℕ := (bits + 7) / 8

namespace BitStream

/-- `BitStream( _data, lengthInBytes, false )`. -/
def ofBytes (bytes : List UInt8) : BitStream :=
  { data := fun i => bytes.getD i 0, numberOfBitsUsed := 8 * bytes.length }

variable (s : BitStream)

/-- `Reset`, which leaves the old bytes in the buffer. -/
def reset : BitStream := { s with numberOfBitsUsed := 0, readOffset := 0 }

/-- `IgnoreBits`: go on reading further behind. -/
def ignoreBits (numberOfBits : ℕ) : BitStream :=
  { s with readOffset := s.readOffset + numberOfBits }

/-- The bytes that are sent: `GetData` up to `GetNumberOfBytesUsed`. -/
def toBytes : List UInt8 := (List.range (bitsToBytes s.numberOfBitsUsed)).map s.data

/-- `Write1` and `Write0`. -/
def writeBool (b : Bool) : BitStream :=
  let index := s.numberOfBitsUsed / 8
  let mod8 := s.numberOfBitsUsed % 8
  let one := if b then (0x80 : UInt8) >>> UInt8.ofNat mod8 else 0
  let byte := if mod8 = 0 then one else s.data index ||| one
  { s with data := Function.update s.data index byte, numberOfBitsUsed := s.numberOfBitsUsed + 1 }

/-- One turn of the loop in `WriteBits`, with `rightAlignedBits`. -/
def writeByte (dataByte : UInt8) (numberOfBitsToWrite : ℕ) : BitStream :=
  let dataByte :=
    if numberOfBitsToWrite < 8 then dataByte <<< UInt8.ofNat (8 - numberOfBitsToWrite) else dataByte
  let index := s.numberOfBitsUsed / 8
  let mod8 := s.numberOfBitsUsed % 8
  let firstHalf := s.data index ||| dataByte >>> UInt8.ofNat mod8
  let data :=
    if mod8 = 0 then Function.update s.data index dataByte
    else if 8 - mod8 < numberOfBitsToWrite then
      -- the second half overlaps the byte boundary
      Function.update (Function.update s.data index firstHalf) (index + 1)
        (dataByte <<< UInt8.ofNat (8 - mod8))
    else Function.update s.data index firstHalf
  { s with data, numberOfBitsUsed := s.numberOfBitsUsed + min numberOfBitsToWrite 8 }

/-- `WriteBits`. -/
def writeBits (s : BitStream) : List UInt8 → ℕ → BitStream
  | [], _ => s
  | dataByte :: input, numberOfBitsToWrite =>
    if numberOfBitsToWrite = 0 then s
    else (s.writeByte dataByte numberOfBitsToWrite).writeBits input (numberOfBitsToWrite - 8)

/-- `AlignWriteToByteBoundary`. -/
def alignWrite : BitStream :=
  { s with
    numberOfBitsUsed :=
      if s.numberOfBitsUsed = 0 then 0
      else s.numberOfBitsUsed + (8 - ((s.numberOfBitsUsed - 1) % 8 + 1)) }

/-- `WriteAlignedBytes`. -/
def writeAlignedBytes (input : List UInt8) : BitStream :=
  let t := s.alignWrite
  let index := t.numberOfBitsUsed / 8
  { t with
    data := fun i => if index ≤ i ∧ i < index + input.length then input.getD (i - index) 0
      else t.data i
    numberOfBitsUsed := t.numberOfBitsUsed + 8 * input.length }

/-- The loop of `WriteCompressed` for unsigned data from `currentByte` down. -/
def writeCompressedFrom (s : BitStream) (input : List UInt8) : ℕ → BitStream
  | 0 =>
    let low := input.getD 0 0
    if low &&& 0xF0 = 0 then (s.writeBool true).writeBits [low] 4
    else (s.writeBool false).writeBits [low] 8
  | currentByte + 1 =>
    if input.getD (currentByte + 1) 0 = 0 then
      (s.writeBool true).writeCompressedFrom input currentByte
    else (s.writeBool false).writeBits input (8 * (currentByte + 2))

/-- `WriteCompressed` of unsigned data. -/
def writeCompressed (input : List UInt8) : BitStream := s.writeCompressedFrom input (input.length - 1)

/-- `Read( bool )`. -/
def readBool : Option (Bool × BitStream) :=
  if s.numberOfBitsUsed < s.readOffset + 1 then none
  else some
    ((s.data (s.readOffset / 8) &&& (0x80 : UInt8) >>> UInt8.ofNat (s.readOffset % 8)) != 0,
      s.ignoreBits 1)

/-- One turn of the loop in `ReadBits`, with `alignBitsToRight`. -/
def readByte (numberOfBitsToRead : ℕ) : UInt8 :=
  let index := s.readOffset / 8
  let mod8 := s.readOffset % 8
  let firstHalf := s.data index <<< UInt8.ofNat mod8
  let byte :=
    if 0 < mod8 ∧ 8 - mod8 < numberOfBitsToRead then
      firstHalf ||| s.data (index + 1) >>> UInt8.ofNat (8 - mod8)
    else firstHalf
  if numberOfBitsToRead < 8 then byte >>> UInt8.ofNat (8 - numberOfBitsToRead) else byte

/-- The loop of `ReadBits` for so many bytes. -/
def readBytes (s : BitStream) : ℕ → ℕ → List UInt8
  | 0, _ => []
  | bytes + 1, numberOfBitsToRead =>
    s.readByte numberOfBitsToRead :: (s.ignoreBits 8).readBytes bytes (numberOfBitsToRead - 8)

/-- `ReadBits`. -/
def readBits (numberOfBitsToRead : ℕ) : Option (List UInt8 × BitStream) :=
  if s.numberOfBitsUsed < s.readOffset + numberOfBitsToRead then none
  else some (s.readBytes (bitsToBytes numberOfBitsToRead) numberOfBitsToRead,
    s.ignoreBits numberOfBitsToRead)

/-- `AlignReadToByteBoundary`. -/
def alignRead : BitStream :=
  { s with
    readOffset :=
      if s.readOffset = 0 then 0 else s.readOffset + (8 - ((s.readOffset - 1) % 8 + 1)) }

/-- `ReadAlignedBytes`. -/
def readAlignedBytes (numberOfBytesToRead : ℕ) : Option (List UInt8 × BitStream) :=
  if numberOfBytesToRead = 0 then none
  else
    let t := s.alignRead
    if t.numberOfBitsUsed < t.readOffset + 8 * numberOfBytesToRead then none
    else some ((List.range numberOfBytesToRead).map fun i => t.data (t.readOffset / 8 + i),
      t.ignoreBits (8 * numberOfBytesToRead))

/-- The loop of `ReadCompressed` for unsigned data from `currentByte` down. -/
def readCompressedFrom (s : BitStream) : ℕ → Option (List UInt8 × BitStream)
  | 0 =>
    match s.readBool with
    | none => none
    | some (true, t) => t.readBits 4
    | some (false, t) => t.readBits 8
  | currentByte + 1 =>
    match s.readBool with
    | none => none
    | some (true, t) => (t.readCompressedFrom currentByte).map fun (low, u) => (low ++ [0], u)
    | some (false, t) => t.readBits (8 * (currentByte + 2))

/-- `ReadCompressed` of an unsigned number of so many bytes. -/
def readCompressed (bytes : ℕ) : Option (List UInt8 × BitStream) := s.readCompressedFrom (bytes - 1)

/-! ### What a stream holds -/

/-- The `i`-th bit of the buffer. -/
def bit (i : ℕ) : Bool := bitOf (s.data (i / 8)) (i % 8)

/-- The bits written so far. -/
def bits : List Bool := (List.range s.numberOfBitsUsed).map s.bit

/-- Behind the last bit, the rest of its byte is zero: what the joins of the writes rely on. -/
def Clean : Prop :=
  ∀ k < 8, s.numberOfBitsUsed % 8 ≠ 0 → s.numberOfBitsUsed % 8 ≤ k →
    bitOf (s.data (s.numberOfBitsUsed / 8)) k = false

/-- `t` is `s` after bits have been written to it. -/
structure Appends (s t : BitStream) (written : List Bool) : Prop where
  bits : t.bits = s.bits ++ written
  clean : t.Clean

/-- The list of bits is as long as the stream says. -/
@[simp] theorem length_bits : s.bits.length = s.numberOfBitsUsed := by
  rw [bits, List.length_map, List.length_range]

variable {s}

/-- Writes one after the other. -/
theorem Appends.trans {t u : BitStream} {xs ys : List Bool} (hst : Appends s t xs)
    (htu : Appends t u ys) : Appends s u (xs ++ ys) :=
  ⟨by rw [htu.bits, hst.bits, List.append_assoc], htu.clean⟩

/-- A write leaves the earlier bits and puts its own behind them. -/
theorem bits_eq_append {t : BitStream} {written : List Bool}
    (hused : t.numberOfBitsUsed = s.numberOfBitsUsed + written.length)
    (hkept : ∀ i < s.numberOfBitsUsed, t.bit i = s.bit i)
    (hwritten : ∀ k (hk : k < written.length), t.bit (s.numberOfBitsUsed + k) = written[k]) :
    t.bits = s.bits ++ written := by
  apply List.ext_getElem
  · rw [List.length_append, length_bits, length_bits, hused]
  · intro i hi hi'
    rw [length_bits] at hi
    simp only [bits, List.getElem_map, List.getElem_range, List.getElem_append, List.length_map,
      List.length_range]
    split
    · exact hkept i ‹_›
    · have hlast := hwritten (i - s.numberOfBitsUsed) (by omega)
      rwa [Nat.add_sub_cancel' (by omega)] at hlast

/-- The bits that one turn of `WriteBits` takes from a byte. -/
def pieceBits (dataByte : UInt8) (n : ℕ) : List Bool := (byteBits dataByte).drop (8 - n)

/-- A piece has at most eight bits. -/
theorem length_pieceBits (dataByte : UInt8) (n : ℕ) : (pieceBits dataByte n).length = min n 8 := by
  rw [pieceBits, List.length_drop, length_byteBits]
  omega

/-- They are the lowest of the byte, the highest of these first. -/
theorem getElem_pieceBits {dataByte : UInt8} {n k : ℕ} (hk : k < (pieceBits dataByte n).length) :
    (pieceBits dataByte n)[k] = bitOf dataByte (8 - n + k) := by
  simp only [pieceBits, List.getElem_drop, getElem_byteBits]

/-- What is left-aligned before it is written. -/
theorem bitOf_leftAligned (dataByte : UInt8) {n k : ℕ} (hn : n ≠ 0) (hk : k < 8) :
    bitOf (if n < 8 then dataByte <<< UInt8.ofNat (8 - n) else dataByte) k =
      (decide (k < n) && bitOf dataByte (8 - n + k)) := by
  by_cases hlt : n < 8
  · rw [if_pos hlt, bitOf_shiftLeft _ (by omega) hk]
    have hiff : k + (8 - n) < 8 ↔ k < n := by omega
    simp only [hiff, Nat.add_comm (8 - n) k]
  · have hsub : 8 - n + k = k := by omega
    have hin : k < n := by omega
    simp [hlt, hsub, hin]

/-- Writing a bit appends it. -/
theorem Clean.writeBool (hs : s.Clean) (b : Bool) : Appends s (s.writeBool b) [b] := by
  have hmod : s.numberOfBitsUsed % 8 < 8 := Nat.mod_lt _ (by decide)
  -- the byte at the write position: its earlier bits, the new one, and zeros
  have hbyte : ∀ k < 8, bitOf ((s.writeBool b).data (s.numberOfBitsUsed / 8)) k =
      if k < s.numberOfBitsUsed % 8 then bitOf (s.data (s.numberOfBitsUsed / 8)) k
      else decide (k = s.numberOfBitsUsed % 8) && b := by
    intro k hk
    have hone : bitOf (if b then (0x80 : UInt8) >>> UInt8.ofNat (s.numberOfBitsUsed % 8) else 0) k =
        (decide (k = s.numberOfBitsUsed % 8) && b) := by
      cases b with
      | false => simp
      | true =>
        have htop : ∀ j < 8, bitOf 0x80 j = decide (j = 0) := by decide
        rw [if_pos rfl, bitOf_shiftRight _ hmod hk, htop _ (by omega), Bool.and_true,
          Bool.eq_iff_iff, Bool.and_eq_true, decide_eq_true_eq, decide_eq_true_eq,
          decide_eq_true_eq]
        omega
    simp only [BitStream.writeBool, Function.update_self]
    by_cases hzero : s.numberOfBitsUsed % 8 = 0
    · rw [if_pos hzero, hone, if_neg (by omega)]
    · rw [if_neg hzero, bitOf_or, hone]
      by_cases hlt : k < s.numberOfBitsUsed % 8
      · have hne : k ≠ s.numberOfBitsUsed % 8 := by omega
        simp [hlt, hne]
      · rw [if_neg hlt, hs k hk hzero (by omega), Bool.false_or]
  have hother : ∀ i, i ≠ s.numberOfBitsUsed / 8 → (s.writeBool b).data i = s.data i := fun i hi =>
    Function.update_of_ne hi ..
  refine ⟨bits_eq_append rfl (fun i hi => ?_) (fun k hk => ?_), fun k hk hne hle => ?_⟩
  · by_cases hsame : i / 8 = s.numberOfBitsUsed / 8
    · rw [bit, bit, hsame, hbyte _ (Nat.mod_lt _ (by decide)), if_pos (by omega)]
    · rw [bit, bit, hother _ hsame]
  · obtain rfl : k = 0 := by simpa using hk
    simp only [Nat.add_zero, List.getElem_cons_zero]
    rw [bit, hbyte _ hmod, if_neg (Nat.lt_irrefl _), decide_eq_true rfl, Bool.true_and]
  · simp only [BitStream.writeBool] at hne hle
    have hsame : (s.writeBool b).numberOfBitsUsed / 8 = s.numberOfBitsUsed / 8 := by
      simp only [BitStream.writeBool]
      omega
    rw [hsame, hbyte k hk, if_neg (by omega), decide_eq_false (by omega), Bool.false_and]

/-- One turn of `WriteBits` appends the bits of the byte, the low ones of a last partial byte. -/
theorem Clean.writeByte (hs : s.Clean) (dataByte : UInt8) {n : ℕ} (hn : n ≠ 0) :
    Appends s (s.writeByte dataByte n) (pieceBits dataByte n) := by
  have hmod : s.numberOfBitsUsed % 8 < 8 := Nat.mod_lt _ (by decide)
  have haligned := fun k (hk : k < 8) => bitOf_leftAligned dataByte hn hk
  generalize hbyte : (if n < 8 then dataByte <<< UInt8.ofNat (8 - n) else dataByte) = byte
    at haligned
  -- the byte at the write position: its earlier bits, then those of the written byte
  have hfirst : ∀ k < 8, bitOf ((s.writeByte dataByte n).data (s.numberOfBitsUsed / 8)) k =
      if k < s.numberOfBitsUsed % 8 then bitOf (s.data (s.numberOfBitsUsed / 8)) k
      else bitOf byte (k - s.numberOfBitsUsed % 8) := by
    intro k hk
    have hjoined : s.numberOfBitsUsed % 8 ≠ 0 →
        bitOf (s.data (s.numberOfBitsUsed / 8) ||| byte >>> UInt8.ofNat (s.numberOfBitsUsed % 8)) k =
        if k < s.numberOfBitsUsed % 8 then bitOf (s.data (s.numberOfBitsUsed / 8)) k
        else bitOf byte (k - s.numberOfBitsUsed % 8) := by
      intro hzero
      rw [bitOf_or, bitOf_shiftRight _ hmod hk]
      by_cases hlt : k < s.numberOfBitsUsed % 8
      · have hnle : ¬ s.numberOfBitsUsed % 8 ≤ k := by omega
        simp [hlt, hnle]
      · have hle : s.numberOfBitsUsed % 8 ≤ k := by omega
        rw [if_neg hlt, hs k hk hzero hle, decide_eq_true hle, Bool.false_or, Bool.true_and]
    simp only [BitStream.writeByte, hbyte]
    split
    · rename_i hzero
      rw [Function.update_self, if_neg (by omega), hzero, Nat.sub_zero]
    · rename_i hzero
      split
      · rw [Function.update_of_ne (by omega), Function.update_self]
        exact hjoined hzero
      · rw [Function.update_self]
        exact hjoined hzero
  -- the byte behind it, when the written byte reaches into it
  have hsecond : s.numberOfBitsUsed % 8 ≠ 0 → 8 - s.numberOfBitsUsed % 8 < n → ∀ k < 8,
      bitOf ((s.writeByte dataByte n).data (s.numberOfBitsUsed / 8 + 1)) k =
        (decide (k + (8 - s.numberOfBitsUsed % 8) < 8) &&
          bitOf byte (k + (8 - s.numberOfBitsUsed % 8))) := by
    intro hzero hover k hk
    simp only [BitStream.writeByte, hbyte, if_neg hzero, if_pos hover, Function.update_self]
    exact bitOf_shiftLeft _ (by omega) hk
  have hother : ∀ i < s.numberOfBitsUsed / 8, (s.writeByte dataByte n).data i = s.data i := by
    intro i hi
    simp only [BitStream.writeByte]
    split
    · exact Function.update_of_ne (by omega) ..
    · split
      · rw [Function.update_of_ne (by omega), Function.update_of_ne (by omega)]
      · exact Function.update_of_ne (by omega) ..
  have hused : (s.writeByte dataByte n).numberOfBitsUsed = s.numberOfBitsUsed + min n 8 := rfl
  refine ⟨bits_eq_append (by rw [hused, length_pieceBits]) (fun i hi => ?_) (fun k hk => ?_),
    fun k hk hne hle => ?_⟩
  · by_cases hsame : i / 8 = s.numberOfBitsUsed / 8
    · rw [bit, bit, hsame, hfirst _ (Nat.mod_lt _ (by decide)), if_pos (by omega)]
    · rw [bit, bit, hother _ (by omega)]
  · have hk' := hk
    rw [length_pieceBits] at hk'
    rw [getElem_pieceBits, bit]
    have hval : bitOf byte k = bitOf dataByte (8 - n + k) := by
      rw [haligned k (by omega), decide_eq_true (by omega), Bool.true_and]
    by_cases hsame : (s.numberOfBitsUsed + k) / 8 = s.numberOfBitsUsed / 8
    · rw [hsame, hfirst _ (Nat.mod_lt _ (by decide)), if_neg (by omega), ← hval]
      congr 1
      omega
    · have hnext : (s.numberOfBitsUsed + k) / 8 = s.numberOfBitsUsed / 8 + 1 := by omega
      have hcol : (s.numberOfBitsUsed + k) % 8 + (8 - s.numberOfBitsUsed % 8) = k := by omega
      rw [hnext, hsecond (by omega) (by omega) _ (Nat.mod_lt _ (by decide)), hcol,
        decide_eq_true (by omega), Bool.true_and, hval]
  · rw [hused] at hne hle ⊢
    by_cases hsame : (s.numberOfBitsUsed + min n 8) / 8 = s.numberOfBitsUsed / 8
    · rw [hsame, hfirst k hk, if_neg (by omega), haligned _ (by omega), decide_eq_false (by omega),
        Bool.false_and]
    · have hnext : (s.numberOfBitsUsed + min n 8) / 8 = s.numberOfBitsUsed / 8 + 1 := by omega
      rw [hnext, hsecond (by omega) (by omega) k hk]
      by_cases hin : k + (8 - s.numberOfBitsUsed % 8) < 8
      · have hbehind : ¬ k + (8 - s.numberOfBitsUsed % 8) < n := by omega
        rw [haligned _ hin, decide_eq_false hbehind, Bool.false_and, Bool.and_false]
      · rw [decide_eq_false hin, Bool.false_and]

/-- The bits `WriteBits` takes from its input. -/
def fieldBits : List UInt8 → ℕ → List Bool
  | [], _ => []
  | dataByte :: input, n => if n = 0 then [] else pieceBits dataByte n ++ fieldBits input (n - 8)

/-- `WriteBits` appends the bits of its input. -/
theorem Clean.writeBits (hs : s.Clean) (input : List UInt8) (n : ℕ) :
    Appends s (s.writeBits input n) (fieldBits input n) := by
  induction input generalizing s n with
  | nil => exact ⟨(List.append_nil _).symm, hs⟩
  | cons dataByte input ih =>
    by_cases hn : n = 0
    · rw [BitStream.writeBits, fieldBits, if_pos hn, if_pos hn]
      exact ⟨(List.append_nil _).symm, hs⟩
    · rw [BitStream.writeBits, fieldBits, if_neg hn, if_neg hn]
      have hfirst := hs.writeByte dataByte hn
      exact hfirst.trans (ih hfirst.clean (n - 8))

/-- A field has the bits asked for. -/
theorem length_fieldBits {input : List UInt8} {n : ℕ} (h : input.length = bitsToBytes n) :
    (fieldBits input n).length = n := by
  induction input generalizing n with
  | nil =>
    simp only [List.length_nil, bitsToBytes] at h
    simp only [fieldBits, List.length_nil]
    omega
  | cons dataByte input ih =>
    simp only [List.length_cons, bitsToBytes] at h
    have hn : n ≠ 0 := by omega
    rw [fieldBits, if_neg hn, List.length_append, length_pieceBits, ih (by rw [bitsToBytes]; omega)]
    omega

/-- The bits up to the next byte boundary. -/
def padding (used : ℕ) : ℕ := (8 - used % 8) % 8

/-- Aligning a write goes on to the byte boundary over zeros. -/
theorem Clean.alignWrite (hs : s.Clean) :
    Appends s s.alignWrite (List.replicate (padding s.numberOfBitsUsed) false) := by
  have hused : s.alignWrite.numberOfBitsUsed =
      s.numberOfBitsUsed + padding s.numberOfBitsUsed := by
    simp only [BitStream.alignWrite, padding]
    split <;> omega
  refine ⟨bits_eq_append (by rw [hused, List.length_replicate]) (fun i hi => rfl)
    (fun k hk => ?_), fun k hk hne hle => ?_⟩
  · rw [List.length_replicate, padding] at hk
    rw [List.getElem_replicate]
    have hsame : (s.numberOfBitsUsed + k) / 8 = s.numberOfBitsUsed / 8 := by omega
    change bitOf (s.data ((s.numberOfBitsUsed + k) / 8)) _ = false
    rw [hsame]
    exact hs _ (Nat.mod_lt _ (by decide)) (by omega) (by omega)
  · rw [hused, padding] at hne
    omega

/-- Behind an alignment a byte begins. -/
theorem alignWrite_mod (s : BitStream) : s.alignWrite.numberOfBitsUsed % 8 = 0 := by
  simp only [BitStream.alignWrite]
  split <;> omega

/-- Whole bytes have eight bits each. -/
theorem length_flatMap_byteBits (input : List UInt8) :
    (input.flatMap byteBits).length = 8 * input.length := by
  induction input with
  | nil => rfl
  | cons b input ih =>
    rw [List.flatMap_cons, List.length_append, length_byteBits, ih, List.length_cons]
    omega

/-- A bit of them is a bit of one byte. -/
theorem getElem_flatMap_byteBits {input : List UInt8} {k : ℕ}
    (hk : k < (input.flatMap byteBits).length) :
    (input.flatMap byteBits)[k] = bitOf (input.getD (k / 8) 0) (k % 8) := by
  induction input generalizing k with
  | nil => exact absurd hk (Nat.not_lt_zero k)
  | cons b input ih =>
    have hk' := hk
    rw [length_flatMap_byteBits, List.length_cons] at hk'
    simp only [List.flatMap_cons, List.getElem_append, length_byteBits]
    split
    · rename_i hlt
      rw [getElem_byteBits, Nat.div_eq_of_lt hlt, Nat.mod_eq_of_lt hlt]
      rfl
    · have hlater : k - 8 < (input.flatMap byteBits).length := by
        rw [length_flatMap_byteBits]
        omega
      have hdiv : k / 8 = (k - 8) / 8 + 1 := by omega
      have hmod : k % 8 = (k - 8) % 8 := by omega
      rw [ih hlater, hdiv, hmod, List.getD_cons_succ]

/-- `WriteAlignedBytes` appends zeros up to the boundary and the bytes. -/
theorem Clean.writeAlignedBytes (hs : s.Clean) (input : List UInt8) :
    Appends s (s.writeAlignedBytes input)
      (List.replicate (padding s.numberOfBitsUsed) false ++ input.flatMap byteBits) := by
  have hmod := s.alignWrite_mod
  refine hs.alignWrite.trans ⟨bits_eq_append ?_ (fun i hi => ?_) (fun k hk => ?_),
    fun k hk hne hle => ?_⟩
  · rw [length_flatMap_byteBits]
    rfl
  · have hearlier : i / 8 < s.alignWrite.numberOfBitsUsed / 8 := by omega
    simp only [bit, BitStream.writeAlignedBytes]
    rw [if_neg (by omega)]
  · have hk' := hk
    rw [length_flatMap_byteBits] at hk'
    rw [getElem_flatMap_byteBits]
    have hdiv : (s.alignWrite.numberOfBitsUsed + k) / 8 =
        s.alignWrite.numberOfBitsUsed / 8 + k / 8 := by omega
    have hcol : (s.alignWrite.numberOfBitsUsed + k) % 8 = k % 8 := by omega
    simp only [bit, BitStream.writeAlignedBytes, hdiv, hcol]
    rw [if_pos (by omega), Nat.add_sub_cancel_left]
  · simp only [BitStream.writeAlignedBytes] at hne
    omega

/-- The bits of `WriteCompressed` from `currentByte` down. -/
def compressedBitsFrom (input : List UInt8) : ℕ → List Bool
  | 0 =>
    if input.getD 0 0 &&& 0xF0 = 0 then true :: fieldBits [input.getD 0 0] 4
    else false :: fieldBits [input.getD 0 0] 8
  | currentByte + 1 =>
    if input.getD (currentByte + 1) 0 = 0 then true :: compressedBitsFrom input currentByte
    else false :: fieldBits input (8 * (currentByte + 2))

/-- `WriteCompressed` appends its bits. -/
theorem Clean.writeCompressedFrom (hs : s.Clean) (input : List UInt8) (currentByte : ℕ) :
    Appends s (s.writeCompressedFrom input currentByte) (compressedBitsFrom input currentByte) := by
  induction currentByte generalizing s with
  | zero =>
    simp only [BitStream.writeCompressedFrom, compressedBitsFrom]
    split
    · exact (hs.writeBool true).trans ((hs.writeBool true).clean.writeBits _ 4)
    · exact (hs.writeBool false).trans ((hs.writeBool false).clean.writeBits _ 8)
  | succ currentByte ih =>
    simp only [BitStream.writeCompressedFrom, compressedBitsFrom]
    split
    · exact (hs.writeBool true).trans (ih (hs.writeBool true).clean)
    · exact (hs.writeBool false).trans ((hs.writeBool false).clean.writeBits _ _)

/-! ### Reading what was written -/

/-- The bits at the read position begin with these. -/
def Next (s : BitStream) (xs : List Bool) : Prop := xs <+: s.bits.drop s.readOffset

/-- Skipping leaves the bits. -/
@[simp] theorem ignoreBits_bits (s : BitStream) (n : ℕ) : (s.ignoreBits n).bits = s.bits := rfl

/-- Skipping twice is skipping once. -/
theorem ignoreBits_add (s : BitStream) (m n : ℕ) :
    (s.ignoreBits m).ignoreBits n = s.ignoreBits (m + n) := by
  simp only [ignoreBits, Nat.add_assoc]

/-- What was read is left behind. -/
theorem Next.ignoreBits {xs ys : List Bool} (h : s.Next (xs ++ ys)) :
    (s.ignoreBits xs.length).Next ys := by
  obtain ⟨rest, hrest⟩ := h
  refine ⟨rest, ?_⟩
  change ys ++ rest = s.bits.drop (s.readOffset + xs.length)
  rw [← List.drop_drop, ← hrest, List.append_assoc, List.drop_left]

/-- What comes first of what comes next. -/
theorem Next.left {xs ys : List Bool} (h : s.Next (xs ++ ys)) : s.Next xs :=
  (List.prefix_append xs ys).trans h

/-- Next bits are within the stream. -/
theorem Next.le {xs : List Bool} (h : s.Next xs) (hne : xs ≠ []) :
    s.readOffset + xs.length ≤ s.numberOfBitsUsed := by
  have hlen := h.length_le
  rw [List.length_drop, length_bits] at hlen
  have hpos := List.length_pos_iff.mpr hne
  omega

/-- The bits that come next are those of the data at the offset. -/
theorem Next.bit {xs : List Bool} (h : s.Next xs) {k : ℕ} (hk : k < xs.length) :
    bitOf (s.data ((s.readOffset + k) / 8)) ((s.readOffset + k) % 8) = xs[k] := by
  have hle := h.le (List.ne_nil_of_length_pos (Nat.lt_of_le_of_lt (Nat.zero_le k) hk))
  have hget := h.getElem hk
  rw [hget]
  simp only [bits, List.getElem_drop, List.getElem_map, List.getElem_range, BitStream.bit]

/-- `Read( bool )` reads the next bit. -/
theorem Next.readBool {b : Bool} (h : s.Next [b]) : s.readBool = some (b, s.ignoreBits 1) := by
  have hle := h.le (List.cons_ne_nil b [])
  have hbit := h.bit (k := 0) Nat.zero_lt_one
  have hmod : s.readOffset % 8 < 8 := Nat.mod_lt _ (by decide)
  simp only [Nat.add_zero, List.getElem_cons_zero] at hbit
  have htop : ∀ j < 8, bitOf 0x80 j = decide (j = 0) := by decide
  have hmask : ∀ k < 8, bitOf (s.data (s.readOffset / 8) &&&
      (0x80 : UInt8) >>> UInt8.ofNat (s.readOffset % 8)) k = (decide (k = s.readOffset % 8) && b) := by
    intro k hk
    rw [bitOf, UInt8.toNat_and, Nat.testBit_and, ← bitOf, ← bitOf, bitOf_shiftRight _ hmod hk]
    by_cases heq : k = s.readOffset % 8
    · subst heq
      rw [hbit, Nat.sub_self, htop 0 (by decide)]
      simp
    · rw [decide_eq_false heq, Bool.false_and, htop _ (by omega)]
      have hne : ¬ (s.readOffset % 8 ≤ k ∧ k - s.readOffset % 8 = 0) := by omega
      rw [← Bool.decide_and, decide_eq_false hne, Bool.and_false]
  have hvalue : (s.data (s.readOffset / 8) &&&
      (0x80 : UInt8) >>> UInt8.ofNat (s.readOffset % 8) != 0) = b := by
    cases b with
    | false =>
      rw [bne_eq_false_iff_eq]
      exact eq_of_bitOf fun k hk => by rw [hmask k hk, Bool.and_false, bitOf_zero]
    | true =>
      rw [bne_iff_ne]
      intro hzero
      have hset := hmask (s.readOffset % 8) hmod
      rw [hzero, bitOf_zero] at hset
      simp at hset
  rw [BitStream.readBool, if_neg (by simp only [List.length_singleton] at hle; omega), hvalue]

/-- A bit is read and left behind. -/
theorem Next.cons {b : Bool} {ys : List Bool} (h : s.Next (b :: ys)) :
    s.readBool = some (b, s.ignoreBits 1) ∧ (s.ignoreBits 1).Next ys := by
  have hsplit : s.Next ([b] ++ ys) := h
  exact ⟨hsplit.left.readBool, hsplit.ignoreBits⟩

/-- One turn of `ReadBits` reads a byte of which `n` bits were written. -/
theorem Next.readByte {b : UInt8} {n : ℕ} (h : s.Next (pieceBits b n)) (hn : n ≠ 0)
    (hb : n < 8 → b.toNat < 2 ^ n) : s.readByte n = b := by
  have hmod : s.readOffset % 8 < 8 := Nat.mod_lt _ (by decide)
  -- the bits that are joined: those of the byte from its first written one on
  have hjoined : ∀ k < min n 8, bitOf (if 0 < s.readOffset % 8 ∧ 8 - s.readOffset % 8 < n then
        s.data (s.readOffset / 8) <<< UInt8.ofNat (s.readOffset % 8) |||
          s.data (s.readOffset / 8 + 1) >>> UInt8.ofNat (8 - s.readOffset % 8)
      else s.data (s.readOffset / 8) <<< UInt8.ofNat (s.readOffset % 8)) k =
      bitOf b (8 - n + k) := by
    intro k hk
    have hbit := h.bit (k := k) (by rwa [length_pieceBits])
    rw [getElem_pieceBits] at hbit
    rw [← hbit]
    have hfirst := bitOf_shiftLeft (s.data (s.readOffset / 8)) (k := k) hmod (by omega)
    by_cases hin : k + s.readOffset % 8 < 8
    · have hdiv : (s.readOffset + k) / 8 = s.readOffset / 8 := by omega
      have hcol : (s.readOffset + k) % 8 = k + s.readOffset % 8 := by omega
      rw [decide_eq_true hin, Bool.true_and] at hfirst
      rw [hdiv, hcol]
      split
      · have hbehind : ¬ 8 - s.readOffset % 8 ≤ k := by omega
        rw [bitOf_or, hfirst, bitOf_shiftRight _ (by omega) (by omega), decide_eq_false hbehind,
          Bool.false_and, Bool.or_false]
      · exact hfirst
    · have hdiv : (s.readOffset + k) / 8 = s.readOffset / 8 + 1 := by omega
      have hcol : (s.readOffset + k) % 8 = k - (8 - s.readOffset % 8) := by omega
      rw [decide_eq_false hin, Bool.false_and] at hfirst
      rw [hdiv, hcol, if_pos (by omega), bitOf_or, hfirst, Bool.false_or,
        bitOf_shiftRight _ (by omega) (by omega), decide_eq_true (by omega), Bool.true_and]
  apply eq_of_bitOf
  intro k hk
  simp only [BitStream.readByte]
  by_cases hlt : n < 8
  · rw [if_pos hlt, bitOf_shiftRight _ (by omega) hk]
    by_cases hin : 8 - n ≤ k
    · rw [decide_eq_true hin, Bool.true_and, hjoined _ (by omega), Nat.add_sub_cancel' hin]
    · rw [decide_eq_false hin, Bool.false_and, bitOf_of_lt (hb hlt) (by omega)]
  · rw [if_neg hlt, hjoined k (by omega)]
    congr 1
    omega

/-- Bytes that are `n` bits: the last one may be partial and holds no more than its bits. -/
def Fits : List UInt8 → ℕ → Prop
  | [], n => n = 0
  | b :: rest, n => n ≠ 0 ∧ (n < 8 → b.toNat < 2 ^ n) ∧ Fits rest (n - 8)

/-- Whole bytes fit. -/
theorem fits_bytes (input : List UInt8) : Fits input (8 * input.length) := by
  induction input with
  | nil => rfl
  | cons b rest ih =>
    rw [List.length_cons, Nat.mul_succ]
    exact ⟨by omega, fun h => absurd h (by omega), ih⟩

/-- A field fills its bytes but for the last. -/
theorem Fits.length {input : List UInt8} {n : ℕ} (h : Fits input n) :
    input.length = bitsToBytes n := by
  induction input generalizing n with
  | nil =>
    obtain rfl : n = 0 := h
    rfl
  | cons b rest ih =>
    rw [List.length_cons, ih h.2.2, bitsToBytes, bitsToBytes]
    have hn := h.1
    omega

/-- If a field comes next, reading its bits gives its bytes. -/
theorem Next.readBytes {input : List UInt8} {n : ℕ} (h : s.Next (fieldBits input n))
    (hfit : Fits input n) : s.readBytes input.length n = input := by
  induction input generalizing s n with
  | nil => rfl
  | cons b rest ih =>
    obtain ⟨hn, hb, hrest⟩ := hfit
    rw [fieldBits, if_neg hn] at h
    rw [List.length_cons, BitStream.readBytes, h.left.readByte hn hb]
    cases rest with
    | nil => rfl
    | cons c rest =>
      have hlen : (pieceBits b n).length = 8 := by
        have hpos := hrest.1
        rw [length_pieceBits]
        omega
      have hnext := h.ignoreBits
      rw [hlen] at hnext
      rw [ih hnext hrest]

/-- `ReadBits` reads what `WriteBits` wrote. -/
theorem Next.readBits {input : List UInt8} {n : ℕ} (h : s.Next (fieldBits input n))
    (hfit : Fits input n) (hn : n ≠ 0) : s.readBits n = some (input, s.ignoreBits n) := by
  have hlen := length_fieldBits hfit.length
  have hle := h.le (by rw [← List.length_pos_iff]; omega)
  rw [BitStream.readBits, if_neg (by omega), ← hfit.length, h.readBytes hfit]

/-- Aligning skips the padding. -/
theorem alignRead_readOffset (s : BitStream) :
    s.alignRead = s.ignoreBits (padding s.readOffset) := by
  simp only [alignRead, ignoreBits, padding]
  congr 1
  split <;> omega

/-- `ReadAlignedBytes` reads what `WriteAlignedBytes` wrote at the same position. -/
theorem Next.readAlignedBytes {input : List UInt8}
    (h : s.Next (List.replicate (padding s.readOffset) false ++ input.flatMap byteBits))
    (hne : input ≠ []) :
    s.readAlignedBytes input.length =
      some (input, s.ignoreBits (padding s.readOffset + 8 * input.length)) := by
  have hpos := List.length_pos_iff.mpr hne
  have hnext := h.ignoreBits
  rw [List.length_replicate, ← alignRead_readOffset] at hnext
  have hle := hnext.le (by rw [← List.length_pos_iff, length_flatMap_byteBits]; omega)
  rw [length_flatMap_byteBits] at hle
  have haligned : s.alignRead.readOffset % 8 = 0 := by
    rw [alignRead_readOffset]
    simp only [BitStream.ignoreBits, padding]
    omega
  rw [BitStream.readAlignedBytes, if_neg (by omega)]
  simp only
  rw [if_neg (by omega), Option.some.injEq, Prod.mk.injEq]
  constructor
  · apply List.ext_getElem
    · rw [List.length_map, List.length_range]
    · intro i hi hi'
      rw [List.getElem_map, List.getElem_range]
      apply eq_of_bitOf
      intro k hk
      have hbit := hnext.bit (k := 8 * i + k) (by rw [length_flatMap_byteBits]; omega)
      have hdiv : (s.alignRead.readOffset + (8 * i + k)) / 8 = s.alignRead.readOffset / 8 + i := by
        omega
      have hcol : (s.alignRead.readOffset + (8 * i + k)) % 8 = k := by omega
      have hbyte : (8 * i + k) / 8 = i := by omega
      have hplace : (8 * i + k) % 8 = k := by omega
      rw [hdiv, hcol, getElem_flatMap_byteBits, hbyte, hplace, List.getD_eq_getElem _ _ hi'] at hbit
      exact hbit
  · rw [alignRead_readOffset, ignoreBits_add]

/-- A byte whose upper half is zero fits into four bits. -/
theorem toNat_lt_of_upperHalf {b : UInt8} (h : b &&& 0xF0 = 0) : b.toNat < 2 ^ 4 := by
  apply Nat.lt_pow_two_of_testBit
  intro i hi
  by_cases hin : i < 8
  · have hmask : ∀ j < 8, 4 ≤ j → Nat.testBit 240 j = true := by decide
    have hbit := congrArg (fun byte => byte.toNat.testBit i) h
    simpa [hmask i hin hi] using hbit
  · exact Nat.testBit_lt_two_pow (Nat.lt_of_lt_of_le b.toNat_lt
      (Nat.pow_le_pow_right (by decide) (Nat.le_of_not_lt hin)))

/-- `WriteBits` looks at no more bytes than it has bits for. -/
theorem fieldBits_append {low : List UInt8} {n : ℕ} (hn : n ≤ 8 * low.length) (more : List UInt8) :
    fieldBits (low ++ more) n = fieldBits low n := by
  induction low generalizing n with
  | nil =>
    obtain rfl : n = 0 := by simpa using hn
    cases more <;> rfl
  | cons b low ih =>
    rw [List.length_cons] at hn
    rw [List.cons_append, fieldBits, fieldBits, ih (by omega)]

/-- Bytes above the one looked at do not matter. -/
theorem compressedBitsFrom_append {low : List UInt8} {currentByte : ℕ}
    (h : currentByte < low.length) (more : List UInt8) :
    compressedBitsFrom (low ++ more) currentByte = compressedBitsFrom low currentByte := by
  induction currentByte with
  | zero => simp only [compressedBitsFrom, List.getD_append _ _ _ _ h]
  | succ currentByte ih =>
    simp only [compressedBitsFrom, List.getD_append _ _ _ _ h, ih (by omega),
      fieldBits_append (show 8 * (currentByte + 2) ≤ 8 * low.length by omega)]

/-- `ReadCompressed` reads what `WriteCompressed` wrote. -/
theorem Next.readCompressedFrom {input : List UInt8} {currentByte : ℕ}
    (h : s.Next (compressedBitsFrom input currentByte)) (hlen : input.length = currentByte + 1) :
    s.readCompressedFrom currentByte =
      some (input, s.ignoreBits (compressedBitsFrom input currentByte).length) := by
  induction currentByte generalizing s input with
  | zero =>
    obtain ⟨low, rfl⟩ := List.length_eq_one_iff.mp hlen
    simp only [compressedBitsFrom, List.getD_cons_zero] at h ⊢
    rw [BitStream.readCompressedFrom]
    split at h
    · rename_i hhalf
      have hbits : Fits [low] 4 := ⟨by decide, fun _ => toNat_lt_of_upperHalf hhalf, rfl⟩
      rw [h.cons.1, if_pos hhalf]
      simp only
      rw [h.cons.2.readBits hbits (by decide), ignoreBits_add, List.length_cons,
        length_fieldBits hbits.length, Nat.add_comm]
    · rename_i hhalf
      rw [h.cons.1, if_neg hhalf]
      simp only
      have hbits : Fits [low] 8 := fits_bytes [low]
      rw [h.cons.2.readBits hbits (by decide), ignoreBits_add, List.length_cons,
        length_fieldBits hbits.length, Nat.add_comm]
  | succ currentByte ih =>
    simp only [compressedBitsFrom] at h ⊢
    rw [BitStream.readCompressedFrom]
    split at h
    · rename_i hzero
      -- the highest byte is zero and only its mark is written
      have hlast : input = input.take (currentByte + 1) ++ [0] := by
        have hdrop : input.drop (currentByte + 1) = [0] := by
          rw [List.getD_eq_getElem _ _ (by omega)] at hzero
          rw [List.drop_eq_getElem_cons (by omega), hzero, List.drop_of_length_le (by omega)]
        rw [← hdrop, List.take_append_drop]
      generalize input.take (currentByte + 1) = low at hlast
      subst hlast
      have hlow : low.length = currentByte + 1 := by simpa using hlen
      rw [compressedBitsFrom_append (by omega)] at h ⊢
      rw [h.cons.1, if_pos hzero]
      simp only
      rw [ih h.cons.2 hlow, Option.map_some, ignoreBits_add, List.length_cons, Nat.add_comm]
    · rename_i hnonzero
      rw [h.cons.1, if_neg hnonzero]
      simp only
      have hbits : Fits input (8 * (currentByte + 2)) := by
        have hbytes := fits_bytes input
        rwa [hlen] at hbytes
      rw [h.cons.2.readBits hbits (by omega), ignoreBits_add, List.length_cons,
        length_fieldBits hbits.length, Nat.add_comm]

end BitStream

end Multicrew.Transport
