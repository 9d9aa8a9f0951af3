import Multicrew.Transport.BitStream

/-!
# Internal packets and their frames

The reliability layer puts acknowledgements and packets one after the other into the bit stream of
a datagram. A header is not a whole number of bytes, its compressed fields depend on their values,
and the data of a packet begins at a byte boundary of the datagram, so the bits of a packet depend
on where it stands.
-/

namespace Multicrew.Transport

open Multicrew.Library

/-- `PacketPriority`; the highest is sent first. -/
inductive PacketPriority
  | system
  | high
  | medium
  | low
  deriving DecidableEq, Repr

/-- `PacketReliability` -/
inductive PacketReliability
  | unreliable
  | unreliableSequenced
  | reliable
  | reliableOrdered
  | reliableSequenced
  deriving DecidableEq, Repr

namespace PacketReliability

/-- The value of the enumerator, which is written in 3 bits. -/
def code : PacketReliability → UInt8
  | unreliable => 0
  | unreliableSequenced => 1
  | reliable => 2
  | reliableOrdered => 3
  | reliableSequenced => 4

/-- The enumerator read from 3 bits. -/
def ofCode (code : UInt8) : Option PacketReliability :=
  [unreliable, unreliableSequenced, reliable, reliableOrdered, reliableSequenced][code.toNat]?

/-- The code of a kind is read as that kind. -/
theorem ofCode_code (r : PacketReliability) : ofCode r.code = some r := by
  cases r <;> rfl

/-- A code fits into three bits. -/
theorem code_lt (r : PacketReliability) : r.code.toNat < 2 ^ 3 := by
  cases r <;> decide

/-- The kinds that have an ordering channel and index. -/
def isOrdering : PacketReliability → Bool
  | unreliableSequenced | reliableSequenced | reliableOrdered => true
  | unreliable | reliable => false

/-- The kinds that are acknowledged and sent again. -/
def isReliable : PacketReliability → Bool
  | reliable | reliableSequenced | reliableOrdered => true
  | unreliable | unreliableSequenced => false

end PacketReliability

/-- A packet that is not an acknowledgement. Its data are whole bytes, as all its senders give. -/
structure InternalPacket where
  packetNumber : ℕ
  priority : PacketPriority := .system
  reliability : PacketReliability
  orderingChannel : ℕ := 0
  orderingIndex : UInt8 := 0
  splitPacketId : ℕ := 0
  splitPacketIndex : ℕ := 0
  splitPacketCount : ℕ := 0
  creationTime : UInt32 := 0
  nextActionTime : UInt32 := 0
  data : List UInt8
  deriving DecidableEq, Repr

/-- `UDP_HEADER_SIZE`. -/
def udpHeaderSize : ℕ := 28

/-- `MAXIMUM_MTU_SIZE`, also the size of the buffer a datagram is received in. -/
def maximumMtuSize : ℕ := 8000

/-- `NUMBER_OF_ORDERED_STREAMS`. -/
def numberOfOrderedStreams : ℕ := 4096

/-- `ACK_BIT_LENGTH`. -/
def ackBitLength : ℕ := 17

namespace InternalPacket

variable (p : InternalPacket)

/-- `GetBitStreamHeaderLength` of a packet, which still counts an ordering channel as 5 bits. -/
def getBitStreamHeaderLength : ℕ :=
  ackBitLength + 3 + (if p.reliability.isOrdering then 13 else 0) + 1 +
    (if 0 < p.splitPacketCount then 3 * 8 * 2 else 0) + 16

/-- `dataBitLength`, of whole bytes here. -/
def dataBitLength : ℕ := 8 * p.data.length

end InternalPacket

/-- What a frame is made of: an acknowledgement of a packet number, or a packet. -/
inductive FrameEntry
  | acknowledgement (packetNumber : ℕ)
  | packet (p : InternalPacket)
  deriving DecidableEq, Repr

namespace BitStream

variable (s : BitStream)

/-- The ordering channel in 12 bits and the ordering index in a byte. -/
def writeOrdering (p : InternalPacket) : BitStream :=
  if p.reliability.isOrdering then
    (s.writeBits (Library.toBytes 2 p.orderingChannel) 12).writeBits [p.orderingIndex] 8
  else s

/-- Whether the packet is a split one, and which. -/
def writeSplit (p : InternalPacket) : BitStream :=
  if 0 < p.splitPacketCount then
    (((s.writeBool true).writeBits (Library.toBytes 4 p.splitPacketId) 32).writeCompressed
      (Library.toBytes 4 p.splitPacketIndex)).writeCompressed (Library.toBytes 4 p.splitPacketCount)
  else s.writeBool false

/-- `WriteToBitStreamFromInternalPacket`. -/
def writeEntry : FrameEntry → BitStream
  | .acknowledgement packetNumber =>
    (s.writeBits (Library.toBytes 2 packetNumber) 16).writeBool true
  | .packet p =>
    let header := ((s.writeBits (Library.toBytes 2 p.packetNumber) 16).writeBool false).writeBits
      [p.reliability.code] 3
    let numbered := (header.writeOrdering p).writeSplit p
    (numbered.writeCompressed (Library.toBytes 2 p.dataBitLength)).writeAlignedBytes p.data

/-- The ordering channel and index, for the kinds that have them. -/
def readOrdering (reliability : PacketReliability) : Option ((ℕ × UInt8) × BitStream) :=
  if reliability.isOrdering then do
    let (channel, s) ← s.readBits 12
    let (index, s) ← s.readBits 8
    some ((Library.ofBytes channel, .ofNat (Library.ofBytes index)), s)
  else some ((0, 0), s)

/-- Id, index and count of a split packet. -/
def readSplit : Option ((ℕ × ℕ × ℕ) × BitStream) := do
  let (isSplitPacket, s) ← s.readBool
  if isSplitPacket then
    let (id, s) ← s.readBits 32
    let (index, s) ← s.readCompressed 4
    let (count, s) ← s.readCompressed 4
    some ((Library.ofBytes id, Library.ofBytes index, Library.ofBytes count), s)
  else some ((0, 0, 0), s)

/-- `CreateInternalPacketFromBitStream`, which fails at the end of the stream. The fields that it leaves
unset, the ordering fields of an unordered packet and the split fields of an unsplit one, are 0 here. -/
def readEntry (time : UInt32) : Option (FrameEntry × BitStream) :=
  if s.numberOfBitsUsed < s.readOffset + 16 then none   -- leftover bits
  else do
    let (number, s) ← s.readBits 16
    let (isAcknowledgement, s) ← s.readBool
    if isAcknowledgement then some (.acknowledgement (Library.ofBytes number), s)
    else
      let (code, s) ← s.readBits 3
      let reliability ← PacketReliability.ofCode (.ofNat (Library.ofBytes code))
      let ((orderingChannel, orderingIndex), s) ← s.readOrdering reliability
      let ((splitPacketId, splitPacketIndex, splitPacketCount), s) ← s.readSplit
      let (length, s) ← s.readCompressed 2
      let bytes := bitsToBytes (Library.ofBytes length)
      if bytes = 0 ∨ maximumMtuSize ≤ bytes then none
      else
        let (data, s) ← s.readAlignedBytes bytes
        some (.packet
          { packetNumber := Library.ofBytes number, reliability, orderingChannel, orderingIndex,
            splitPacketId, splitPacketIndex, splitPacketCount, creationTime := time, data }, s)

/-- The parse loop of `HandleSocketReceiveFromConnectedPlayer`, at most so many turns. -/
def readEntries (s : BitStream) (time : UInt32) : ℕ → List FrameEntry
  | 0 => []
  | turns + 1 =>
    match s.readEntry time with
    | none => []
    | some (entry, t) => entry :: t.readEntries time turns

end BitStream

/-- What a datagram is read as. -/
def parseDatagram (datagram : List UInt8) (time : UInt32) : List FrameEntry :=
  (BitStream.ofBytes datagram).readEntries time (8 * datagram.length)

namespace InternalPacket

/-- The bits of the ordering channel and index. -/
def orderingBits (p : InternalPacket) : List Bool :=
  if p.reliability.isOrdering then
    BitStream.fieldBits (Library.toBytes 2 p.orderingChannel) 12 ++
      BitStream.fieldBits [p.orderingIndex] 8
  else []

/-- The bits of id, index and count of a split packet. -/
def splitBits (p : InternalPacket) : List Bool :=
  if 0 < p.splitPacketCount then
    [true] ++ BitStream.fieldBits (Library.toBytes 4 p.splitPacketId) 32 ++
      BitStream.compressedBitsFrom (Library.toBytes 4 p.splitPacketIndex) 3 ++
      BitStream.compressedBitsFrom (Library.toBytes 4 p.splitPacketCount) 3
  else [false]

/-- The bits in front of the data. -/
def headerBits (p : InternalPacket) : List Bool :=
  BitStream.fieldBits (Library.toBytes 2 p.packetNumber) 16 ++ [false] ++
    BitStream.fieldBits [p.reliability.code] 3 ++ p.orderingBits ++ p.splitBits ++
    BitStream.compressedBitsFrom (Library.toBytes 2 p.dataBitLength) 1

/-- Packets whose fields are within their ranges, with nothing in the fields that are not written. -/
structure Wellformed (p : InternalPacket) : Prop where
  packetNumber : p.packetNumber < 2 ^ 16
  ordering : p.reliability.isOrdering → p.orderingChannel < numberOfOrderedStreams
  unordered : ¬ p.reliability.isOrdering → p.orderingChannel = 0 ∧ p.orderingIndex = 0
  splitId : p.splitPacketId < 2 ^ 32
  splitIndex : p.splitPacketIndex < 2 ^ 32
  splitCount : p.splitPacketCount < 2 ^ 32
  unsplit : p.splitPacketCount = 0 → p.splitPacketId = 0 ∧ p.splitPacketIndex = 0
  nonempty : p.data ≠ []
  length_lt : p.data.length < maximumMtuSize

/-- The packet at the receiver, which gets the data and fields of the wire only. -/
def received (p : InternalPacket) (time : UInt32) : InternalPacket :=
  { p with priority := .system, creationTime := time, nextActionTime := 0 }

end InternalPacket

namespace FrameEntry

/-- The bits of an entry that stands at this position of a datagram. -/
def bitsAt (position : ℕ) : FrameEntry → List Bool
  | .acknowledgement packetNumber => BitStream.fieldBits (Library.toBytes 2 packetNumber) 16 ++ [true]
  | .packet p =>
    p.headerBits ++ (List.replicate (BitStream.padding (position + p.headerBits.length)) false ++
      p.data.flatMap byteBits)

/-- The entry fits into its fields. -/
def Wellformed : FrameEntry → Prop
  | .acknowledgement packetNumber => packetNumber < 2 ^ 16
  | .packet p => p.Wellformed

/-- The entry as the receiver reads it at that time. -/
def received (time : UInt32) : FrameEntry → FrameEntry
  | .acknowledgement packetNumber => .acknowledgement packetNumber
  | .packet p => .packet (p.received time)

end FrameEntry

namespace BitStream

variable {s : BitStream}

/-- Writing the ordering fields appends their bits. -/
theorem Clean.writeOrdering (hs : s.Clean) (p : InternalPacket) :
    Appends s (s.writeOrdering p) p.orderingBits := by
  unfold BitStream.writeOrdering InternalPacket.orderingBits
  split
  · exact (hs.writeBits _ 12).trans ((hs.writeBits _ 12).clean.writeBits _ 8)
  · exact ⟨(List.append_nil _).symm, hs⟩

/-- Writing the split fields appends their bits. -/
theorem Clean.writeSplit (hs : s.Clean) (p : InternalPacket) :
    Appends s (s.writeSplit p) p.splitBits := by
  unfold BitStream.writeSplit InternalPacket.splitBits
  split
  · have hmark := hs.writeBool true
    have hid := hmark.trans (hmark.clean.writeBits (Library.toBytes 4 p.splitPacketId) 32)
    have hindex := hid.trans
      (hid.clean.writeCompressedFrom (Library.toBytes 4 p.splitPacketIndex) 3)
    exact hindex.trans (hindex.clean.writeCompressedFrom (Library.toBytes 4 p.splitPacketCount) 3)
  · exact hs.writeBool false

/-- Writing an entry appends its bits. -/
theorem Clean.writeEntry (hs : s.Clean) (entry : FrameEntry) :
    Appends s (s.writeEntry entry) (entry.bitsAt s.numberOfBitsUsed) := by
  cases entry with
  | acknowledgement packetNumber =>
    have hnumber := hs.writeBits (Library.toBytes 2 packetNumber) 16
    exact hnumber.trans (hnumber.clean.writeBool true)
  | packet p =>
    have hnumber := hs.writeBits (Library.toBytes 2 p.packetNumber) 16
    have hkind := hnumber.trans (hnumber.clean.writeBool false)
    have hcode := hkind.trans (hkind.clean.writeBits [p.reliability.code] 3)
    have hordering := hcode.trans (hcode.clean.writeOrdering p)
    have hsplit := hordering.trans (hordering.clean.writeSplit p)
    have hheader := hsplit.trans
      (hsplit.clean.writeCompressedFrom (Library.toBytes 2 p.dataBitLength) 1)
    have hdata := hheader.clean.writeAlignedBytes p.data
    have hused := congrArg List.length hheader.bits
    rw [length_bits, List.length_append, length_bits] at hused
    rw [hused] at hdata
    exact hheader.trans hdata

/-- `ReadBits` takes the bits of `WriteBits` and leaves those behind them. -/
theorem Next.readField {input : List UInt8} {n : ℕ} {ys : List Bool}
    (h : s.Next (fieldBits input n ++ ys)) (hfit : Fits input n) (hn : n ≠ 0) :
    s.readBits n = some (input, s.ignoreBits n) ∧ (s.ignoreBits n).Next ys := by
  have hnext := h.ignoreBits
  rw [length_fieldBits hfit.length] at hnext
  exact ⟨h.left.readBits hfit hn, hnext⟩

/-- `ReadCompressed` takes the bits of `WriteCompressed` and leaves those behind them. -/
theorem Next.readNumber {bytes last value : ℕ} {ys : List Bool}
    (h : s.Next (compressedBitsFrom (Library.toBytes bytes value) last ++ ys))
    (hbytes : bytes = last + 1) :
    s.readCompressed bytes = some (Library.toBytes bytes value,
        s.ignoreBits (compressedBitsFrom (Library.toBytes bytes value) last).length) ∧
      (s.ignoreBits (compressedBitsFrom (Library.toBytes bytes value) last).length).Next ys := by
  subst hbytes
  exact ⟨h.left.readCompressedFrom (length_toBytes _ _), h.ignoreBits⟩

/-- A channel of 12 bits. -/
theorem fits_channel {channel : ℕ} (h : channel < numberOfOrderedStreams) :
    Fits (Library.toBytes 2 channel) 12 := by
  refine ⟨by decide, fun hlt => absurd hlt (by decide), by decide, fun _ => ?_, rfl⟩
  rw [numberOfOrderedStreams] at h
  rw [UInt8.toNat_ofNat']
  omega

/-- A number fills its bytes. -/
theorem fits_toBytes (bytes value : ℕ) : Fits (Library.toBytes bytes value) (8 * bytes) := by
  have hfit := fits_bytes (Library.toBytes bytes value)
  rwa [length_toBytes] at hfit

/-- The ordering channel and index are read back. -/
theorem Next.readOrdering {p : InternalPacket} {ys : List Bool} (h : s.Next (p.orderingBits ++ ys))
    (hp : p.Wellformed) :
    s.readOrdering p.reliability =
        some ((p.orderingChannel, p.orderingIndex), s.ignoreBits p.orderingBits.length) ∧
      (s.ignoreBits p.orderingBits.length).Next ys := by
  refine ⟨?_, h.ignoreBits⟩
  unfold BitStream.readOrdering
  unfold InternalPacket.orderingBits at h ⊢
  by_cases hordering : p.reliability.isOrdering
  · rw [if_pos hordering, List.append_assoc] at h
    have hchannel := h.readField (fits_channel (hp.ordering hordering)) (by decide)
    have hbits : Fits [p.orderingIndex] 8 := fits_bytes [p.orderingIndex]
    have hindex := hchannel.2.readField hbits (by decide)
    have hlt : p.orderingChannel < 256 ^ 2 :=
      Nat.lt_trans (hp.ordering hordering) (by decide)
    have hbyte : UInt8.ofNat (Library.ofBytes [p.orderingIndex]) = p.orderingIndex := by
      simp [Library.ofBytes]
    rw [if_pos hordering, if_pos hordering, hchannel.1]
    simp only [Option.bind_eq_bind, Option.bind_some]
    rw [hindex.1, Option.bind_some, ofBytes_toBytes_of_lt hlt, hbyte, ignoreBits_add,
      List.length_append, length_fieldBits (fits_channel (hp.ordering hordering)).length,
      length_fieldBits hbits.length]
  · obtain ⟨hchannel, hindex⟩ := hp.unordered hordering
    rw [if_neg hordering, if_neg hordering, hchannel, hindex]
    rfl

/-- Whether a packet is split, and its part, are read back. -/
theorem Next.readSplit {p : InternalPacket} {ys : List Bool} (h : s.Next (p.splitBits ++ ys))
    (hp : p.Wellformed) :
    s.readSplit = some ((p.splitPacketId, p.splitPacketIndex, p.splitPacketCount),
        s.ignoreBits p.splitBits.length) ∧
      (s.ignoreBits p.splitBits.length).Next ys := by
  refine ⟨?_, h.ignoreBits⟩
  unfold BitStream.readSplit
  unfold InternalPacket.splitBits at h ⊢
  by_cases hsplit : 0 < p.splitPacketCount
  · rw [if_pos hsplit] at h
    simp only [List.append_assoc, List.singleton_append] at h
    have hid := h.cons.2.readField (fits_toBytes 4 p.splitPacketId) (by decide)
    have hindex := hid.2.readNumber rfl
    have hcount := hindex.2.readNumber rfl
    have hlength := length_fieldBits (fits_toBytes 4 p.splitPacketId).length
    simp only [if_pos hsplit, h.cons.1, Option.bind_eq_bind, Option.bind_some, if_true, hid.1,
      hindex.1, hcount.1,
      ofBytes_toBytes_of_lt (show p.splitPacketId < 256 ^ 4 from hp.splitId),
      ofBytes_toBytes_of_lt (show p.splitPacketIndex < 256 ^ 4 from hp.splitIndex),
      ofBytes_toBytes_of_lt (show p.splitPacketCount < 256 ^ 4 from hp.splitCount)]
    simp only [ignoreBits_add, List.length_append, List.length_singleton]
    rw [hlength]
  · have hzero : p.splitPacketCount = 0 := Nat.eq_zero_of_not_pos hsplit
    obtain ⟨hid, hindex⟩ := hp.unsplit hzero
    rw [if_neg hsplit] at h ⊢
    rw [h.cons.1, hid, hindex, hzero]
    rfl

/-- An entry is read back where it was written. -/
theorem Next.readEntry {entry : FrameEntry} {ys : List Bool}
    (h : s.Next (entry.bitsAt s.readOffset ++ ys)) (hentry : entry.Wellformed) (time : UInt32) :
    s.readEntry time =
        some (entry.received time, s.ignoreBits (entry.bitsAt s.readOffset).length) ∧
      (s.ignoreBits (entry.bitsAt s.readOffset).length).Next ys := by
  refine ⟨?_, h.ignoreBits⟩
  cases entry with
  | acknowledgement packetNumber =>
    rw [FrameEntry.bitsAt, List.append_assoc] at h
    have hnumber := h.readField (fits_toBytes 2 packetNumber) (by decide)
    have hle := h.left.le (List.cons_ne_nil _ _)
    rw [length_fieldBits (fits_toBytes 2 packetNumber).length] at hle
    rw [BitStream.readEntry, if_neg (by omega), show 16 = 8 * 2 from rfl, hnumber.1]
    simp only [Option.bind_eq_bind, Option.bind_some, hnumber.2.left.readBool, if_true,
      ignoreBits_add, FrameEntry.received, FrameEntry.bitsAt, List.length_append,
      length_fieldBits (fits_toBytes 2 packetNumber).length, List.length_singleton,
      ofBytes_toBytes_of_lt (show packetNumber < 256 ^ 2 from hentry)]
  | packet p =>
    have hp : p.Wellformed := hentry
    have hbytes : p.data.length ≠ 0 := fun hzero => hp.nonempty (List.eq_nil_of_length_eq_zero hzero)
    have hmtu := hp.length_lt
    rw [maximumMtuSize] at hmtu
    have hbits : Library.ofBytes (Library.toBytes 2 p.dataBitLength) = 8 * p.data.length :=
      ofBytes_toBytes_of_lt (show 8 * p.data.length < 256 ^ 2 by omega)
    have hlength : bitsToBytes (8 * p.data.length) = p.data.length := by
      rw [bitsToBytes]
      omega
    have hcode : Fits [p.reliability.code] 3 := ⟨by decide, fun _ => p.reliability.code_lt, rfl⟩
    have hbyte : UInt8.ofNat (Library.ofBytes [p.reliability.code]) = p.reliability.code := by
      simp [Library.ofBytes]
    have hsteps := h
    simp only [FrameEntry.bitsAt, InternalPacket.headerBits, List.append_assoc,
      List.singleton_append] at hsteps
    have hnumber := hsteps.readField (fits_toBytes 2 p.packetNumber) (by decide)
    have hle := hsteps.left.le (List.cons_ne_nil _ _)
    rw [length_fieldBits (fits_toBytes 2 p.packetNumber).length] at hle
    have hkind := hnumber.2.cons
    have hreliability := hkind.2.readField hcode (by decide)
    have hordering := hreliability.2.readOrdering hp
    have hsplit := hordering.2.readSplit hp
    have hsize := hsplit.2.readNumber rfl
    -- the data stand behind the header, from the next byte boundary on
    have hheader : ((((((s.ignoreBits 16).ignoreBits 1).ignoreBits 3).ignoreBits
        p.orderingBits.length).ignoreBits p.splitBits.length).ignoreBits
        (compressedBitsFrom (Library.toBytes 2 p.dataBitLength) 1).length) =
          s.ignoreBits p.headerBits.length := by
      simp only [ignoreBits_add, InternalPacket.headerBits, List.length_append,
        length_fieldBits (fits_toBytes 2 p.packetNumber).length, length_fieldBits hcode.length,
        List.length_singleton]
    have hdata : (s.ignoreBits p.headerBits.length).Next
        (List.replicate (padding (s.readOffset + p.headerBits.length)) false ++
          p.data.flatMap byteBits) := by
      have hbehind : s.Next (p.headerBits ++ (List.replicate
          (padding (s.readOffset + p.headerBits.length)) false ++ p.data.flatMap byteBits)) :=
        h.left
      exact hbehind.ignoreBits
    have hread := Next.readAlignedBytes hdata hp.nonempty
    rw [BitStream.readEntry, if_neg (by omega), show 16 = 8 * 2 from rfl, hnumber.1]
    simp only [Option.bind_eq_bind, Option.bind_some, hkind.1, Bool.false_eq_true, if_false,
      hreliability.1, hbyte, PacketReliability.ofCode_code, hordering.1, hsplit.1, hsize.1, hbits,
      hlength, maximumMtuSize]
    rw [if_neg (by omega), hheader, hread]
    simp only [Option.bind_some, ofBytes_toBytes_of_lt (show p.packetNumber < 256 ^ 2 from
      hp.packetNumber), FrameEntry.received, InternalPacket.received, ignoreBits_add,
      FrameEntry.bitsAt, List.length_append, List.length_replicate, length_flatMap_byteBits]
    rfl

/-- Every entry takes bits. -/
theorem length_bitsAt_pos (entry : FrameEntry) (position : ℕ) :
    0 < (entry.bitsAt position).length := by
  cases entry with
  | acknowledgement packetNumber =>
    simp only [FrameEntry.bitsAt, List.length_append, List.length_singleton]
    omega
  | packet p =>
    simp only [FrameEntry.bitsAt, InternalPacket.headerBits, List.length_append,
      List.length_singleton]
    omega

/-- The bits of the entries of a frame from a position on. -/
def frameBits (position : ℕ) : List FrameEntry → List Bool
  | [] => []
  | entry :: rest =>
    entry.bitsAt position ++ frameBits (position + (entry.bitsAt position).length) rest

/-- Entries written one after the other. -/
def writeEntries (s : BitStream) (entries : List FrameEntry) : BitStream :=
  entries.foldl BitStream.writeEntry s

/-- Writing entries appends their bits, which depend on the position. -/
theorem Clean.writeEntries (hs : s.Clean) (entries : List FrameEntry) :
    Appends s (s.writeEntries entries) (frameBits s.numberOfBitsUsed entries) := by
  induction entries generalizing s with
  | nil => exact ⟨(List.append_nil _).symm, hs⟩
  | cons entry rest ih =>
    have hentry := hs.writeEntry entry
    have hused := congrArg List.length hentry.bits
    rw [length_bits, List.length_append, length_bits] at hused
    have hrest := ih hentry.clean
    rw [hused] at hrest
    exact hentry.trans hrest

/-- Every entry has a bit at least. -/
theorem length_le_frameBits (position : ℕ) (entries : List FrameEntry) :
    entries.length ≤ (frameBits position entries).length := by
  induction entries generalizing position with
  | nil => exact Nat.zero_le _
  | cons entry rest ih =>
    have hpos := length_bitsAt_pos entry position
    have hrest := ih (position + (entry.bitsAt position).length)
    rw [frameBits, List.length_append, List.length_cons]
    omega

/-- The parse loop reads the entries of a frame behind which less than a packet number is left. -/
theorem readEntries_frame {entries : List FrameEntry} {rest : List Bool}
    (h : s.bits.drop s.readOffset = frameBits s.readOffset entries ++ rest)
    (hrest : rest.length < 16) (hentries : ∀ entry ∈ entries, entry.Wellformed) (time : UInt32)
    {turns : ℕ} (hturns : entries.length ≤ turns) :
    s.readEntries time turns = entries.map (FrameEntry.received time) := by
  induction entries generalizing s turns with
  | nil =>
    cases turns with
    | zero => rfl
    | succ turns =>
      have hlen := congrArg List.length h
      rw [List.length_drop, length_bits, frameBits, List.nil_append] at hlen
      rw [readEntries, readEntry, if_pos (by omega)]
      rfl
  | cons entry later ih =>
    cases turns with
    | zero => exact absurd hturns (Nat.not_succ_le_zero _)
    | succ turns =>
      rw [frameBits, List.append_assoc] at h
      have hnext : s.Next (entry.bitsAt s.readOffset ++
          (frameBits (s.readOffset + (entry.bitsAt s.readOffset).length) later ++ rest)) :=
        h ▸ List.prefix_refl _
      have hread := hnext.readEntry (hentries entry List.mem_cons_self) time
      have hlater : (s.ignoreBits (entry.bitsAt s.readOffset).length).bits.drop
          (s.readOffset + (entry.bitsAt s.readOffset).length) =
          frameBits (s.readOffset + (entry.bitsAt s.readOffset).length) later ++ rest := by
        rw [ignoreBits_bits, ← List.drop_drop, h, List.drop_left]
      rw [readEntries, hread.1, List.map_cons]
      simp only
      rw [ih hlater (fun e he => hentries e (List.mem_cons_of_mem _ he))
        (Nat.le_of_succ_le_succ hturns)]

/-- A received datagram holds the bits that were sent, and less than a byte of padding. -/
theorem ofBytes_toBytes (s : BitStream) :
    ∃ rest, (ofBytes s.toBytes).bits = s.bits ++ rest ∧ rest.length < 8 := by
  have hused : (ofBytes s.toBytes).numberOfBitsUsed = 8 * bitsToBytes s.numberOfBitsUsed := by
    simp only [ofBytes, toBytes, List.length_map, List.length_range]
  have hbit : ∀ i < 8 * bitsToBytes s.numberOfBitsUsed, (ofBytes s.toBytes).bit i = s.bit i := by
    intro i hi
    have hbyte : i / 8 < bitsToBytes s.numberOfBitsUsed := by omega
    simp only [bit, ofBytes, toBytes]
    rw [List.getD_eq_getElem _ _ (by rwa [List.length_map, List.length_range]), List.getElem_map,
      List.getElem_range]
  have hbytes : s.numberOfBitsUsed ≤ 8 * bitsToBytes s.numberOfBitsUsed ∧
      8 * bitsToBytes s.numberOfBitsUsed < s.numberOfBitsUsed + 8 := by
    simp only [bitsToBytes]
    omega
  refine ⟨(List.range (8 * bitsToBytes s.numberOfBitsUsed - s.numberOfBitsUsed)).map fun k =>
    s.bit (s.numberOfBitsUsed + k), ?_, ?_⟩
  · apply bits_eq_append
    · rw [hused, List.length_map, List.length_range]
      omega
    · exact fun i hi => hbit i (by omega)
    · intro k hk
      rw [List.length_map, List.length_range] at hk
      rw [List.getElem_map, List.getElem_range]
      exact hbit _ (by omega)
  · rw [List.length_map, List.length_range]
    omega

end BitStream

/-- A datagram is read as the entries that were written to it, whatever the buffer held before. -/
theorem parseDatagram_frame (buffer : BitStream) {entries : List FrameEntry}
    (hentries : ∀ entry ∈ entries, entry.Wellformed) (time : UInt32) :
    parseDatagram (buffer.reset.writeEntries entries).toBytes time =
      entries.map (FrameEntry.received time) := by
  have hclean : buffer.reset.Clean := fun k _ hne => absurd rfl hne
  have hwritten := hclean.writeEntries entries
  obtain ⟨rest, hbits, hrest⟩ := BitStream.ofBytes_toBytes (buffer.reset.writeEntries entries)
  have hempty : buffer.reset.bits = [] := rfl
  rw [hwritten.bits, hempty, List.nil_append] at hbits
  have hcount := BitStream.length_le_frameBits buffer.reset.numberOfBitsUsed entries
  have hlen := congrArg List.length hbits
  rw [BitStream.length_bits, List.length_append] at hlen
  have hused : (BitStream.ofBytes (buffer.reset.writeEntries entries).toBytes).numberOfBitsUsed =
      8 * (buffer.reset.writeEntries entries).toBytes.length := rfl
  have hstart : (BitStream.ofBytes (buffer.reset.writeEntries entries).toBytes).bits.drop 0 =
      BitStream.frameBits 0 entries ++ rest := hbits
  exact BitStream.readEntries_frame hstart (by omega) hentries time (by omega)

end Multicrew.Transport
