import Multicrew.Library.Chunks
import Multicrew.Transport.Frames

/-!
# Messages in parts

A message too long for one packet is queued as its parts, which the other end collects in the order
they happen to come, among the parts of other messages. Here a message is the packet `Send` makes of
it, with the split packet id its parts get if it has to be split.
-/

namespace Multicrew.Transport

open Multicrew.Library

/-- What is left of an array after the elements were deleted by moving the last one into each hole. -/
theorem swapRemove_perm {α : Type*} (p : α → Bool) {turns : ℕ} {list : List α}
    (h : list.length ≤ turns) : (swapRemove p turns list).Perm (list.filter fun a => !p a) := by
  induction turns generalizing list with
  | zero =>
    obtain rfl := List.eq_nil_of_length_eq_zero (Nat.le_zero.mp h)
    rfl
  | succ turns ih =>
    cases list with
    | nil => rfl
    | cons a rest =>
      have hrest : rest.length ≤ turns := Nat.le_of_succ_le_succ h
      rw [swapRemove]
      by_cases ha : p a
      · rw [if_pos ha, List.filter_cons_of_neg (by simp [ha])]
        cases hlast : rest.getLast? with
        | none =>
          obtain rfl := List.getLast?_eq_none_iff.mp hlast
          rfl
        | some last =>
          obtain ⟨front, rfl⟩ := List.getLast?_eq_some_iff.mp hlast
          have hperm : (last :: front).Perm (front ++ [last]) :=
            (List.perm_append_singleton last front).symm
          rw [List.dropLast_concat]
          exact (ih (hperm.length_eq ▸ hrest)).trans (hperm.filter _)
      · rw [if_neg ha, List.filter_cons_of_pos (by simp [ha])]
        exact (ih hrest).cons a

/-! ### What is sent -/

namespace InternalPacket

/-- A message that does not fit into one packet. -/
def IsSplit (m : InternalPacket) (mtuSize : ℕ) : Prop :=
  ReliabilityLayer.maxDataSize m mtuSize < m.data.length

/-- A packet that carries a message or one of its parts. -/
structure IsPieceOf (p m : InternalPacket) (mtuSize : ℕ) : Prop where
  reliability : p.reliability = m.reliability
  orderingChannel : p.orderingChannel = m.orderingChannel
  orderingIndex : p.orderingIndex = m.orderingIndex
  whole : ¬ m.IsSplit mtuSize → p.splitPacketCount = 0 ∧ p.data = m.data
  splitPacketId : m.IsSplit mtuSize → p.splitPacketId = m.splitPacketId
  splitPacketCount : m.IsSplit mtuSize → p.splitPacketCount = ReliabilityLayer.splitCount m mtuSize
  splitPacketIndex : m.IsSplit mtuSize → p.splitPacketIndex < p.splitPacketCount
  part : m.IsSplit mtuSize →
    p.data = chunk (ReliabilityLayer.maximumSendBlock m mtuSize) m.data p.splitPacketIndex

/-- Only what the wire carries counts. -/
theorem IsPieceOf.of_wire {p q m : InternalPacket} {mtuSize : ℕ} (h : p.IsPieceOf m mtuSize)
    (hwire : q.wire = p.wire) : q.IsPieceOf m mtuSize := by
  obtain ⟨_, _, _, _, _, _, _, _, _, _, _⟩ := p
  obtain ⟨_, _, _, _, _, _, _, _, _, _, _⟩ := q
  simp only [wire, received, mk.injEq] at hwire
  obtain ⟨-, -, rfl, rfl, rfl, rfl, rfl, rfl, -, -, rfl⟩ := hwire
  exact ⟨h.reliability, h.orderingChannel, h.orderingIndex, h.whole, h.splitPacketId,
    h.splitPacketCount, h.splitPacketIndex, h.part⟩

/-- The header in whole bytes: at most 13. -/
theorem bitsToBytes_header_le (p : InternalPacket) : bitsToBytes p.getBitStreamHeaderLength ≤ 13 := by
  unfold bitsToBytes getBitStreamHeaderLength ackBitLength
  split <;> split <;> omega

end InternalPacket

namespace ReliabilityLayer

variable {p m : InternalPacket} {mtuSize : ℕ}

/-- A block of a split packet, for the MTU sizes `SetMTUSize` admits. -/
theorem maximumSendBlock_bounds (p : InternalPacket) (hmin : 512 ≤ mtuSize)
    (hmax : mtuSize ≤ maximumMtuSize) :
    0 < maximumSendBlock p mtuSize ∧ maximumSendBlock p mtuSize < maximumMtuSize := by
  have hheader := { p with splitPacketCount := 1 }.bitsToBytes_header_le
  unfold maximumSendBlock udpHeaderSize
  unfold maximumMtuSize at *
  omega

/-- A packet that has to be split fills more than one block. -/
theorem maximumSendBlock_lt (h : p.IsSplit mtuSize) : maximumSendBlock p mtuSize < p.data.length := by
  refine Nat.lt_of_le_of_lt ?_ h
  have hheader : bitsToBytes p.getBitStreamHeaderLength ≤
      bitsToBytes { p with splitPacketCount := 1 }.getBitStreamHeaderLength := by
    simp only [bitsToBytes, InternalPacket.getBitStreamHeaderLength, Nat.zero_lt_one, if_true]
    split <;> split <;> omega
  exact Nat.sub_le_sub_left hheader _

/-- The packets a numbered message is queued as. -/
def packets (l : ReliabilityLayer) (p : InternalPacket) (mtuSize : ℕ) : List InternalPacket :=
  if maxDataSize p mtuSize < p.data.length then
    (List.range (splitCount p mtuSize)).map (l.splitPart p mtuSize)
  else [p]

/-- The channel of a message, in the range of the counters. -/
def sendChannel (orderingChannel : ℕ) : ℕ :=
  if numberOfOrderedStreams ≤ orderingChannel then 0 else orderingChannel

/-- Every message is sent on a channel that exists. -/
theorem sendChannel_lt (orderingChannel : ℕ) :
    sendChannel orderingChannel < numberOfOrderedStreams := by
  unfold sendChannel
  split
  · decide
  · omega

/-- Each part begins inside the message. -/
theorem splitPart_start {k : ℕ} (hpos : 0 < p.data.length) (hk : k < splitCount p mtuSize) :
    k * maximumSendBlock p mtuSize < p.data.length := by
  have hle : k ≤ (p.data.length - 1) / maximumSendBlock p mtuSize := by
    have hmod := Nat.mod_le ((p.data.length - 1) / maximumSendBlock p mtuSize + 1) (2 ^ 16)
    unfold splitCount at hk
    omega
  have hmul := Nat.mul_le_mul_right (maximumSendBlock p mtuSize) hle
  have hdiv := Nat.div_mul_le_self (p.data.length - 1) (maximumSendBlock p mtuSize)
  omega

/-- What `SplitPacketAndDeleteOriginal` asserts of the number of parts. -/
def AssertSplitCount (p : InternalPacket) (mtuSize : ℕ) : Prop :=
  (p.data.length - 1) / maximumSendBlock p mtuSize + 1 < 65535

/-- The parts reach the end of the message. -/
theorem splitCount_end (hassert : AssertSplitCount p mtuSize) (hpos : 0 < p.data.length)
    (hblock : 0 < maximumSendBlock p mtuSize) :
    p.data.length ≤ splitCount p mtuSize * maximumSendBlock p mtuSize := by
  unfold AssertSplitCount at hassert
  have hlt := Nat.lt_div_mul_add hblock (a := p.data.length - 1)
  rw [splitCount, Nat.mod_eq_of_lt (by omega), Nat.succ_mul]
  omega

/-- The packets of a message are its pieces. -/
theorem isPieceOf_of_mem_packets {l : ReliabilityLayer} {q : InternalPacket}
    (hcount : p.splitPacketCount = 0) (hq : q ∈ l.packets p mtuSize) :
    q.IsPieceOf { p with splitPacketId := l.splitPacketId.toNat } mtuSize := by
  unfold packets at hq
  split at hq
  · rename_i hsplit
    obtain ⟨k, hk, rfl⟩ := List.mem_map.mp hq
    exact ⟨rfl, rfl, rfl, fun hwhole => absurd hsplit hwhole, fun _ => rfl, fun _ => rfl,
      fun _ => List.mem_range.mp hk, fun _ => rfl⟩
  · rename_i hwhole
    obtain rfl := List.mem_singleton.mp hq
    exact ⟨rfl, rfl, rfl, fun _ => ⟨hcount, rfl⟩, fun hsplit => absurd hsplit hwhole,
      fun hsplit => absurd hsplit hwhole, fun hsplit => absurd hsplit hwhole,
      fun hsplit => absurd hsplit hwhole⟩

/-- The numbers stay within the log. -/
theorem nextPacketNumber_lt {n : ℕ} (h : n < receivedPacketLogLength) :
    nextPacketNumber n < receivedPacketLogLength := by
  unfold nextPacketNumber
  unfold receivedPacketLogLength at *
  split <;> omega

/-- However many are taken. -/
theorem iterate_nextPacketNumber_lt {n : ℕ} (h : n < receivedPacketLogLength) (k : ℕ) :
    nextPacketNumber^[k] n < receivedPacketLogLength := by
  induction k with
  | zero => exact h
  | succ k ih =>
    rw [Function.iterate_succ_apply']
    exact nextPacketNumber_lt ih

/-- What `Send` makes of a message before it is perhaps split. -/
structure Numbered (l l' : ReliabilityLayer) (p : InternalPacket) (data : List UInt8)
    (priority : PacketPriority) (reliability : PacketReliability) (channel : ℕ) : Prop where
  data_eq : p.data = data
  priority_eq : p.priority = priority
  reliability_eq : p.reliability = reliability
  packetNumber : p.packetNumber = l.packetNumber
  unsplit : p.splitPacketId = 0 ∧ p.splitPacketIndex = 0 ∧ p.splitPacketCount = 0
  ordering : reliability.isOrdering → p.orderingChannel = channel
  unordered : ¬ reliability.isOrdering → p.orderingChannel = 0 ∧ p.orderingIndex = 0
  orderingIndex : reliability = .reliableOrdered →
    p.orderingIndex = (l.waitingForOrderedPacketWriteIndex channel).toUInt8
  layer : ∃ sequenced, l' =
    { l with
      packetNumber := nextPacketNumber l.packetNumber
      waitingForOrderedPacketWriteIndex :=
        if reliability = .reliableOrdered then
          Function.update l.waitingForOrderedPacketWriteIndex channel
            (l.waitingForOrderedPacketWriteIndex channel + 1)
        else l.waitingForOrderedPacketWriteIndex
      waitingForSequencedPacketWriteIndex := sequenced }

/-- A message gets the next numbers. -/
theorem numbered_spec (l : ReliabilityLayer) (data : List UInt8) (priority : PacketPriority)
    (reliability : PacketReliability) (channel : ℕ) (time : UInt32) :
    Numbered l (l.numbered data priority reliability channel time).1
      (l.numbered data priority reliability channel time).2 data priority reliability channel := by
  cases reliability <;>
    exact ⟨rfl, rfl, rfl, rfl, ⟨rfl, rfl, rfl⟩, by first | exact fun _ => rfl | exact nofun,
      by first | exact fun _ => ⟨rfl, rfl⟩ | exact fun h => absurd rfl h,
      by first | exact fun _ => rfl | exact nofun, _, rfl⟩

/-- Every packet of a message can be written to a frame. -/
theorem Numbered.wellformed {l l' : ReliabilityLayer} {data : List UInt8}
    {priority : PacketPriority} {reliability : PacketReliability} {channel : ℕ}
    (h : Numbered l l' p data priority reliability channel) (hdata : data ≠ [])
    (hchannel : channel < numberOfOrderedStreams) (hmin : 512 ≤ mtuSize)
    (hmax : mtuSize ≤ maximumMtuSize) (hnumber : l.packetNumber < receivedPacketLogLength)
    {q : InternalPacket} (hq : q ∈ l'.packets p mtuSize) : q.Wellformed := by
  have hfits : ∀ n < receivedPacketLogLength, n < 2 ^ 16 := fun n hn =>
    Nat.lt_trans hn (by decide)
  have hpos : 0 < p.data.length := h.data_eq ▸ List.length_pos_of_ne_nil hdata
  have hordering : p.reliability.isOrdering → p.orderingChannel < numberOfOrderedStreams :=
    fun hkind => h.ordering (h.reliability_eq ▸ hkind) ▸ hchannel
  have hunordered : ¬ p.reliability.isOrdering → p.orderingChannel = 0 ∧ p.orderingIndex = 0 :=
    fun hkind => h.unordered (h.reliability_eq ▸ hkind)
  have hnext : l'.packetNumber < receivedPacketLogLength := by
    obtain ⟨sequenced, rfl⟩ := h.layer
    exact nextPacketNumber_lt hnumber
  obtain ⟨hblock, hblocklt⟩ := maximumSendBlock_bounds p hmin hmax
  unfold packets at hq
  split at hq
  · obtain ⟨k, hk, rfl⟩ := List.mem_map.mp hq
    have hcount : splitCount p mtuSize < 2 ^ 16 := Nat.mod_lt _ (by decide)
    have hk := List.mem_range.mp hk
    have hstart := splitPart_start hpos hk
    have hlength := length_chunk (maximumSendBlock p mtuSize) p.data k
    exact
      { packetNumber := by
          refine hfits _ ?_
          unfold splitPart
          dsimp only
          split
          · exact h.packetNumber ▸ hnumber
          · exact iterate_nextPacketNumber_lt hnext _
        ordering := hordering
        unordered := hunordered
        splitId := l'.splitPacketId.toNat_lt
        splitIndex := Nat.lt_trans hk (Nat.lt_trans hcount (by decide))
        splitCount := Nat.lt_trans hcount (by decide)
        unsplit := fun hzero => absurd (show splitCount p mtuSize = 0 from hzero) (by omega)
        nonempty := fun hnil => by
          have hzero : (chunk (maximumSendBlock p mtuSize) p.data k).length = 0 :=
            congrArg List.length hnil
          omega
        length_lt := by
          show (chunk (maximumSendBlock p mtuSize) p.data k).length < maximumMtuSize
          omega }
  · rename_i hwhole
    obtain rfl := List.mem_singleton.mp hq
    obtain ⟨hid, hindex, hcount⟩ := h.unsplit
    exact
      { packetNumber := hfits _ (h.packetNumber ▸ hnumber)
        ordering := hordering
        unordered := hunordered
        splitId := hid ▸ by decide
        splitIndex := hindex ▸ by decide
        splitCount := hcount ▸ by decide
        unsplit := fun _ => ⟨hid, hindex⟩
        nonempty := h.data_eq ▸ hdata
        length_lt := by
          unfold maxDataSize udpHeaderSize at hwhole
          unfold maximumMtuSize at *
          omega }

/-- `Send` queues the packets of the numbered message. -/
theorem send_eq (l : ReliabilityLayer) {data : List UInt8} (hdata : data ≠ [])
    (priority : PacketPriority) (reliability : PacketReliability) (orderingChannel mtuSize : ℕ)
    (time : UInt32) {l' : ReliabilityLayer} {p : InternalPacket}
    (hnumbered : l.numbered data priority reliability (sendChannel orderingChannel) time = (l', p)) :
    l.send data priority reliability orderingChannel mtuSize time =
      { l' with
        packetNumber := nextPacketNumber^[(l'.packets p mtuSize).length - 1] l'.packetNumber
        splitPacketId :=
          if maxDataSize p mtuSize < p.data.length then l'.splitPacketId + 1 else l'.splitPacketId
        }.pushSendQueue (l'.packets p mtuSize) priority := by
  have hspec := numbered_spec l data priority reliability (sendChannel orderingChannel) time
  rw [hnumbered] at hspec
  unfold sendChannel at hnumbered
  rw [send, if_neg hdata]
  simp only [hnumbered, packets]
  rw [hspec.data_eq]
  split
  · rw [splitPacketAndDeleteOriginal, List.length_map, List.length_range, hspec.priority_eq]
  · rfl

end ReliabilityLayer

/-! ### What is put together -/

namespace InternalPacket

/-- A packet that stands for a message at the other end, as far as order is concerned. -/
structure StandsFor (q m : InternalPacket) : Prop where
  reliability : q.reliability = m.reliability
  orderingChannel : q.orderingChannel = m.orderingChannel
  orderingIndex : q.orderingIndex = m.orderingIndex

/-- A piece has the fields of its message. -/
theorem IsPieceOf.standsFor {p m : InternalPacket} {mtuSize : ℕ} (h : p.IsPieceOf m mtuSize) :
    p.StandsFor m :=
  ⟨h.reliability, h.orderingChannel, h.orderingIndex⟩

/-- Two parts of ordered messages that are not the same part: what is asserted of the parts that are
collected. -/
def DistinctParts (p q : InternalPacket) : Prop :=
  p.reliability = .reliableOrdered → q.reliability = .reliableOrdered →
    p.splitPacketId = q.splitPacketId → p.splitPacketIndex ≠ q.splitPacketIndex

/-- Being different parts goes both ways. -/
theorem DistinctParts.symm {p q : InternalPacket} (h : p.DistinctParts q) : q.DistinctParts p :=
  fun hq hp hid hindex => h hp hq hid.symm hindex.symm

/-- Packets that are parts of the messages of a list. -/
def ArePartsOf (parts sent : List InternalPacket) (mtuSize : ℕ) : Prop :=
  ∀ p ∈ parts, ∃ m ∈ sent, m.IsSplit mtuSize ∧ p.IsPieceOf m mtuSize

/-- Split messages of a list are told apart by their ids. -/
def IdsDiffer (sent : List InternalPacket) (mtuSize : ℕ) : Prop :=
  ∀ m ∈ sent, ∀ m' ∈ sent, m.IsSplit mtuSize → m'.IsSplit mtuSize →
    m.splitPacketId = m'.splitPacketId → m = m'

end InternalPacket

namespace ReliabilityLayer

open InternalPacket

variable {p m : InternalPacket} {mtuSize : ℕ}

/-- The parts with an id stand behind the first of them. -/
theorem length_filter_le_of_findIdx? {α : Type*} {pred : α → Bool} {list : List α} {i : ℕ}
    (h : list.findIdx? pred = some i) : (list.filter pred).length ≤ list.length - i := by
  induction list generalizing i with
  | nil => cases h
  | cons a rest ih =>
    rw [List.findIdx?_cons] at h
    by_cases ha : pred a
    · rw [if_pos ha] at h
      obtain rfl := Option.some.inj h
      exact List.length_filter_le pred (a :: rest)
    · rw [if_neg ha] at h
      obtain ⟨j, hj, rfl⟩ := Option.map_eq_some_iff.mp h
      rw [List.filter_cons_of_neg ha, List.length_cons]
      have hrest := ih hj
      omega

/-- The parts in the list that have the id of a new part. -/
def partsWith (l : ReliabilityLayer) (p : InternalPacket) : List InternalPacket :=
  (l.splitPacketList ++ [p]).filter fun q => q.splitPacketId = p.splitPacketId

/-- Inserting a part and looking whether all are there. -/
theorem collectSplitPacket_eq (l : ReliabilityLayer) (p : InternalPacket) (time : UInt32) :
    ∃ first ∈ l.partsWith p, l.collectSplitPacket p time =
      if (l.partsWith p).length = first.splitPacketCount then
        ({ l with
            splitPacketList := swapRemove (fun q => q.splitPacketId = p.splitPacketId)
              (l.splitPacketList ++ [p]).length (l.splitPacketList ++ [p]) },
          some
            { first with
              splitPacketId := 0
              splitPacketIndex := 0
              splitPacketCount := 0
              creationTime := time
              nextActionTime := 0
              data := joinParts (l.partsWith p)
                (((l.partsWith p).map fun q => q.data.length).foldl max 0) })
      else ({ l with splitPacketList := l.splitPacketList ++ [p] }, none) := by
  have hp : p ∈ l.partsWith p := List.mem_filter.mpr
    ⟨List.mem_append_right _ (List.mem_singleton_self p), decide_eq_true rfl⟩
  have hfind : ∃ i, (l.splitPacketList ++ [p]).findIdx?
      (fun q => decide (q.splitPacketId = p.splitPacketId)) = some i := by
    rw [← Option.isSome_iff_exists, List.findIdx?_isSome, List.any_eq_true]
    exact ⟨p, List.mem_append_right _ (List.mem_singleton_self p), decide_eq_true rfl⟩
  obtain ⟨i, hi⟩ := hfind
  have hlength := length_filter_le_of_findIdx? hi
  unfold collectSplitPacket buildPacketFromSplitPacketList
  unfold partsWith at *
  simp only [hi]
  cases hparts : (l.splitPacketList ++ [p]).filter
      (fun q => decide (q.splitPacketId = p.splitPacketId)) with
  | nil => rw [hparts] at hp; cases hp
  | cons first rest =>
    rw [hparts] at hlength
    refine ⟨first, List.mem_cons_self, ?_⟩
    dsimp only
    by_cases hcount : (first :: rest).length = first.splitPacketCount
    · rw [if_neg (by omega), if_pos hcount]
    · rw [if_neg hcount, ite_self]

/-- All parts of a message, in any order, give its data. -/
theorem joinParts_eq {parts : List InternalPacket} (hsplit : m.IsSplit mtuSize)
    (hpieces : ∀ q ∈ parts, q.IsPieceOf m mtuSize)
    (hperm : (parts.map splitPacketIndex).Perm (List.range (splitCount m mtuSize)))
    (hassert : AssertSplitCount m mtuSize) (hblock : 0 < maximumSendBlock m mtuSize) :
    joinParts parts ((parts.map fun q => q.data.length).foldl max 0) = m.data := by
  have hlong := maximumSendBlock_lt hsplit
  have hend := splitCount_end hassert (by omega) hblock
  have hchunk : ∀ q ∈ parts,
      q.data = chunk (maximumSendBlock m mtuSize) m.data q.splitPacketIndex :=
    fun q hq => (hpieces q hq).part hsplit
  have hmax : (parts.map fun q => q.data.length).foldl max 0 = maximumSendBlock m mtuSize := by
    refine foldl_max_eq ?_ ?_
    · intro x hx
      obtain ⟨q, hq, rfl⟩ := List.mem_map.mp hx
      rw [hchunk q hq, length_chunk]
      exact Nat.min_le_left _ _
    · have hcount : 0 < splitCount m mtuSize := Nat.pos_of_ne_zero fun hzero => by
        rw [hzero, Nat.zero_mul] at hend
        omega
      -- the first part is a whole block
      obtain ⟨q, hq, hindex⟩ := List.mem_map.mp (hperm.symm.subset (List.mem_range.mpr hcount))
      refine List.mem_map.mpr ⟨q, hq, ?_⟩
      rw [hchunk q hq, length_chunk, hindex]
      omega
  rw [hmax]
  exact foldl_overwrite_chunk hperm hchunk
    (fun k hk => splitPart_start (by omega) hk) hend

/-- As many different parts as there are: all of them. -/
theorem perm_range_of_distinct {parts : List InternalPacket} (hsplit : m.IsSplit mtuSize)
    (hpieces : ∀ q ∈ parts, q.IsPieceOf m mtuSize) (hordered : m.reliability = .reliableOrdered)
    (hdistinct : parts.Pairwise DistinctParts) (hlength : splitCount m mtuSize ≤ parts.length) :
    (parts.map splitPacketIndex).Perm (List.range (splitCount m mtuSize)) := by
  have hnodup : (parts.map splitPacketIndex).Nodup := by
    refine List.pairwise_map.mpr (hdistinct.imp_of_mem fun {q q'} hq hq' hdistinct => ?_)
    have hpiece := hpieces q hq
    have hpiece' := hpieces q' hq'
    exact hdistinct (hpiece.reliability.trans hordered) (hpiece'.reliability.trans hordered)
      ((hpiece.splitPacketId hsplit).trans (hpiece'.splitPacketId hsplit).symm)
  have hsubset : parts.map splitPacketIndex ⊆ List.range (splitCount m mtuSize) := by
    intro k hk
    obtain ⟨q, hq, rfl⟩ := List.mem_map.mp hk
    have hlt := (hpieces q hq).splitPacketIndex hsplit
    rw [(hpieces q hq).splitPacketCount hsplit] at hlt
    exact List.mem_range.mpr hlt
  refine (List.subperm_of_subset hnodup hsubset).perm_of_length_le ?_
  rw [List.length_map, List.length_range]
  exact hlength

/-- What comes of a part that is collected among parts of other messages. -/
inductive Collected (l : ReliabilityLayer) (p m : InternalPacket) (mtuSize : ℕ) :
    ReliabilityLayer × Option InternalPacket → Prop
  /-- Not all parts are there yet. -/
  | waiting (hmissing : (l.partsWith p).length ≠ splitCount m mtuSize) :
    Collected l p m mtuSize ({ l with splitPacketList := l.splitPacketList ++ [p] }, none)
  | complete {list : List InternalPacket} {q : InternalPacket}
    (hlist : list.Perm (l.splitPacketList.filter fun q => !decide (q.splitPacketId = m.splitPacketId)))
    (hstands : q.StandsFor m)
    (hdata : m.reliability = .reliableOrdered → AssertSplitCount m mtuSize →
      (l.partsWith p).Pairwise DistinctParts → q.data = m.data) :
    Collected l p m mtuSize ({ l with splitPacketList := list }, some q)

/-- A part completes its message or joins the list. -/
theorem collectSplitPacket_spec {l : ReliabilityLayer} {sent : List InternalPacket}
    (hlist : ArePartsOf l.splitPacketList sent mtuSize) (hids : IdsDiffer sent mtuSize)
    (hm : m ∈ sent) (hsplit : m.IsSplit mtuSize) (hp : p.IsPieceOf m mtuSize)
    (hblock : 0 < maximumSendBlock m mtuSize) (time : UInt32) :
    Collected l p m mtuSize (l.collectSplitPacket p time) := by
  have hid := hp.splitPacketId hsplit
  have hpieces : ∀ q ∈ l.partsWith p, q.IsPieceOf m mtuSize := by
    intro q hq
    obtain ⟨hin, heq⟩ := List.mem_filter.mp hq
    obtain hold | hnew := List.mem_append.mp hin
    · obtain ⟨m', hm', hsplit', hq'⟩ := hlist q hold
      have hsame : m.splitPacketId = m'.splitPacketId :=
        hid.symm.trans ((of_decide_eq_true heq).symm.trans (hq'.splitPacketId hsplit'))
      exact hids m hm m' hm' hsplit hsplit' hsame ▸ hq'
    · exact List.mem_singleton.mp hnew ▸ hp
  obtain ⟨first, hfirst, heq⟩ := collectSplitPacket_eq l p time
  rw [heq, (hpieces first hfirst).splitPacketCount hsplit]
  by_cases hlength : (l.partsWith p).length = splitCount m mtuSize
  · rw [if_pos hlength]
    have hstands := (hpieces first hfirst).standsFor
    refine .complete ?_ ⟨hstands.reliability, hstands.orderingChannel, hstands.orderingIndex⟩ ?_
    · refine (swapRemove_perm _ le_rfl).trans ?_
      rw [List.filter_append, List.filter_cons_of_neg (by simp), List.filter_nil, List.append_nil, hid]
    · intro hordered hassert hdistinct
      exact joinParts_eq hsplit hpieces
        (perm_range_of_distinct hsplit hpieces hordered hdistinct hlength.ge) hassert hblock
  · rw [if_neg hlength]
    exact .waiting hlength

end ReliabilityLayer

end Multicrew.Transport
