import Multicrew.Transport.OrderedDelivery

/-!
# Nothing ordered is lost

A packet that was acknowledged has arrived: its message was put out or waits for its turn, or the
packet waits among the parts of its message. So once an end has nothing left to send, all ordered
messages were handed over, unless there were too many for the ordering index.
-/

namespace Multicrew.Transport

open Multicrew.Library

namespace ReliabilityLayer

open InternalPacket

variable {l l' : ReliabilityLayer} {handed sent out list : List InternalPacket}
  {p m : InternalPacket} {mtuSize channel : ℕ} {time : UInt32}

/-! ### Arrival -/

/-- A packet of an ordered message is accounted for. -/
def Arrived (l : ReliabilityLayer) (channel : ℕ) (p : InternalPacket) : Prop :=
  p.orderingIndex.toNat < (l.waitingForOrderedPacketReadIndex channel).toNat ∨
    (∃ q ∈ l.orderingList channel, q.orderingIndex = p.orderingIndex) ∨
    ∃ q ∈ l.splitPacketList, 0 < p.splitPacketCount ∧ q.splitPacketId = p.splitPacketId ∧
      q.splitPacketIndex = p.splitPacketIndex

/-- Putting packets out lets the index go on. -/
theorem putOut_progress (haccepted : Accepted l handed sent mtuSize) {q : InternalPacket}
    (hlt : q.orderingChannel < numberOfOrderedStreams / 4)
    (hperm : (q :: l.orderingList q.orderingChannel).Perm (out ++ list))
    (horder : l.InOrder q.orderingChannel out) :
    (l.waitingForOrderedPacketReadIndex q.orderingChannel).toNat ≤
        ((l.putOut q.orderingChannel out list).waitingForOrderedPacketReadIndex
          q.orderingChannel).toNat ∧
      ∀ q' ∈ q :: l.orderingList q.orderingChannel,
        q'.orderingIndex.toNat < ((l.putOut q.orderingChannel out
          list).waitingForOrderedPacketReadIndex q.orderingChannel).toNat ∨ q' ∈ list := by
  have hle : (l.waitingForOrderedPacketReadIndex q.orderingChannel).toNat ≤ 256 := by
    rw [haccepted.counted _ hlt]
    exact haccepted.limit _ hlt
  have hlength := horder.length_le hle
  have hnew : ((l.putOut q.orderingChannel out list).waitingForOrderedPacketReadIndex
      q.orderingChannel).toNat =
      (l.waitingForOrderedPacketReadIndex q.orderingChannel).toNat + out.length := by
    simp only [ReliabilityLayer.putOut, Function.update_self]
    rw [UInt32.toNat_add, UInt32.toNat_ofNat']
    omega
  refine ⟨by omega, fun q' hq' => ?_⟩
  refine (List.mem_append.mp (hperm.subset hq')).imp_left fun hout => ?_
  obtain ⟨i, hi⟩ := List.mem_iff_getElem?.mp hout
  obtain ⟨hbound, -⟩ := List.getElem?_eq_some_iff.mp hi
  have hindex := horder.index hle hi
  omega

/-- What has arrived stays so when an ordered packet is handled, and the packet itself has. -/
theorem Arrived.putOut (haccepted : Accepted l handed sent mtuSize) {q : InternalPacket}
    (hchannel : channel < numberOfOrderedStreams / 4)
    (hperm : (q :: l.orderingList q.orderingChannel).Perm (out ++ list))
    (horder : l.InOrder q.orderingChannel out)
    (h : Arrived l channel p ∨
      q.orderingChannel = channel ∧ q.orderingIndex = p.orderingIndex) :
    Arrived (l.putOut q.orderingChannel out list) channel p := by
  by_cases heq : channel = q.orderingChannel
  · subst heq
    obtain ⟨hle, hplace⟩ := putOut_progress haccepted hchannel hperm horder
    have hmember : ∀ q' ∈ q :: l.orderingList q.orderingChannel,
        q'.orderingIndex = p.orderingIndex →
        Arrived (l.putOut q.orderingChannel out list) q.orderingChannel p := by
      intro q' hq' hindex
      obtain hpassed | hwaits := hplace q' hq'
      · exact .inl (hindex ▸ hpassed)
      · refine .inr (.inl ⟨q', ?_, hindex⟩)
        simpa only [ReliabilityLayer.putOut, Function.update_self] using hwaits
    rcases h with (hpassed | ⟨q', hq', hindex⟩ | hpart) | ⟨-, hindex⟩
    · exact .inl (by omega)
    · exact hmember q' (List.mem_cons_of_mem q hq') hindex
    · exact .inr (.inr hpart)
    · exact hmember q List.mem_cons_self hindex
  · have harrived := h.resolve_right fun hsame => heq hsame.1.symm
    unfold Arrived at harrived ⊢
    simpa only [ReliabilityLayer.putOut, Function.update_of_ne heq] using harrived

/-- Messages that are told apart by their ids keep their parts apart. -/
theorem id_ne (hids : IdsDiffer sent mtuSize) {m' : InternalPacket} (hm : m ∈ sent)
    (hm' : m' ∈ sent) (hsplit : m.IsSplit mtuSize) (hsplit' : m'.IsSplit mtuSize) (hne : m ≠ m') :
    m.splitPacketId ≠ m'.splitPacketId :=
  fun hid => hne (hids m hm m' hm' hsplit hsplit' hid)

/-- A piece that counts parts is one of them. -/
theorem isSplit_of_piece (hp : p.IsPieceOf m mtuSize) (hcount : 0 < p.splitPacketCount) :
    m.IsSplit mtuSize := by
  by_contra hwhole
  have hzero := (hp.whole hwhole).1
  omega

/-- What has arrived stays so when a piece of a message is handled. -/
theorem Handled.arrived (haccepted : Accepted l handed sent mtuSize)
    (hids : IdsDiffer sent mtuSize) (hm : m ∈ sent)
    (hlt : m.reliability = .reliableOrdered → m.orderingChannel < numberOfOrderedStreams)
    (hhandled : Handled l p m mtuSize l') (hchannel : channel < numberOfOrderedStreams / 4)
    {p' m' : InternalPacket} (hm' : m' ∈ sent) (hp' : p'.IsPieceOf m' mtuSize)
    (hordered : m'.reliability = .reliableOrdered) (hon : m'.orderingChannel = channel)
    (h : Arrived l channel p') : Arrived l' channel p' := by
  cases hhandled with
  | unordered list out sequenced hkind hlist hout =>
    refine h.imp_right fun h => h.imp_right ?_
    rintro ⟨q, hq, hcount, hid, hindex⟩
    refine ⟨q, ?_, hcount, hid, hindex⟩
    have hsplit' := isSplit_of_piece hp' hcount
    by_cases hsplit : m.IsSplit mtuSize
    · have hne : m ≠ m' := fun heq => hkind (heq ▸ hordered)
      refine hlist.others q hq ?_
      rw [hid, hp'.splitPacketId hsplit']
      exact (id_ne hids hm hm' hsplit hsplit' hne).symm
    · exact hlist.whole hsplit ▸ hq
  | parts hkind hsplit hmissing =>
    refine h.imp_right fun h => h.imp_right ?_
    rintro ⟨q, hq, hpart⟩
    exact ⟨q, List.mem_append_left _ hq, hpart⟩
  | @ordered list q hkind hstands hwhole hlist hdata =>
    have hsub : list ⊆ l.splitPacketList := (subperm_of_parts hwhole hlist).subset
    obtain ⟨out, rest, heq, hperm, horder, -⟩ := handleOrdered_spec
      { l with splitPacketList := list } (hstands.orderingChannel ▸ hlt hkind)
    rw [heq]
    refine Arrived.putOut (haccepted.forget hsub) hchannel hperm horder ?_
    rcases h with hpassed | hwaits | ⟨q', hq', hcount, hid, hindex⟩
    · exact .inl (.inl hpassed)
    · exact .inl (.inr (.inl hwaits))
    · by_cases hsame : m.IsSplit mtuSize ∧ q'.splitPacketId = m.splitPacketId
      -- the parts of the message that was put together
      · have hsplit' := isSplit_of_piece hp' hcount
        have hmessage : m = m' := hids m hm m' hm' hsame.1 hsplit'
          (hsame.2.symm.trans (hid.trans (hp'.splitPacketId hsplit')))
        subst hmessage
        exact .inr ⟨hstands.orderingChannel.trans hon,
          hstands.orderingIndex.trans hp'.orderingIndex.symm⟩
      · refine .inl (.inr (.inr ⟨q', ?_, hcount, hid, hindex⟩))
        by_cases hsplit : m.IsSplit mtuSize
        · refine (hlist hsplit).symm.subset (List.mem_filter.mpr ⟨hq', ?_⟩)
          simpa using fun hid => hsame ⟨hsplit, hid⟩
        · exact hwhole hsplit ▸ hq'

/-- A piece of an ordered message that was handled has arrived. -/
theorem Handled.arrives (haccepted : Accepted l handed sent mtuSize)
    (hlt : m.reliability = .reliableOrdered → m.orderingChannel < numberOfOrderedStreams)
    (hhandled : Handled l p m mtuSize l') (hchannel : channel < numberOfOrderedStreams / 4)
    (hp : p.IsPieceOf m mtuSize) (hordered : m.reliability = .reliableOrdered)
    (hon : m.orderingChannel = channel) : Arrived l' channel p := by
  cases hhandled with
  | unordered list out sequenced hkind hlist hout => exact absurd hordered hkind
  | parts hkind hsplit hmissing =>
    have hindex := hp.splitPacketIndex hsplit
    exact .inr (.inr ⟨p, List.mem_append_right _ (List.mem_singleton_self p), by omega, rfl, rfl⟩)
  | @ordered list q hkind hstands hwhole hlist hdata =>
    have hsub : list ⊆ l.splitPacketList := (subperm_of_parts hwhole hlist).subset
    obtain ⟨out, rest, heq, hperm, horder, -⟩ := handleOrdered_spec
      { l with splitPacketList := list } (hstands.orderingChannel ▸ hlt hkind)
    rw [heq]
    exact Arrived.putOut (haccepted.forget hsub) hchannel hperm horder
      (.inr ⟨hstands.orderingChannel.trans hon, hstands.orderingIndex.trans hp.orderingIndex.symm⟩)

/-- Only the fields of ordered messages matter. -/
theorem Arrived.of_ordering (h : Arrived l channel p) (hsame : l'.ordering = l.ordering) :
    Arrived l' channel p := by
  simp only [ordering, Prod.mk.injEq] at hsame
  obtain ⟨-, hsplit, hlist, hread⟩ := hsame
  unfold Arrived at h ⊢
  rwa [hsplit, hlist, hread]

/-- And of the packet only what the wire carries. -/
theorem Arrived.of_wire {q : InternalPacket} (h : Arrived l channel p) (hwire : p.wire = q.wire) :
    Arrived l channel q := by
  obtain ⟨_, _, _, _, _, _, _, _, _, _, _⟩ := p
  obtain ⟨_, _, _, _, _, _, _, _, _, _, _⟩ := q
  simp only [wire, received, InternalPacket.mk.injEq] at hwire
  obtain ⟨-, -, rfl, rfl, rfl, rfl, rfl, rfl, -, -, rfl⟩ := hwire
  exact h

/-! ### What waits at the receiver -/

/-- Some part of a message is not in a list of parts. -/
def Missing (list : List InternalPacket) (m : InternalPacket) (mtuSize : ℕ) : Prop :=
  ∃ k < splitCount m mtuSize, ∀ q ∈ list, q.splitPacketId = m.splitPacketId → q.splitPacketIndex ≠ k

/-- Nothing waits at a layer that could be put out. -/
structure Settled (l : ReliabilityLayer) (sent : List InternalPacket) (mtuSize channel : ℕ) :
    Prop where
  closed : ∀ q ∈ l.orderingList channel, ¬ l.isWaitedFor channel q
  missing : ∀ m ∈ sent, m.IsSplit mtuSize → m.reliability = .reliableOrdered →
    Missing l.splitPacketList m mtuSize

/-- Parts of other messages do not complete a message. -/
theorem Missing.of_new {old : List InternalPacket} (h : Missing old m mtuSize)
    (hnew : ∀ q ∈ list, q ∈ old ∨ q.splitPacketId ≠ m.splitPacketId) : Missing list m mtuSize := by
  obtain ⟨k, hk, hnone⟩ := h
  refine ⟨k, hk, fun q hq hid => ?_⟩
  exact hnone q ((hnew q hq).resolve_right fun hne => hne hid) hid

/-- While there are too few different parts, one is missing. -/
theorem missing_of_length (hids : IdsDiffer sent mtuSize) (hm : m ∈ sent)
    (hsplit : m.IsSplit mtuSize) (hordered : m.reliability = .reliableOrdered)
    (hparts : ArePartsOf list sent mtuSize) (hdistinct : list.Pairwise DistinctParts)
    (hlength : (list.filter fun q => q.splitPacketId = m.splitPacketId).length ≠
      splitCount m mtuSize) : Missing list m mtuSize := by
  by_contra hall
  have hthere : ∀ k < splitCount m mtuSize,
      ∃ q ∈ list, q.splitPacketId = m.splitPacketId ∧ q.splitPacketIndex = k := by
    intro k hk
    by_contra hnone
    exact hall ⟨k, hk, fun q hq hid hindex => hnone ⟨q, hq, hid, hindex⟩⟩
  have hpieces : ∀ q ∈ list.filter fun q => q.splitPacketId = m.splitPacketId,
      q.IsPieceOf m mtuSize := by
    intro q hq
    obtain ⟨hin, hid⟩ := List.mem_filter.mp hq
    obtain ⟨m', hm', hsplit', hpiece⟩ := hparts q hin
    have heq : m' = m := hids m' hm' m hm hsplit' hsplit
      ((hpiece.splitPacketId hsplit').symm.trans (of_decide_eq_true hid))
    exact heq ▸ hpiece
  have hrange : List.range (splitCount m mtuSize) ⊆
      (list.filter fun q => q.splitPacketId = m.splitPacketId).map splitPacketIndex := by
    intro k hk
    obtain ⟨q, hq, hid, hindex⟩ := hthere k (List.mem_range.mp hk)
    exact List.mem_map.mpr ⟨q, List.mem_filter.mpr ⟨hq, decide_eq_true hid⟩, hindex⟩
  have hle := (List.subperm_of_subset List.nodup_range hrange).length_le
  rw [List.length_range, List.length_map] at hle
  have hperm := (perm_range_of_distinct hsplit hpieces hordered
    (hdistinct.sublist List.filter_sublist) hle).length_eq
  rw [List.length_range, List.length_map] at hperm
  exact hlength hperm

/-- Only the fields of ordered messages matter. -/
theorem Settled.of_ordering (h : Settled l sent mtuSize channel)
    (hsame : l'.ordering = l.ordering) : Settled l' sent mtuSize channel := by
  simp only [ordering, Prod.mk.injEq] at hsame
  obtain ⟨-, hsplit, hlist, hread⟩ := hsame
  refine ⟨fun q hq => ?_, hsplit ▸ h.missing⟩
  have hclosed := h.closed q (hlist ▸ hq)
  unfold isWaitedFor at hclosed ⊢
  rwa [hread]

/-- A layer that handles a piece of a message puts out all it can. -/
theorem Handled.settled (hids : IdsDiffer sent mtuSize) (hm : m ∈ sent)
    (hlt : m.reliability = .reliableOrdered → m.orderingChannel < numberOfOrderedStreams)
    (hp : p.IsPieceOf m mtuSize) (hhandled : Handled l p m mtuSize l')
    (hparts : ArePartsOf l'.splitPacketList sent mtuSize)
    (hdistinct : l'.splitPacketList.Pairwise DistinctParts) (h : Settled l sent mtuSize channel) :
    Settled l' sent mtuSize channel := by
  have hother : ∀ m' ∈ sent, m'.IsSplit mtuSize → m' ≠ m → m.IsSplit mtuSize →
      ∀ q ∈ l.splitPacketList ++ [p],
        q ∈ l.splitPacketList ∨ q.splitPacketId ≠ m'.splitPacketId := by
    intro m' hm' hsplit' hne hsplit q hq
    refine (List.mem_append.mp hq).imp_right fun hnew => ?_
    rw [List.mem_singleton.mp hnew, hp.splitPacketId hsplit]
    exact id_ne hids hm hm' hsplit hsplit' hne.symm
  cases hhandled with
  | unordered list out sequenced hkind hlist hout =>
    refine ⟨h.closed, fun m' hm' hsplit' hordered => ?_⟩
    refine (h.missing m' hm' hsplit' hordered).of_new fun q hq => ?_
    by_cases hsplit : m.IsSplit mtuSize
    · exact hother m' hm' hsplit' (fun heq => hkind (heq ▸ hordered)) hsplit q
        ((hlist.subperm hsplit).subset hq)
    · exact .inl (hlist.whole hsplit ▸ hq)
  | parts hkind hsplit hmissing =>
    refine ⟨h.closed, fun m' hm' hsplit' hordered => ?_⟩
    by_cases heq : m' = m
    · subst heq
      refine missing_of_length hids hm hsplit hkind hparts hdistinct ?_
      simpa only [partsWith, hp.splitPacketId hsplit] using hmissing
    · exact (h.missing m' hm' hsplit' hordered).of_new (hother m' hm' hsplit' heq hsplit)
  | @ordered list q hkind hstands hwhole hlist hdata =>
    have hsub : list ⊆ l.splitPacketList := (subperm_of_parts hwhole hlist).subset
    obtain ⟨out, rest, heq, -, -, hclosed⟩ := handleOrdered_spec
      { l with splitPacketList := list } (hstands.orderingChannel ▸ hlt hkind)
    rw [heq]
    refine ⟨fun q' hq' => ?_, fun m' hm' hsplit' hordered =>
      (h.missing m' hm' hsplit' hordered).of_new fun q' hq' => .inl (hsub hq')⟩
    by_cases hchannel : channel = q.orderingChannel
    · subst hchannel
      refine hclosed h.closed q' ?_
      simpa only [ReliabilityLayer.putOut, Function.update_self] using hq'
    · simp only [ReliabilityLayer.putOut, Function.update_of_ne hchannel] at hq'
      have hold := h.closed q' hq'
      simpa only [isWaitedFor, ReliabilityLayer.putOut, Function.update_of_ne hchannel] using hold

/-! ### What an end acknowledges -/

/-- All ordered packets of a channel with this number have arrived. -/
def Took (l : ReliabilityLayer) (queued : List InternalPacket) (channel n : ℕ) : Prop :=
  ∀ p ∈ onChannel channel queued, p.packetNumber = n → Arrived l channel p

/-- What holds of a layer and the packets queued for it. -/
structure Received (l : ReliabilityLayer) (sent queued : List InternalPacket)
    (mtuSize channel : ℕ) : Prop where
  settled : Settled l sent mtuSize channel
  logged : ∀ n, l.receivedPackets n ≠ 0 →
    (∃ p ∈ queued, p.packetNumber = n) ∧ Took l queued channel n
  acknowledged : ∀ a ∈ l.acknowledgementQueue, Took l queued channel a.1

variable {queued others : List InternalPacket} {peer : ReliabilityLayer} {entry : FrameEntry}

/-- An entry leaves the log of received packets alone, except for the number of its packet. -/
theorem receivedPackets_handleEntry (l : ReliabilityLayer) (entry : FrameEntry) (time : UInt32)
    {n : ℕ} (hn : (l.handleEntry entry time).1.receivedPackets n ≠ 0) :
    l.receivedPackets n ≠ 0 ∨ ∃ p, entry = .packet p ∧ p.packetNumber = n := by
  cases entry with
  | acknowledgement n' =>
    have hsame := (removePacketFromResendQueue_emptied
      { l with lastAckTime := if l.resendQueue = [] then 0 else time } n').incoming
    simp only [incoming, Prod.mk.injEq] at hsame
    exact .inl (hsame.2.2.2.2.2 ▸ hn)
  | packet p =>
    by_cases hp : p.packetNumber = n
    · exact .inr ⟨p, rfl, hp⟩
    refine .inl ?_
    obtain ⟨queue, -, ⟨-, heq⟩ | ⟨-, -, heq⟩⟩ := l.handleEntry_packet p time
    · rw [heq] at hn
      exact hn
    · have hsame := outgoing_handlePacket
        { l with
          acknowledgementQueue := queue
          receivedPackets := Function.update l.receivedPackets p.packetNumber time } p time
      simp only [ReliabilityLayer.outgoing, Prod.mk.injEq] at hsame
      rw [heq, hsame.2.2.2.2, Function.update_of_ne (Ne.symm hp)] at hn
      exact hn

/-- Packets with numbers of their own. -/
def NumbersDiffer (queued : List InternalPacket) : Prop :=
  ∀ p ∈ queued, ∀ q ∈ queued, p.packetNumber = q.packetNumber → p = q

/-- What is the same for every entry of a datagram. -/
structure Incoming (peer : ReliabilityLayer) (sent queued : List InternalPacket) (mtuSize : ℕ) :
    Prop where
  sender : Sender peer sent queued mtuSize
  ids : IdsDiffer sent mtuSize
  numbers : NumbersDiffer queued
  numbers_lt : ∀ p ∈ queued, p.packetNumber < receivedPacketLogLength
  reliable : ∀ m ∈ sent, m.reliability.isReliable
  min : 512 ≤ mtuSize
  max : mtuSize ≤ maximumMtuSize

/-- What an entry does at its receiver: nothing that has arrived is lost, what it carries has
arrived, and what could be put out was. -/
structure EntryArrived (l l' : ReliabilityLayer) (entry : FrameEntry)
    (sent queued : List InternalPacket) (mtuSize channel : ℕ) : Prop where
  settled : Settled l' sent mtuSize channel
  kept : ∀ p ∈ onChannel channel queued, Arrived l channel p → Arrived l' channel p
  arrives : ∀ p, entry = .packet p → Took l' queued channel p.packetNumber

/-- A packet that is read from a datagram has arrived. -/
theorem handleEntry_arrived (hin : Incoming peer sent queued mtuSize)
    (haccepted : Accepted l handed sent mtuSize)
    (haccepted' : Accepted (l.handleEntry entry time).1 handed sent mtuSize)
    (hfaithful' : Faithful (l.handleEntry entry time).1 handed sent)
    (hgenuine : entry.Genuine queued others) (hchannel : channel < numberOfOrderedStreams / 4)
    (h : Received l sent queued mtuSize channel) :
    EntryArrived l (l.handleEntry entry time).1 entry sent queued mtuSize channel := by
  obtain ⟨hsame, hduplicate⟩ | ⟨p, l₀, rfl, hnumber, hduplicate, hsame, heq⟩ :=
    l.handleEntry_cases entry time
  -- a duplicate: it is in the log
  · refine ⟨h.settled.of_ordering hsame, fun p _ harrived => harrived.of_ordering hsame, ?_⟩
    rintro p rfl
    obtain ⟨q, hq, hwire⟩ := hgenuine
    have hnumber := congrArg InternalPacket.packetNumber hwire
    have hlog := hduplicate p rfl (hnumber.trans_lt (hin.numbers_lt q hq))
    have hlogged : l.receivedPackets p.packetNumber ≠ 0 := by
      intro hzero
      simp [isDuplicate, hzero] at hlog
    exact fun q' hq' hn => ((h.logged _ hlogged).2 q' hq' hn).of_ordering hsame
  -- a new packet
  · obtain ⟨q, hq, hwire⟩ := id hgenuine
    obtain ⟨m, hm, hpiece, hlt⟩ := hin.sender.piece hgenuine
    have haccepted₀ := haccepted.of_ordering hsame
    have hreliable : ∀ q ∈ l₀.splitPacketList, q.reliability.isReliable := by
      intro q hq
      obtain ⟨m', hm', -, hpiece'⟩ := haccepted₀.parts q hq
      exact hpiece'.reliability ▸ hin.reliable m' hm'
    obtain ⟨list, -, hall, -, hhandled⟩ := handlePacket_spec haccepted₀.parts hin.ids hm hpiece
      (maximumSendBlock_bounds m hin.min hin.max).1 time
    obtain rfl := hall hreliable
    rw [heq] at haccepted' hfaithful' ⊢
    refine ⟨hhandled.settled hin.ids hm hlt hpiece haccepted'.parts hfaithful'.distinct
      (h.settled.of_ordering hsame), fun p' hp' harrived => ?_, fun p' hp' q' hq' hn => ?_⟩
    · obtain ⟨hqueued, hordered, hon⟩ := mem_onChannel.mp hp'
      obtain ⟨m', hm', hpiece'⟩ := hin.sender.pieces p' hqueued
      exact hhandled.arrived haccepted₀ hin.ids hm hlt hchannel hm' hpiece'
        (hpiece'.reliability.symm.trans hordered) (hpiece'.orderingChannel.symm.trans hon)
        (harrived.of_ordering hsame)
    · obtain rfl := FrameEntry.packet.inj hp'
      obtain ⟨hqueued, hordered, hon⟩ := mem_onChannel.mp hq'
      have hsameNumber := congrArg InternalPacket.packetNumber hwire
      obtain rfl := hin.numbers q' hqueued q hq (hn.trans hsameNumber)
      have hpiece' := hpiece.of_wire hwire.symm
      exact (hhandled.arrives haccepted₀ hlt hchannel hpiece
        (hpiece'.reliability.symm.trans hordered)
        (hpiece'.orderingChannel.symm.trans hon)).of_wire hwire

/-- Every entry keeps that what was received has arrived. -/
theorem Received.handleEntry (h : Received l sent queued mtuSize channel)
    (hgenuine : entry.Genuine queued others)
    (harrived : EntryArrived l (l.handleEntry entry time).1 entry sent queued mtuSize channel) :
    Received (l.handleEntry entry time).1 sent queued mtuSize channel := by
  refine ⟨harrived.settled, fun n hn => ?_, fun a ha => ?_⟩
  · obtain hold | ⟨p, rfl, rfl⟩ := l.receivedPackets_handleEntry entry time hn
    · obtain ⟨hqueued, htook⟩ := h.logged n hold
      exact ⟨hqueued, fun p hp hpn => harrived.kept p hp (htook p hp hpn)⟩
    · obtain ⟨q, hq, hwire⟩ := hgenuine
      exact ⟨⟨q, hq, (congrArg InternalPacket.packetNumber hwire).symm⟩, harrived.arrives p rfl⟩
  · obtain hold | ⟨p, rfl, hn⟩ := (l.handleEntry_step entry time).acknowledgements a ha
    · exact fun p hp hpn => harrived.kept p hp (h.acknowledged a hold p hp hpn)
    · exact hn ▸ harrived.arrives p rfl

/-- Steps that touch neither the ordered messages nor the log keep it, if they acknowledge nothing
new. -/
theorem Received.of_ordering (h : Received l sent queued mtuSize channel)
    (hsame : l'.ordering = l.ordering) (hlog : l'.receivedPackets = l.receivedPackets)
    (hacks : ∀ a ∈ l'.acknowledgementQueue, a ∈ l.acknowledgementQueue) :
    Received l' sent queued mtuSize channel where
  settled := h.settled.of_ordering hsame
  logged n hn :=
    have hlogged := h.logged n (hlog ▸ hn)
    ⟨hlogged.1, fun p hp hpn => (hlogged.2 p hp hpn).of_ordering hsame⟩
  acknowledged a ha p hp hpn := (h.acknowledged a (hacks a ha) p hp hpn).of_ordering hsame

/-- What a datagram does at its receiver. -/
theorem Received.handleSocketReceive (h : Received l sent queued mtuSize channel)
    (hin : Incoming peer sent queued mtuSize) (haccepted : Accepted l handed sent mtuSize)
    (hfaithful : Faithful l handed sent)
    (hcount : ∀ m ∈ sent, m.IsSplit mtuSize → AssertSplitCount m mtuSize) {datagram : List UInt8}
    (hgenuine : ∀ entry ∈ parseDatagram datagram time, entry.Genuine queued others)
    (hassert : AlongEntries (AssertNewPart time) time l (parseDatagram datagram time))
    (hchannel : channel < numberOfOrderedStreams / 4) :
    Received (l.handleSocketReceive datagram time) sent queued mtuSize channel ∧
      ∀ p ∈ onChannel channel queued, Arrived l channel p →
        Arrived (l.handleSocketReceive datagram time) channel p := by
  refine (handleSocketReceive_invariant (AssertNewPart time)
    (fun l' => (Accepted l' handed sent mtuSize ∧ Faithful l' handed sent) ∧
      Received l' sent queued mtuSize channel ∧
      ∀ p ∈ onChannel channel queued, Arrived l channel p → Arrived l' channel p) ?_ ?_
    ⟨⟨haccepted, hfaithful⟩, h, fun _ _ harrived => harrived⟩ hassert).2
  · rintro l' entry hentry ⟨⟨haccepted, hfaithful⟩, h, hkept⟩ hnew
    have haccepted' := haccepted.handleEntry hin.sender hin.ids hin.min hin.max
      (hgenuine entry hentry) time
    have hfaithful' := hfaithful.handleEntry haccepted hin.sender hin.ids hcount hin.min hin.max
      (hgenuine entry hentry) hnew
    have harrived := handleEntry_arrived hin haccepted haccepted' hfaithful' (hgenuine entry hentry)
      hchannel h
    exact ⟨⟨haccepted', hfaithful'⟩, h.handleEntry (hgenuine entry hentry) harrived,
      fun p hp hold => harrived.kept p hp (hkept p hp hold)⟩
  · rintro l' acks ⟨⟨haccepted, hfaithful⟩, h, hkept⟩
    have hsame := l'.ordering_increaseWindow acks time
    have hrest : (l'.increaseWindow acks time).receivedPackets = l'.receivedPackets ∧
        (l'.increaseWindow acks time).acknowledgementQueue = l'.acknowledgementQueue := by
      unfold increaseWindow
      split <;> exact ⟨rfl, rfl⟩
    exact ⟨⟨haccepted.of_ordering hsame, hfaithful.of_ordering hsame⟩,
      h.of_ordering hsame hrest.1 fun a ha => hrest.2 ▸ ha,
      fun p hp hold => (hkept p hp hold).of_ordering hsame⟩

/-! ### What goes on being sent -/

variable {w : InternalPacket}

/-- An acknowledgement stops only the packet with its number, unless packets are sequenced. -/
theorem removePacketFromResendQueue_kept {n : ℕ} (hordered : w.reliability = .reliableOrdered)
    (hw : l.Outgoing w) (hn : w.packetNumber ≠ n) :
    (l.removePacketFromResendQueue n).Outgoing w := by
  obtain ⟨priority, p, hp, hwire⟩ | ⟨p, hp, rfl⟩ := hw
  · exact .inl ⟨priority, p, (removePacketFromResendQueue_emptied l n).sendQueue ▸ hp, hwire⟩
  unfold removePacketFromResendQueue
  cases hfind : l.resendQueue.findIdx? fun q => q.any fun p => p.packetNumber = n with
  | none => exact .inr ⟨p, hp, rfl⟩
  | some i =>
    obtain ⟨hi, hany, -⟩ := List.findIdx?_eq_some_iff_getElem.mp hfind
    obtain ⟨j, hj⟩ := List.mem_iff_getElem?.mp hp
    have hne : i ≠ j := by
      intro heq
      subst heq
      rw [(List.getElem?_eq_some_iff.mp hj).2] at hany
      exact hn (show p.packetNumber = n by simpa using hany)
    have hqueue : some p ∈ (if i = 0 then l.resendQueue.tail else l.resendQueue.set i none) := by
      split
      · obtain ⟨j, rfl⟩ := Nat.exists_eq_succ_of_ne_zero (show j ≠ 0 by omega)
        exact List.mem_iff_getElem?.mpr ⟨j, by rw [List.getElem?_tail]; exact hj⟩
      · exact List.mem_iff_getElem?.mpr ⟨j, by rw [List.getElem?_set_ne hne]; exact hj⟩
    dsimp only
    generalize (if i = 0 then l.resendQueue.tail else l.resendQueue.set i none) = queue at *
    split
    · split
      · refine .inr ⟨p, List.mem_map.mpr ⟨some p, hqueue, ?_⟩, rfl⟩
        have hkind : p.reliability = .reliableOrdered := hordered
        simp [hkind]
      · exact .inr ⟨p, hqueue, rfl⟩
    · exact .inr ⟨p, hp, rfl⟩

/-- An ordered packet waits until its acknowledgement comes. -/
theorem outgoing_handleEntry_kept (hordered : w.reliability = .reliableOrdered)
    (hw : l.Outgoing w) :
    (l.handleEntry entry time).1.Outgoing w ∨ entry = .acknowledgement w.packetNumber := by
  cases entry with
  | acknowledgement n =>
    by_cases hn : w.packetNumber = n
    · exact .inr (hn ▸ rfl)
    · exact .inl (removePacketFromResendQueue_kept hordered
        (l := { l with lastAckTime := if l.resendQueue = [] then 0 else time }) hw hn)
  | packet p =>
    obtain ⟨queue, -, ⟨-, heq⟩ | ⟨-, -, heq⟩⟩ := l.handleEntry_packet p time
    · rw [heq]
      exact .inl hw
    · rw [heq]
      exact .inl ((outgoing_same (outgoing_handlePacket
        { l with
          acknowledgementQueue := queue
          receivedPackets := Function.update l.receivedPackets p.packetNumber time } p
        time).symm).2.2 w hw)

/-- A datagram stops only the packets that it acknowledges. -/
theorem outgoing_handleSocketReceive_kept {datagram : List UInt8}
    (hordered : w.reliability = .reliableOrdered) (hw : l.Outgoing w) :
    (l.handleSocketReceive datagram time).Outgoing w ∨
      .acknowledgement w.packetNumber ∈ parseDatagram datagram time := by
  refine handleSocketReceive_invariant (fun _ _ => True)
    (fun l => l.Outgoing w ∨ .acknowledgement w.packetNumber ∈ parseDatagram datagram time)
    ?_ ?_ (.inl hw) (alongEntries_true _ _ _)
  · rintro l entry hentry hl -
    obtain hl | hacked := hl
    · have hstep : (l.handleEntry entry time).1.Outgoing w ∨
          entry = .acknowledgement w.packetNumber := outgoing_handleEntry_kept hordered hl
      rcases hstep with hkept | rfl
      · exact .inl hkept
      · exact .inr hentry
    · exact .inr hacked
  · intro l acks hl
    unfold increaseWindow
    split <;> exact hl

/-! ### What is queued -/

/-- The numbers of packets count up as long as the log is not full. -/
theorem iterate_nextPacketNumber {n k : ℕ} (h : n + k < receivedPacketLogLength) :
    nextPacketNumber^[k] n = n + k := by
  induction k with
  | zero => rfl
  | succ k ih =>
    rw [Function.iterate_succ_apply', ih (by omega), nextPacketNumber, if_neg (by omega)]
    rfl

/-- The packets queued before the numbers wrap around: numbered in turn, and with all pieces of
every message. -/
structure Queued (peer : ReliabilityLayer) (sent queued : List InternalPacket) (mtuSize : ℕ) :
    Prop where
  next : peer.packetNumber = queued.length
  numbers : ∀ j (p : InternalPacket), queued[j]? = some p → p.packetNumber = j
  whole : ∀ m ∈ sent, ¬ m.IsSplit mtuSize → ∃ p ∈ queued, p.IsPieceOf m mtuSize
  parts : ∀ m ∈ sent, m.IsSplit mtuSize → ∀ k < splitCount m mtuSize,
    ∃ p ∈ queued, p.IsPieceOf m mtuSize ∧ p.splitPacketIndex = k

/-- Every queued packet has a number below their count. -/
theorem Queued.lt (h : Queued peer sent queued mtuSize) (hp : p ∈ queued) :
    p.packetNumber < queued.length := by
  obtain ⟨j, hj⟩ := List.mem_iff_getElem?.mp hp
  obtain ⟨hlt, -⟩ := List.getElem?_eq_some_iff.mp hj
  exact (h.numbers j p hj).trans_lt hlt

/-- So no two have the same number. -/
theorem Queued.differ (h : Queued peer sent queued mtuSize) : NumbersDiffer queued := by
  intro p hp q hq hnumber
  obtain ⟨i, hi⟩ := List.mem_iff_getElem?.mp hp
  obtain ⟨j, hj⟩ := List.mem_iff_getElem?.mp hq
  have hij : i = j := (h.numbers i p hi).symm.trans (hnumber.trans (h.numbers j q hj))
  subst hij
  exact Option.some.inj (hi.symm.trans hj)

/-- A message that passes the assertion is split into some packets. -/
theorem splitCount_pos (hassert : AssertSplitCount m mtuSize) : 0 < splitCount m mtuSize := by
  unfold AssertSplitCount at hassert
  rw [splitCount, Nat.mod_eq_of_lt (by omega)]
  exact Nat.succ_pos _

/-- Every message is queued as at least one packet. -/
theorem SendStep.packets_pos {packets : List InternalPacket}
    (hstep : SendStep peer l' m packets mtuSize)
    (hcount : m.IsSplit mtuSize → AssertSplitCount m mtuSize) : 0 < packets.length := by
  by_cases hsplit : m.IsSplit mtuSize
  · obtain ⟨p, hp, -⟩ := hstep.parts hsplit 0 (splitCount_pos (hcount hsplit))
    exact List.length_pos_of_mem hp
  · exact List.length_pos_iff.mpr (hstep.whole hsplit)

/-- Another message is numbered on. -/
theorem Queued.append (h : Queued peer sent queued mtuSize) {packets : List InternalPacket}
    (hstep : SendStep peer l' m packets mtuSize)
    (hcount : m.IsSplit mtuSize → AssertSplitCount m mtuSize)
    (hlength : (queued ++ packets).length < receivedPacketLogLength) :
    Queued l' (sent ++ [m]) (queued ++ packets) mtuSize := by
  have hpos := hstep.packets_pos hcount
  have hnext := h.next
  rw [List.length_append] at hlength
  refine ⟨?_, fun j p hp => ?_, fun m' hm' hwhole => ?_, fun m' hm' hsplit k hk => ?_⟩
  · rw [hstep.nextNumber, ← Function.iterate_succ_apply, hnext,
      iterate_nextPacketNumber (by omega), List.length_append]
    omega
  · by_cases hlt : j < queued.length
    · rw [List.getElem?_append_left hlt] at hp
      exact h.numbers j p hp
    · rw [List.getElem?_append_right (Nat.le_of_not_lt hlt)] at hp
      obtain ⟨hbound, -⟩ := List.getElem?_eq_some_iff.mp hp
      rw [hstep.packetNumber _ p hp, hnext, iterate_nextPacketNumber (by omega)]
      omega
  · obtain hold | hnew := List.mem_append.mp hm'
    · obtain ⟨p, hp, hpiece⟩ := h.whole m' hold hwhole
      exact ⟨p, List.mem_append_left _ hp, hpiece⟩
    · obtain rfl := List.mem_singleton.mp hnew
      obtain ⟨p, hp⟩ := List.exists_mem_of_ne_nil _ (hstep.whole hwhole)
      exact ⟨p, List.mem_append_right _ hp, hstep.pieces p hp⟩
  · obtain hold | hnew := List.mem_append.mp hm'
    · obtain ⟨p, hp, hpiece⟩ := h.parts m' hold hsplit k hk
      exact ⟨p, List.mem_append_left _ hp, hpiece⟩
    · obtain rfl := List.mem_singleton.mp hnew
      obtain ⟨p, hp, hindex⟩ := hstep.parts hsplit k hk
      exact ⟨p, List.mem_append_right _ hp, hstep.pieces p hp, hindex⟩

/-! ### Both ends -/

/-- What holds of a receiver, its peer and the packets on their way between them. -/
structure NoLoss (l peer : ReliabilityLayer) (sent queued : List InternalPacket)
    (datagrams : List (List UInt8)) (mtuSize channel : ℕ) : Prop where
  numbered : Queued peer sent queued mtuSize
  received : Received l sent queued mtuSize channel
  replied : ∀ d ∈ datagrams, ∀ time n, .acknowledgement n ∈ parseDatagram d time →
    Took l queued channel n
  kept : ∀ p ∈ onChannel channel queued, peer.Outgoing p.wire ∨ Arrived l channel p

variable {datagrams : List (List UInt8)} {peer' : ReliabilityLayer}

/-- At the start nothing is lost. -/
theorem NoLoss.initial (ordered sequenced orderedRead sequencedRead ordered' sequenced' orderedRead'
    sequencedRead' : ℕ → UInt32) :
    NoLoss (initializeVariables ordered sequenced orderedRead sequencedRead)
      (initializeVariables ordered' sequenced' orderedRead' sequencedRead') [] [] [] mtuSize
      channel :=
  ⟨⟨rfl, nofun, nofun, nofun⟩, ⟨⟨nofun, nofun⟩, fun _ hn => absurd rfl hn, nofun⟩, nofun, nofun⟩

/-- The receiver goes on. -/
theorem NoLoss.receiver (h : NoLoss l peer sent queued datagrams mtuSize channel)
    (hreceived : Received l' sent queued mtuSize channel)
    (hkept : ∀ p ∈ onChannel channel queued, Arrived l channel p → Arrived l' channel p)
    {replies : List (List UInt8)}
    (hreplies : ∀ d ∈ replies, ∀ time n, .acknowledgement n ∈ parseDatagram d time →
      Took l' queued channel n) :
    NoLoss l' peer sent queued (datagrams ++ replies) mtuSize channel where
  numbered := h.numbered
  received := hreceived
  replied d hd time n hn := (List.mem_append.mp hd).elim
    (fun hold p hp hpn => hkept p hp (h.replied d hold time n hn p hp hpn))
    fun hnew => hreplies d hnew time n hn
  kept p hp := (h.kept p hp).imp_right (hkept p hp)

/-- The peer goes on. -/
theorem NoLoss.sender (h : NoLoss l peer sent queued datagrams mtuSize channel)
    (hcounters : peer'.counters = peer.counters)
    (hkept : ∀ p ∈ onChannel channel queued, peer.Outgoing p.wire →
      peer'.Outgoing p.wire ∨ Arrived l channel p) :
    NoLoss l peer' sent queued datagrams mtuSize channel where
  numbered :=
    { h.numbered with next := (congrArg Prod.fst hcounters).trans h.numbered.next }
  received := h.received
  replied := h.replied
  kept p hp := (h.kept p hp).elim (hkept p hp) .inr

/-- The peer sends a message: its packets have numbers that were not yet seen. -/
theorem NoLoss.append (h : NoLoss l peer sent queued datagrams mtuSize channel)
    {packets : List InternalPacket} (hstep : SendStep peer peer' m packets mtuSize)
    (hcount : m.IsSplit mtuSize → AssertSplitCount m mtuSize)
    (hlength : (queued ++ packets).length < receivedPacketLogLength)
    (hparts : ArePartsOf l.splitPacketList sent mtuSize)
    (hbelow : ∀ m' ∈ sent, m'.IsSplit mtuSize → m'.splitPacketId < peer.splitPacketId.toNat)
    (hacks : ∀ a ∈ l.acknowledgementQueue, ∃ p ∈ queued, p.packetNumber = a.1)
    (hreplies : ∀ d ∈ datagrams, ∀ time n, .acknowledgement n ∈ parseDatagram d time →
      ∃ p ∈ queued, p.packetNumber = n) :
    NoLoss l peer' (sent ++ [m]) (queued ++ packets) datagrams mtuSize channel := by
  have hqueued := h.numbered.append hstep hcount hlength
  have htook : ∀ n, (∃ p ∈ queued, p.packetNumber = n) → Took l queued channel n →
      Took l (queued ++ packets) channel n := by
    rintro n ⟨q, hq, rfl⟩ h p hp hn
    obtain ⟨hin, hordered, hon⟩ := mem_onChannel.mp hp
    obtain rfl := hqueued.differ p hin q (List.mem_append_left _ hq) hn
    exact h p (mem_onChannel.mpr ⟨hq, hordered, hon⟩) rfl
  refine ⟨hqueued, ⟨⟨h.received.settled.closed, fun m' hm' hsplit hordered => ?_⟩, fun n hn => ?_,
    fun a ha => htook a.1 (hacks a ha) (h.received.acknowledged a ha)⟩,
    fun d hd time n hn => htook n (hreplies d hd time n hn) (h.replied d hd time n hn),
    fun p hp => ?_⟩
  · obtain hold | hlast := List.mem_append.mp hm'
    · exact h.received.settled.missing m' hold hsplit hordered
    · obtain rfl := List.mem_singleton.mp hlast
      refine ⟨0, splitCount_pos (hcount hsplit), fun q hq hid => ?_⟩
      obtain ⟨m₁, hm₁, hsplit₁, hpiece⟩ := hparts q hq
      have hlt := hbelow m₁ hm₁ hsplit₁
      have hsame := (hpiece.splitPacketId hsplit₁).symm.trans (hid.trans hstep.splitPacketId)
      omega
  · obtain ⟨⟨p, hp, hpn⟩, hlogged⟩ := h.received.logged n hn
    exact ⟨⟨p, List.mem_append_left _ hp, hpn⟩, htook n ⟨p, hp, hpn⟩ hlogged⟩
  · obtain ⟨hin, hordered, hon⟩ := mem_onChannel.mp hp
    obtain hold | hlast := List.mem_append.mp hin
    · exact (h.kept p (mem_onChannel.mpr ⟨hold, hordered, hon⟩)).imp_left fun hw =>
        (hstep.outgoing _).mpr (.inl hw)
    · exact .inl ((hstep.outgoing _).mpr (.inr ⟨p, hlast, rfl⟩))

/-- Sending a message loses nothing. -/
theorem NoLoss.send (h : NoLoss l peer sent queued datagrams mtuSize channel) (data : List UInt8)
    (priority : PacketPriority) (reliability : PacketReliability) (orderingChannel : ℕ)
    (hcount : ∀ m ∈ (peer.submitted data priority reliability orderingChannel mtuSize time).1,
      m.IsSplit mtuSize → AssertSplitCount m mtuSize)
    (hlength : (queued ++ (peer.submitted data priority reliability orderingChannel mtuSize
      time).2).length < receivedPacketLogLength)
    (hparts : ArePartsOf l.splitPacketList sent mtuSize)
    (hbelow : ∀ m' ∈ sent, m'.IsSplit mtuSize → m'.splitPacketId < peer.splitPacketId.toNat)
    (hacks : ∀ a ∈ l.acknowledgementQueue, ∃ p ∈ queued, p.packetNumber = a.1)
    (hreplies : ∀ d ∈ datagrams, ∀ time n, .acknowledgement n ∈ parseDatagram d time →
      ∃ p ∈ queued, p.packetNumber = n) :
    NoLoss l (peer.send data priority reliability orderingChannel mtuSize time)
      (sent ++ (peer.submitted data priority reliability orderingChannel mtuSize time).1)
      (queued ++ (peer.submitted data priority reliability orderingChannel mtuSize time).2)
      datagrams mtuSize channel := by
  by_cases hdata : data = []
  · subst hdata
    obtain ⟨hsend, hsubmitted⟩ := peer.send_nil priority reliability orderingChannel mtuSize time
    rwa [hsend, hsubmitted, List.append_nil, List.append_nil]
  · obtain ⟨m, packets, hsubmitted, -, hstep⟩ :=
      peer.send_step hdata priority reliability orderingChannel mtuSize time
    rw [hsubmitted] at hcount hlength ⊢
    exact h.append hstep (hcount m (List.mem_singleton_self m)) hlength hparts hbelow hacks hreplies

/-- The user of the receiver takes a packet. -/
theorem NoLoss.receive (h : NoLoss l peer sent queued datagrams mtuSize channel) :
    NoLoss l.receive.1 peer sent queued datagrams mtuSize channel := by
  unfold ReliabilityLayer.receive
  split
  · exact h
  · have hreceived := h.received
    exact ⟨h.numbered, ⟨⟨hreceived.settled.closed, hreceived.settled.missing⟩, hreceived.logged,
      hreceived.acknowledged⟩, h.replied, h.kept⟩

/-- The receiver sends a message or a datagram of its own. -/
theorem NoLoss.of_incoming (h : NoLoss l peer sent queued datagrams mtuSize channel)
    (hincoming : l'.incoming = l.incoming)
    (hacks : ∀ a ∈ l'.acknowledgementQueue, a ∈ l.acknowledgementQueue)
    {replies : List (List UInt8)}
    (hreplies : ∀ d ∈ replies, ∀ time n, .acknowledgement n ∈ parseDatagram d time →
      ∃ due, (n, due) ∈ l.acknowledgementQueue) :
    NoLoss l' peer sent queued (datagrams ++ replies) mtuSize channel := by
  have hsame := ordering_of_incoming hincoming
  simp only [incoming, Prod.mk.injEq] at hincoming
  refine h.receiver (h.received.of_ordering hsame hincoming.2.2.2.2.2 hacks)
    (fun p _ harrived => harrived.of_ordering hsame) fun d hd time n hn p hp hpn => ?_
  obtain ⟨due, hdue⟩ := hreplies d hd time n hn
  exact (h.received.acknowledged (n, due) hdue p hp hpn).of_ordering hsame

/-- Once nothing waits to be sent, all messages were put out. -/
theorem NoLoss.all_out (h : NoLoss l peer sent queued datagrams mtuSize channel)
    (hsender : Sender peer sent queued mtuSize) (hchannel : channel < numberOfOrderedStreams / 4)
    (hidle : ∀ p ∈ onChannel channel queued, ¬ peer.Outgoing p.wire)
    (hfew : (onChannel channel sent).length ≤ 256) :
    (onChannel channel sent).length ≤ (l.waitingForOrderedPacketReadIndex channel).toNat := by
  by_contra hmore
  obtain ⟨m, hat⟩ : ∃ m,
      (onChannel channel sent)[(l.waitingForOrderedPacketReadIndex channel).toNat]? = some m :=
    ⟨_, List.getElem?_eq_getElem (by omega)⟩
  obtain ⟨hm, hordered, hon⟩ := mem_onChannel.mp (List.mem_of_getElem? hat)
  have hindex := hsender.indices channel hchannel _ m hat
  rw [Nat.mod_eq_of_lt (by omega)] at hindex
  -- every piece of the message that is waited for lies among the parts
  have hpart : ∀ p ∈ queued, p.IsPieceOf m mtuSize → ∃ q ∈ l.splitPacketList,
      0 < p.splitPacketCount ∧ q.splitPacketId = p.splitPacketId ∧
        q.splitPacketIndex = p.splitPacketIndex := by
    intro p hp hpiece
    have hin : p ∈ onChannel channel queued := mem_onChannel.mpr
      ⟨hp, hpiece.reliability.trans hordered, hpiece.orderingChannel.trans hon⟩
    have hsame := congrArg UInt8.toNat hpiece.orderingIndex
    obtain hpassed | ⟨q, hq, hwaits⟩ | hpart := (h.kept p hin).resolve_left (hidle p hin)
    · omega
    · refine absurd ?_ (h.received.settled.closed q hq)
      refine decide_eq_true (UInt32.toNat_inj.mp ?_)
      rw [UInt8.toNat_toUInt32, hwaits]
      omega
    · exact hpart
  by_cases hsplit : m.IsSplit mtuSize
  · obtain ⟨k, hk, hnone⟩ := h.received.settled.missing m hm hsplit hordered
    obtain ⟨p, hp, hpiece, rfl⟩ := h.numbered.parts m hm hsplit k hk
    obtain ⟨q, hq, -, hid, hsame⟩ := hpart p hp hpiece
    exact hnone q hq (hid.trans (hpiece.splitPacketId hsplit)) hsame
  · obtain ⟨p, hp, hpiece⟩ := h.numbered.whole m hm hsplit
    obtain ⟨q, -, hcount, -⟩ := hpart p hp hpiece
    have hzero := (hpiece.whole hsplit).1
    omega

end ReliabilityLayer

namespace Link

open ReliabilityLayer InternalPacket

variable {mtu : End → MtuSize} {s t : Link} {e : End} {channel : ℕ}

/-- An end has sent only reliable messages, and no id or packet number twice. -/
structure Few (s : Link) (e : End) : Prop where
  sent : (s.sent e).length < 2 ^ 32
  queued : (s.queued e).length < receivedPacketLogLength
  reliable : ∀ m ∈ s.sent e, m.reliability.isReliable

/-- Nothing sent to an end is lost. -/
def AllKept (mtu : End → MtuSize) (s : Link) (e : End) (channel : ℕ) : Prop :=
  NoLoss (s.layer e) (s.layer e.other) (s.sent e.other) (s.queued e.other) (s.datagrams e)
    (mtu e.other).size channel

/-- There are two ends. -/
theorem eq_or_eq_other (e e' : End) : e' = e ∨ e' = e.other := by
  cases e <;> cases e' <;> simp [End.other]

/-- The receiver acts. -/
theorem receiver_acts {l : ReliabilityLayer} {sent queued : List InternalPacket}
    {datagrams : List (List UInt8)} (hlayer : t.layer = Function.update s.layer e l)
    (hsent : t.sent = Function.update s.sent e (s.sent e ++ sent))
    (hqueued : t.queued = Function.update s.queued e (s.queued e ++ queued))
    (hdatagrams : t.datagrams = Function.update s.datagrams e (s.datagrams e ++ datagrams))
    (hfew : t.Few e.other)
    (h : s.Few e.other → NoLoss l (s.layer e.other) (s.sent e.other) (s.queued e.other)
      (s.datagrams e ++ datagrams) (mtu e.other).size channel) : t.AllKept mtu e channel := by
  have hne := e.other_ne
  have hsent' : t.sent e.other = s.sent e.other := by rw [hsent, Function.update_of_ne hne]
  have hqueued' : t.queued e.other = s.queued e.other := by rw [hqueued, Function.update_of_ne hne]
  have hkept := h ⟨hsent' ▸ hfew.sent, hqueued' ▸ hfew.queued, hsent' ▸ hfew.reliable⟩
  unfold AllKept
  rw [hlayer, hsent', hqueued', hdatagrams]
  simpa only [Function.update_self, Function.update_of_ne hne] using hkept

/-- The other end acts. -/
theorem peer_acts {l : ReliabilityLayer} {sent queued : List InternalPacket}
    {datagrams : List (List UInt8)} (hlayer : t.layer = Function.update s.layer e.other l)
    (hsent : t.sent = Function.update s.sent e.other (s.sent e.other ++ sent))
    (hqueued : t.queued = Function.update s.queued e.other (s.queued e.other ++ queued))
    (hdatagrams : t.datagrams = Function.update s.datagrams e.other datagrams)
    (hfew : t.Few e.other)
    (h : s.Few e.other → (s.queued e.other ++ queued).length < receivedPacketLogLength →
      NoLoss (s.layer e) l (s.sent e.other ++ sent) (s.queued e.other ++ queued) (s.datagrams e)
        (mtu e.other).size channel) : t.AllKept mtu e channel := by
  have hne := e.other_ne.symm
  obtain ⟨hlength, hnumbers, hreliable⟩ := hfew
  rw [hsent, Function.update_self] at hlength hreliable
  rw [hqueued, Function.update_self] at hnumbers
  have hkept := h ⟨by rw [List.length_append] at hlength; omega,
    by rw [List.length_append] at hnumbers; omega,
    fun m hm => hreliable m (List.mem_append_left _ hm)⟩ hnumbers
  unfold AllKept
  rw [hlayer, hsent, hqueued, hdatagrams]
  simpa only [Function.update_self, Function.update_of_ne hne] using hkept

/-- Each is the other's other. -/
theorem other_other (e : End) : e.other.other = e := by
  cases e <;> rfl

/-- The receiver gets a datagram of its peer. -/
theorem AllKept.delivered (h : s.AllKept mtu e channel)
    (hreach : (machine mtu).ReachableVia (Asserts mtu) s) (hfew : s.Few e.other)
    (hchannel : channel < numberOfOrderedStreams / 4) {d : List UInt8} {time : UInt32}
    (hd : d ∈ s.datagrams e.other)
    (hassert : AlongEntries (AssertNewPart time) time (s.layer e) (parseDatagram d time)) :
    NoLoss ((s.layer e).handleSocketReceive d time) (s.layer e.other) (s.sent e.other)
      (s.queued e.other) (s.datagrams e ++ []) (mtu e.other).size channel := by
  have hgenuine := genuine_of_reachable hreach.reachable
  have hsender := hgenuine.sender e.other
  have hin : Incoming (s.layer e.other) (s.sent e.other) (s.queued e.other) (mtu e.other).size :=
    ⟨hsender, (hsender.ids hfew.sent).differ, h.numbered.differ,
      fun p hp => (h.numbered.lt hp).trans hfew.queued, hfew.reliable, (mtu e.other).min,
      (mtu e.other).max⟩
  obtain ⟨hcount, hfaithful⟩ := faithful_of_reachable hreach e hfew.sent
  obtain ⟨hreceived, hkept⟩ := h.received.handleSocketReceive hin
    (accepted_of_reachable hreach.reachable e hfew.sent) hfaithful hcount
    (hgenuine.datagrams e.other d hd time) hassert hchannel
  exact h.receiver hreceived hkept nofun

/-- What one step keeps. -/
theorem AllKept.step (hreach : (machine mtu).ReachableVia (Asserts mtu) s)
    (h : s.Few e.other → s.AllKept mtu e channel) (hchannel : channel < numberOfOrderedStreams / 4)
    {a : Action} (hassert : Asserts mtu s a) (hstep : step mtu s a = some t)
    (hfew : t.Few e.other) : t.AllKept mtu e channel := by
  have hgenuine := genuine_of_reachable hreach.reachable
  have hsender := hgenuine.sender e.other
  cases a with
  | send e' data priority reliability orderingChannel time =>
    obtain rfl := Option.some.inj hstep
    obtain rfl | rfl := eq_or_eq_other e e'
    · refine receiver_acts rfl rfl rfl (update_append_nil s.datagrams e').symm hfew fun hfew => ?_
      have hsame := (s.layer e').send_untouched data priority reliability orderingChannel
        (mtu e').size time
      exact (h hfew).of_incoming hsame.1 (fun a ha => hsame.2 ▸ ha) nofun
    · refine peer_acts rfl rfl rfl (Function.update_eq_self e.other s.datagrams).symm hfew
        fun hfew hlength => ?_
      refine (h hfew).send data priority reliability orderingChannel hassert hlength
        (accepted_of_reachable hreach.reachable e hfew.sent).parts (hsender.ids hfew.sent).below
        (hgenuine.acknowledgements e) fun d hd time n hn => ?_
      exact hgenuine.datagrams e d hd time _ hn
  | update e' buffer time =>
    obtain rfl := Option.some.inj hstep
    obtain ⟨entries, hframe, -, hparse⟩ := hgenuine.frame e' buffer time
    obtain rfl | rfl := eq_or_eq_other e e'
    · refine receiver_acts rfl (update_append_nil s.sent e').symm
        (update_append_nil s.queued e').symm rfl hfew fun hfew => ?_
      refine (h hfew).of_incoming hframe.incoming hframe.acknowledgements fun d hd time n hn => ?_
      rw [(hparse d (Option.mem_toList.mp hd)).2] at hn
      obtain ⟨entry, hentry, heq⟩ := List.mem_map.mp hn
      cases entry with
      | acknowledgement n' =>
        obtain rfl := FrameEntry.acknowledgement.inj heq
        exact hframe.acknowledged n' hentry
      | packet p => cases heq
    · refine peer_acts rfl (update_append_nil s.sent e.other).symm
        (update_append_nil s.queued e.other).symm rfl hfew fun hfew _ => ?_
      rw [List.append_nil, List.append_nil]
      refine (h hfew).sender hframe.counters fun p hp hw => .inl (hframe.kept _ ?_ hw)
      have hordered : p.wire.reliability = .reliableOrdered := (mem_onChannel.mp hp).2.1
      rw [hordered]
      rfl
  | deliver e' index time =>
    obtain ⟨d, hd, hsome⟩ := Option.bind_eq_some_iff.mp hstep
    obtain rfl := Option.some.inj hsome
    have hmem := List.mem_of_getElem? hd
    obtain rfl | rfl := eq_or_eq_other e e'
    · refine receiver_acts rfl (update_append_nil s.sent e').symm
        (update_append_nil s.queued e').symm (update_append_nil s.datagrams e').symm hfew
        fun hfew => ?_
      exact (h hfew).delivered hreach hfew hchannel hmem (hassert d hd)
    · refine peer_acts rfl (update_append_nil s.sent e.other).symm
        (update_append_nil s.queued e.other).symm (Function.update_eq_self e.other s.datagrams).symm
        hfew fun hfew _ => ?_
      rw [List.append_nil, List.append_nil]
      rw [other_other] at hmem
      refine (h hfew).sender ((s.layer e.other).handleSocketReceive_step d time).1 fun p hp hw => ?_
      have hordered : p.wire.reliability = .reliableOrdered := (mem_onChannel.mp hp).2.1
      exact (outgoing_handleSocketReceive_kept hordered hw).imp_right fun hacked =>
        (h hfew).replied d hmem time _ hacked p hp rfl
  | receive e' =>
    obtain rfl := Option.some.inj hstep
    obtain rfl | rfl := eq_or_eq_other e e'
    · refine receiver_acts rfl (update_append_nil s.sent e').symm
        (update_append_nil s.queued e').symm (update_append_nil s.datagrams e').symm hfew
        fun hfew => ?_
      rw [List.append_nil]
      exact (h hfew).receive
    · refine peer_acts rfl (update_append_nil s.sent e.other).symm
        (update_append_nil s.queued e.other).symm (Function.update_eq_self e.other s.datagrams).symm
        hfew fun hfew _ => ?_
      rw [List.append_nil, List.append_nil]
      obtain ⟨-, hcounters, houtgoing⟩ := outgoing_same (s.layer e.other).outgoing_receive.symm
      exact (h hfew).sender hcounters.symm fun p _ hw => .inl (houtgoing _ hw)

/-- In every run with few packets both directions of a channel lose nothing. -/
theorem allKept_of_reachable (hs : (machine mtu).ReachableVia (Asserts mtu) s)
    (hchannel : channel < numberOfOrderedStreams / 4) (hfew : s.Few e.other) :
    s.AllKept mtu e channel := by
  refine Machine.ReachableVia.invariant (I := fun s => s.Few e.other → s.AllKept mtu e channel)
    ?_ ?_ hs hfew
  · rintro s ⟨ordered, sequenced, orderedRead, sequencedRead, rfl⟩ -
    exact NoLoss.initial _ _ _ _ _ _ _ _
  · intro s a t hreach hI hassert hstep hfew
    exact AllKept.step hreach hI hchannel hassert hstep hfew

/-- When an end has nothing left to send, the other one was handed every ordered message of a
channel, unless there were more than 256. -/
theorem handed_all_iff (hs : (machine mtu).ReachableVia (Asserts mtu) s) (e : End)
    (hsent : (s.sent e.other).length < 2 ^ 32)
    (hqueued : (s.queued e.other).length < receivedPacketLogLength)
    (hreliable : ∀ m ∈ s.sent e.other, m.reliability.isReliable) {channel : ℕ}
    (hchannel : channel < numberOfOrderedStreams / 4)
    (hidle : ∀ p ∈ onChannel channel (s.queued e.other), ¬ (s.layer e.other).Outgoing p.wire)
    (hempty : (s.layer e).outputQueue = []) :
    (onChannel channel (s.handed e)).map data = (onChannel channel (s.sent e.other)).map data ↔
      (onChannel channel (s.sent e.other)).length ≤ 256 := by
  have haccepted := accepted_of_reachable hs.reachable e hsent
  have hcounted := haccepted.counted channel hchannel
  have hlimit := haccepted.limit channel hchannel
  rw [hempty, List.append_nil] at hcounted hlimit
  constructor
  · intro heq
    have hlength := congrArg List.length heq
    rw [List.length_map, List.length_map] at hlength
    exact hlength ▸ hlimit
  · intro hfew
    have hprefix := (faithful_of_reachable hs e hsent).2.delivered channel hchannel hfew
    rw [hempty, List.append_nil] at hprefix
    have hout := (allKept_of_reachable hs hchannel ⟨hsent, hqueued, hreliable⟩).all_out
      ((genuine_of_reachable hs.reachable).sender e.other) hchannel hidle hfew
    refine hprefix.eq_of_length_le ?_
    rw [List.length_map, List.length_map]
    omega

/-- With empty queues nothing waits to be sent. -/
theorem not_outgoing {l : ReliabilityLayer} (hsend : ∀ priority, l.sendQueue priority = [])
    (hresend : l.resendQueue = []) (w : InternalPacket) : ¬ l.Outgoing w := by
  rintro (⟨priority, p, hp, -⟩ | ⟨p, hp, -⟩)
  · exact absurd (hsend priority ▸ hp) List.not_mem_nil
  · exact absurd (hresend ▸ hp) List.not_mem_nil

/-- The other end acknowledges both messages. -/
def acknowledged : List Action :=
  repeated ++ [.update .server (BitStream.ofBytes []) 400, .deliver .client 0 401]

/-- A run in which the message arrives and is acknowledged. -/
theorem handed_all_iff_acknowledged : ∃ s,
    (machine fun _ => defaultMtuSize).run blank acknowledged = some s ∧
    (onChannel 3 (s.handed .server)).map data = (onChannel 3 (s.sent .client)).map data := by
  have hrun : (((machine fun _ => defaultMtuSize).run blank acknowledged).map fun s =>
      ((s.sent .client).length, (s.queued .client).length, (onChannel 3 (s.sent .client)).length,
        (s.sent .client).all fun m => m.reliability.isReliable)) = some (2, 2, 2, true) := by
    decide +kernel
  have hidle : (((machine fun _ => defaultMtuSize).run blank acknowledged).map fun s =>
      ([PacketPriority.system, .high, .medium, .low].all fun priority =>
          ((s.layer .client).sendQueue priority).isEmpty) &&
        (s.layer .client).resendQueue.isEmpty && (s.layer .server).outputQueue.isEmpty) =
          some true := by
    decide +kernel
  have hasserts : (machine fun _ => defaultMtuSize).Along (Asserts fun _ => defaultMtuSize) blank
      acknowledged := by decide +kernel
  refine (Option.map_eq_some_iff.mp hrun).imp fun s hs => ⟨hs.1, ?_⟩
  rw [hs.1, Option.map_some, Option.some_inj] at hidle
  simp only [Bool.and_eq_true, List.all_cons, List.all_nil, List.isEmpty_iff, and_true] at hidle
  obtain ⟨⟨⟨hsystem, hhigh, hmedium, hlow⟩, hresend⟩, hempty⟩ := hidle
  have hsend : ∀ priority, (s.layer .client).sendQueue priority = [] := by
    intro priority
    cases priority <;> assumption
  have hsent : (s.sent .client).length = 2 := congrArg Prod.fst hs.2
  have hqueued : (s.queued .client).length = 2 := congrArg (fun r => r.2.1) hs.2
  have hfew : (onChannel 3 (s.sent .client)).length = 2 := congrArg (fun r => r.2.2.1) hs.2
  have hreliable := List.all_eq_true.mp (congrArg (fun r => r.2.2.2) hs.2)
  exact (handed_all_iff (.run (.initial (initial_blank _)) hasserts hs.1) .server
    (show (s.sent .client).length < 2 ^ 32 by omega)
    (show (s.queued .client).length < 65530 by omega) hreliable (by decide)
    (fun p _ => not_outgoing hsend hresend p.wire) hempty).mpr
      (show (onChannel 3 (s.sent .client)).length ≤ 256 by omega)

end Link

end Multicrew.Transport
