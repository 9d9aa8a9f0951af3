import Multicrew.Transport.Link

/-!
# What an end sends

Invariants of the sending side: messages are numbered in their order on each ordering channel, split
messages have ids of their own, and whatever waits to be sent or is in a datagram was queued for a
message.
-/

namespace Multicrew.Transport

open Multicrew.Library

/-- The ordered messages of a channel. -/
def onChannel (channel : ℕ) (packets : List InternalPacket) : List InternalPacket :=
  packets.filter fun p => p.reliability = .reliableOrdered && p.orderingChannel = channel

/-- The messages of a channel come one after the other. -/
theorem onChannel_append (channel : ℕ) (first later : List InternalPacket) :
    onChannel channel (first ++ later) = onChannel channel first ++ onChannel channel later :=
  List.filter_append ..

/-- They are the ordered ones of that channel. -/
theorem mem_onChannel {channel : ℕ} {packets : List InternalPacket} {p : InternalPacket} :
    p ∈ onChannel channel packets ↔
      p ∈ packets ∧ p.reliability = .reliableOrdered ∧ p.orderingChannel = channel := by
  simp [onChannel]

/-- The wire carries whether a packet is well formed. -/
theorem InternalPacket.Wellformed.of_wire {p q : InternalPacket} (h : p.Wellformed)
    (hwire : q.wire = p.wire) : q.Wellformed := by
  obtain ⟨_, _, _, _, _, _, _, _, _, _, _⟩ := p
  obtain ⟨_, _, _, _, _, _, _, _, _, _, _⟩ := q
  simp only [wire, received, mk.injEq] at hwire
  obtain ⟨rfl, -, rfl, rfl, rfl, rfl, rfl, rfl, -, -, rfl⟩ := hwire
  exact ⟨h.packetNumber, h.ordering, h.unordered, h.splitId, h.splitIndex, h.splitCount, h.unsplit,
    h.nonempty, h.length_lt⟩

/-- An entry that comes from the packets this end queued, or acknowledges one of the other end. -/
def FrameEntry.Genuine (queued others : List InternalPacket) : FrameEntry → Prop
  | .acknowledgement n => ∃ p ∈ others, p.packetNumber = n
  | .packet p => ∃ q ∈ queued, p.wire = q.wire

/-- The ends are two. -/
theorem End.other_ne (e : End) : e.other ≠ e := by
  cases e <;> decide

namespace ReliabilityLayer

open InternalPacket

variable {l l' : ReliabilityLayer} {sent queued : List InternalPacket} {mtuSize : ℕ}

/-- The ids of split messages, as long as they do not wrap around. -/
structure IdsAscend (l : ReliabilityLayer) (sent : List InternalPacket) (mtuSize : ℕ) : Prop where
  next : l.splitPacketId.toNat ≤ sent.length
  below : ∀ m ∈ sent, m.IsSplit mtuSize → m.splitPacketId < l.splitPacketId.toNat
  differ : IdsDiffer sent mtuSize

/-- What holds of a layer, the messages given to it and the packets it queued. -/
structure Sender (l : ReliabilityLayer) (sent queued : List InternalPacket) (mtuSize : ℕ) : Prop where
  number_lt : l.packetNumber < receivedPacketLogLength
  ids : sent.length < 2 ^ 32 → IdsAscend l sent mtuSize
  counters : ∀ channel < numberOfOrderedStreams / 4,
    l.waitingForOrderedPacketWriteIndex channel = .ofNat (onChannel channel sent).length
  indices : ∀ channel < numberOfOrderedStreams / 4, ∀ i m, (onChannel channel sent)[i]? = some m →
    m.orderingIndex.toNat = i % 256
  channels : ∀ m ∈ sent, m.reliability = .reliableOrdered →
    m.orderingChannel < numberOfOrderedStreams
  wellformed : ∀ p ∈ queued, p.Wellformed
  pieces : ∀ p ∈ queued, ∃ m ∈ sent, p.IsPieceOf m mtuSize
  outgoing : ∀ w, l.Outgoing w → ∃ p ∈ queued, p.wire = w

/-- A layer with the same counters and nothing more to send. -/
theorem Sender.of_counters (h : Sender l sent queued mtuSize) (hcounters : l'.counters = l.counters)
    (houtgoing : ∀ w, l'.Outgoing w → l.Outgoing w) : Sender l' sent queued mtuSize := by
  simp only [ReliabilityLayer.counters, Prod.mk.injEq] at hcounters
  obtain ⟨hnumber, hid, hordered, -⟩ := hcounters
  exact
    { h with
      number_lt := hnumber ▸ h.number_lt
      ids := fun hlength =>
        have hids := h.ids hlength
        ⟨hid ▸ hids.next, hid ▸ hids.below, hids.differ⟩
      counters := hordered ▸ h.counters
      outgoing := fun w hw => h.outgoing w (houtgoing w hw) }

/-- A new split message gets an id that none has. -/
theorem IdsAscend.append {m : InternalPacket} (h : IdsAscend l sent mtuSize)
    (hlength : (sent ++ [m]).length < 2 ^ 32) (hm : m.splitPacketId = l.splitPacketId.toNat)
    (hid : l'.splitPacketId =
      if maxDataSize m mtuSize < m.data.length then l.splitPacketId + 1 else l.splitPacketId) :
    IdsAscend l' (sent ++ [m]) mtuSize := by
  have hnext := h.next
  rw [List.length_append, List.length_singleton] at hlength
  have hsucc : (l.splitPacketId + 1).toNat = l.splitPacketId.toNat + 1 := by
    rw [UInt32.toNat_add]
    exact Nat.mod_eq_of_lt (by simp; omega)
  have hbelow : ∀ m' ∈ sent, m'.IsSplit mtuSize → m'.splitPacketId ≠ m.splitPacketId :=
    fun m' hm' hsplit => hm ▸ Nat.ne_of_lt (h.below m' hm' hsplit)
  refine ⟨?_, ?_, ?_⟩
  · rw [hid, List.length_append, List.length_singleton]
    split <;> omega
  · intro m' hm' hsplit
    obtain hold | hnew := List.mem_append.mp hm'
    · have hlt := h.below m' hold hsplit
      rw [hid]
      split <;> omega
    · obtain rfl := List.mem_singleton.mp hnew
      rw [hid, if_pos (show maxDataSize m' mtuSize < m'.data.length from hsplit), hsucc, hm]
      exact Nat.lt_succ_self _
  · intro m₁ hm₁ m₂ hm₂ hsplit₁ hsplit₂ heq
    obtain hold₁ | hnew₁ := List.mem_append.mp hm₁ <;>
      obtain hold₂ | hnew₂ := List.mem_append.mp hm₂
    · exact h.differ m₁ hold₁ m₂ hold₂ hsplit₁ hsplit₂ heq
    · obtain rfl := List.mem_singleton.mp hnew₂
      exact absurd heq (hbelow m₁ hold₁ hsplit₁)
    · obtain rfl := List.mem_singleton.mp hnew₁
      exact absurd heq.symm (hbelow m₂ hold₂ hsplit₂)
    · exact (List.mem_singleton.mp hnew₁).trans (List.mem_singleton.mp hnew₂).symm

/-- A new message continues the numbers of its channel. -/
theorem indices_append {m : InternalPacket} {channel : ℕ}
    (hindices : ∀ i m, (onChannel channel sent)[i]? = some m → m.orderingIndex.toNat = i % 256)
    (hm : m ∈ onChannel channel [m] →
      m.orderingIndex = (UInt32.ofNat (onChannel channel sent).length).toUInt8)
    {i : ℕ} {m' : InternalPacket} (hm' : (onChannel channel (sent ++ [m]))[i]? = some m') :
    m'.orderingIndex.toNat = i % 256 := by
  rw [onChannel_append] at hm'
  by_cases hlt : i < (onChannel channel sent).length
  · rw [List.getElem?_append_left hlt] at hm'
    exact hindices i m' hm'
  · rw [List.getElem?_append_right (Nat.le_of_not_lt hlt)] at hm'
    have hin := List.mem_of_getElem? hm'
    obtain rfl := List.mem_singleton.mp (mem_onChannel.mp hin).1
    have hone : (onChannel channel [m']).length ≤ 1 := List.length_filter_le _ [m']
    obtain ⟨hbound, -⟩ := List.getElem?_eq_some_iff.mp hm'
    have hi : i = (onChannel channel sent).length := by omega
    rw [hm hin, hi, UInt32.toNat_toUInt8, UInt32.toNat_ofNat']
    exact Nat.mod_mod_of_dvd _ (by decide)

/-- What `Send` does for a message that is not empty. -/
structure SendStep (l l' : ReliabilityLayer) (m : InternalPacket) (packets : List InternalPacket)
    (mtuSize : ℕ) : Prop where
  incoming : l'.incoming = l.incoming
  acknowledgementQueue : l'.acknowledgementQueue = l.acknowledgementQueue
  resendQueue : l'.resendQueue = l.resendQueue
  sendQueue : ∃ priority, l'.sendQueue =
    Function.update l.sendQueue priority (l.sendQueue priority ++ packets)
  channel : m.reliability = .reliableOrdered → m.orderingChannel < numberOfOrderedStreams
  index : m.reliability = .reliableOrdered →
    m.orderingIndex = (l.waitingForOrderedPacketWriteIndex m.orderingChannel).toUInt8
  counter : ∀ channel, l'.waitingForOrderedPacketWriteIndex channel =
    if m.reliability = .reliableOrdered ∧ m.orderingChannel = channel then
      l.waitingForOrderedPacketWriteIndex channel + 1
    else l.waitingForOrderedPacketWriteIndex channel
  splitPacketId : m.splitPacketId = l.splitPacketId.toNat
  nextId : l'.splitPacketId =
    if maxDataSize m mtuSize < m.data.length then l.splitPacketId + 1 else l.splitPacketId
  packetNumber : ∀ j p, packets[j]? = some p → p.packetNumber = nextPacketNumber^[j] l.packetNumber
  nextNumber : l'.packetNumber =
    nextPacketNumber^[packets.length - 1] (nextPacketNumber l.packetNumber)
  pieces : ∀ p ∈ packets, p.IsPieceOf m mtuSize
  whole : ¬ m.IsSplit mtuSize → packets ≠ []
  parts : m.IsSplit mtuSize → ∀ k < splitCount m mtuSize, ∃ p ∈ packets, p.splitPacketIndex = k
  wellformed : l.packetNumber < receivedPacketLogLength → 512 ≤ mtuSize →
    mtuSize ≤ maximumMtuSize → ∀ p ∈ packets, p.Wellformed

/-- The numbers of the packets of a message follow one another. -/
theorem packetNumber_of_getElem?_packets {p : InternalPacket} {n : ℕ} (hp : p.packetNumber = n)
    (hl : l.packetNumber = nextPacketNumber n) {j : ℕ} {q : InternalPacket}
    (hq : (l.packets p mtuSize)[j]? = some q) : q.packetNumber = nextPacketNumber^[j] n := by
  unfold packets at hq
  split at hq
  · obtain ⟨k, hk, rfl⟩ := Option.map_eq_some_iff.mp (List.getElem?_map .. ▸ hq)
    obtain ⟨-, rfl⟩ := List.getElem?_eq_some_iff.mp hk
    rw [List.getElem_range]
    cases j with
    | zero => exact hp
    | succ j =>
      rw [Function.iterate_succ_apply, ← hl]
      rfl
  · obtain rfl : j = 0 := by
      obtain ⟨hlt, -⟩ := List.getElem?_eq_some_iff.mp hq
      rwa [List.length_singleton, Nat.lt_one_iff] at hlt
    exact Option.some.inj hq ▸ hp

/-- Sending queues one message, as packets that carry it. -/
theorem send_step (l : ReliabilityLayer) {data : List UInt8} (hdata : data ≠ [])
    (priority : PacketPriority) (reliability : PacketReliability) (orderingChannel mtuSize : ℕ)
    (time : UInt32) :
    ∃ m packets, l.submitted data priority reliability orderingChannel mtuSize time = ([m], packets) ∧
      m.reliability = reliability ∧
      SendStep l (l.send data priority reliability orderingChannel mtuSize time) m packets mtuSize := by
  have hspec := numbered_spec l data priority reliability (sendChannel orderingChannel) time
  cases hnumbered : l.numbered data priority reliability (sendChannel orderingChannel) time with
  | mk l₁ p =>
  rw [hnumbered] at hspec
  dsimp only at hspec
  rw [send_eq l hdata priority reliability orderingChannel mtuSize time hnumbered]
  simp only [submitted, if_neg hdata, hnumbered]
  obtain ⟨sequenced, hlayer⟩ := hspec.layer
  have hid : l₁.splitPacketId = l.splitPacketId := by rw [hlayer]
  have hnumber : l₁.packetNumber = nextPacketNumber l.packetNumber := by rw [hlayer]
  have hchannel : reliability = .reliableOrdered → p.orderingChannel = sendChannel orderingChannel :=
    fun hordered => hspec.ordering (by rw [hordered]; rfl)
  refine ⟨_, _, rfl, hspec.reliability_eq, ?_⟩
  exact
    { incoming := by rw [hlayer]; rfl
      acknowledgementQueue := by rw [hlayer]; rfl
      resendQueue := by rw [hlayer]; rfl
      sendQueue := ⟨priority, by rw [hlayer]; rfl⟩
      channel := fun hordered =>
        hchannel (hspec.reliability_eq ▸ hordered) ▸ sendChannel_lt orderingChannel
      index := fun hordered => by
        have hordered := hspec.reliability_eq ▸ hordered
        dsimp only
        rw [hchannel hordered]
        exact hspec.orderingIndex hordered
      counter := fun channel => by
        simp only [pushSendQueue, hspec.reliability_eq]
        rw [hlayer]
        by_cases hordered : reliability = .reliableOrdered
        · rw [hchannel hordered]
          by_cases heq : channel = sendChannel orderingChannel
          · simp [hordered, heq]
          · simp [hordered, heq, Ne.symm heq]
        · simp [hordered]
      splitPacketId := congrArg UInt32.toNat hid
      nextId := by
        simp only [pushSendQueue, hid]
        rfl
      packetNumber := fun j q hq =>
        packetNumber_of_getElem?_packets hspec.packetNumber hnumber hq
      nextNumber := by
        simp only [pushSendQueue, hnumber]
      pieces := fun q hq => isPieceOf_of_mem_packets hspec.unsplit.2.2 hq
      whole := fun hwhole => by
        rw [packets, if_neg (show ¬ maxDataSize p mtuSize < p.data.length from hwhole)]
        exact List.cons_ne_nil _ _
      parts := fun hsplit k hk => by
        rw [packets, if_pos (show maxDataSize p mtuSize < p.data.length from hsplit)]
        exact ⟨_, List.mem_map.mpr ⟨k, List.mem_range.mpr hk, rfl⟩, rfl⟩
      wellformed := fun hlt hmin hmax q hq =>
        hspec.wellformed hdata (sendChannel_lt orderingChannel) hmin hmax hlt hq }

/-- An empty message is not sent. -/
theorem send_nil (l : ReliabilityLayer) (priority : PacketPriority)
    (reliability : PacketReliability) (orderingChannel mtuSize : ℕ) (time : UInt32) :
    l.send [] priority reliability orderingChannel mtuSize time = l ∧
      l.submitted [] priority reliability orderingChannel mtuSize time = ([], []) := by
  simp [ReliabilityLayer.send, submitted]

/-- Sending a message touches neither what was received nor what is acknowledged. -/
theorem send_untouched (l : ReliabilityLayer) (data : List UInt8) (priority : PacketPriority)
    (reliability : PacketReliability) (orderingChannel mtuSize : ℕ) (time : UInt32) :
    (l.send data priority reliability orderingChannel mtuSize time).incoming = l.incoming ∧
      (l.send data priority reliability orderingChannel mtuSize time).acknowledgementQueue =
        l.acknowledgementQueue := by
  by_cases hdata : data = []
  · subst hdata
    rw [(l.send_nil priority reliability orderingChannel mtuSize time).1]
    exact ⟨rfl, rfl⟩
  · obtain ⟨m, packets, -, -, hstep⟩ :=
      l.send_step hdata priority reliability orderingChannel mtuSize time
    exact ⟨hstep.incoming, hstep.acknowledgementQueue⟩

/-- What waits to be sent after `Send`. -/
theorem SendStep.outgoing {m : InternalPacket} {packets : List InternalPacket}
    (h : SendStep l l' m packets mtuSize) (w : InternalPacket) :
    l'.Outgoing w ↔ l.Outgoing w ∨ ∃ p ∈ packets, p.wire = w := by
  obtain ⟨priority, hqueue⟩ := h.sendQueue
  have hmem : ∀ priority' p, p ∈ l'.sendQueue priority' ↔
      p ∈ l.sendQueue priority' ∨ priority' = priority ∧ p ∈ packets := by
    intro priority' p
    rw [hqueue]
    by_cases heq : priority' = priority
    · simp [heq]
    · simp [heq]
  unfold Outgoing
  simp only [hmem, h.resendQueue]
  constructor
  · rintro (⟨priority', p, hold | ⟨-, hnew⟩, hw⟩ | hresend)
    · exact .inl (.inl ⟨priority', p, hold, hw⟩)
    · exact .inr ⟨p, hnew, hw⟩
    · exact .inl (.inr hresend)
  · rintro ((⟨priority', p, hold, hw⟩ | hresend) | ⟨p, hnew, hw⟩)
    · exact .inl ⟨priority', p, .inl hold, hw⟩
    · exact .inr hresend
    · exact .inl ⟨priority, p, .inr ⟨rfl, hnew⟩, hw⟩

/-- A message given to `Send` keeps the invariants of the sending side. -/
theorem Sender.append (h : Sender l sent queued mtuSize) (hmin : 512 ≤ mtuSize)
    (hmax : mtuSize ≤ maximumMtuSize) {m : InternalPacket} {packets : List InternalPacket}
    (hstep : SendStep l l' m packets mtuSize) :
    Sender l' (sent ++ [m]) (queued ++ packets) mtuSize where
  number_lt := by
    rw [hstep.nextNumber]
    exact iterate_nextPacketNumber_lt (nextPacketNumber_lt h.number_lt) _
  ids hlength := by
    have hold : sent.length < 2 ^ 32 := by
      rw [List.length_append] at hlength
      omega
    exact (h.ids hold).append hlength hstep.splitPacketId hstep.nextId
  counters channel hlt := by
    have hon : (onChannel channel [m]).length =
        if m.reliability = .reliableOrdered ∧ m.orderingChannel = channel then 1 else 0 := by
      by_cases hm : m.reliability = .reliableOrdered ∧ m.orderingChannel = channel
      · simp [onChannel, hm]
      · simp [onChannel, hm]
    rw [hstep.counter channel, h.counters channel hlt, onChannel_append, List.length_append, hon]
    split
    · rw [UInt32.ofNat_add]
      rfl
    · rfl
  indices channel hlt i m' hm' := by
    refine indices_append (h.indices channel hlt) (fun hin => ?_) hm'
    obtain ⟨-, hordered, hsame⟩ := mem_onChannel.mp hin
    rw [hstep.index hordered, hsame, h.counters channel hlt]
  channels m' hm' hordered := by
    obtain hold | hnew := List.mem_append.mp hm'
    · exact h.channels m' hold hordered
    · rw [List.mem_singleton.mp hnew] at hordered ⊢
      exact hstep.channel hordered
  wellformed q hq := (List.mem_append.mp hq).elim (h.wellformed q)
    (hstep.wellformed h.number_lt hmin hmax q)
  pieces q hq := by
    obtain hold | hnew := List.mem_append.mp hq
    · obtain ⟨m', hm', hpiece⟩ := h.pieces q hold
      exact ⟨m', List.mem_append_left _ hm', hpiece⟩
    · exact ⟨m, List.mem_append_right _ (List.mem_singleton_self m), hstep.pieces q hnew⟩
  outgoing w hw := by
    obtain hold | ⟨q, hq, rfl⟩ := (hstep.outgoing w).mp hw
    · obtain ⟨q, hq, hwire⟩ := h.outgoing w hold
      exact ⟨q, List.mem_append_left _ hq, hwire⟩
    · exact ⟨q, List.mem_append_right _ hq, rfl⟩

/-- `Send` keeps the invariants of the sending side. -/
theorem Sender.send (h : Sender l sent queued mtuSize) (hmin : 512 ≤ mtuSize)
    (hmax : mtuSize ≤ maximumMtuSize) (data : List UInt8) (priority : PacketPriority)
    (reliability : PacketReliability) (orderingChannel : ℕ) (time : UInt32) :
    Sender (l.send data priority reliability orderingChannel mtuSize time)
      (sent ++ (l.submitted data priority reliability orderingChannel mtuSize time).1)
      (queued ++ (l.submitted data priority reliability orderingChannel mtuSize time).2) mtuSize := by
  by_cases hdata : data = []
  · subst hdata
    obtain ⟨hsend, hsubmitted⟩ := l.send_nil priority reliability orderingChannel mtuSize time
    rwa [hsend, hsubmitted, List.append_nil, List.append_nil]
  · obtain ⟨m, packets, hsubmitted, -, hstep⟩ :=
      l.send_step hdata priority reliability orderingChannel mtuSize time
    rw [hsubmitted]
    exact h.append hmin hmax hstep

/-! ### Acknowledgements that come in -/

/-- What an acknowledgement does to a layer: it may empty places of the resend queue. -/
structure Emptied (l l' : ReliabilityLayer) : Prop where
  incoming : l'.incoming = l.incoming
  counters : l'.counters = l.counters
  sendQueue : l'.sendQueue = l.sendQueue
  acknowledgementQueue : l'.acknowledgementQueue = l.acknowledgementQueue
  resendQueue : ∀ p, some p ∈ l'.resendQueue → some p ∈ l.resendQueue

/-- An acknowledgement only empties places of the queue. -/
theorem removePacketFromResendQueue_emptied (l : ReliabilityLayer) (packetNumber : ℕ) :
    Emptied l (l.removePacketFromResendQueue packetNumber) := by
  unfold removePacketFromResendQueue
  cases l.resendQueue.findIdx? _ with
  | none => exact ⟨rfl, rfl, rfl, rfl, fun _ hp => hp⟩
  | some i =>
    have hqueue : ∀ p, some p ∈ (if i = 0 then l.resendQueue.tail else l.resendQueue.set i none) →
        some p ∈ l.resendQueue := by
      intro p hp
      split at hp
      · exact List.mem_of_mem_tail hp
      · exact (List.mem_or_eq_of_mem_set hp).resolve_right (Option.some_ne_none p)
    dsimp only
    generalize (if i = 0 then l.resendQueue.tail else l.resendQueue.set i none) = queue at *
    split
    · split
      · refine ⟨rfl, rfl, rfl, rfl, fun p hp => ?_⟩
        obtain ⟨q, hq, hfilter⟩ := List.mem_map.mp hp
        obtain ⟨hsome, -⟩ := Option.filter_eq_some_iff.mp hfilter
        exact hqueue p (hsome ▸ hq)
      · exact ⟨rfl, rfl, rfl, rfl, hqueue⟩
    · exact ⟨rfl, rfl, rfl, rfl, fun _ hp => hp⟩

/-- What an entry does to what a layer sends. -/
structure EntryStep (l l' : ReliabilityLayer) (entry : FrameEntry) : Prop where
  counters : l'.counters = l.counters
  outgoing : ∀ w, l'.Outgoing w → l.Outgoing w
  acknowledgements : ∀ a ∈ l'.acknowledgementQueue,
    a ∈ l.acknowledgementQueue ∨ ∃ p, entry = .packet p ∧ a.1 = p.packetNumber

/-- What leaves the sending side alone changes nothing that waits to be sent. -/
theorem outgoing_same (hsame : l'.outgoing = l.outgoing) :
    l'.acknowledgementQueue = l.acknowledgementQueue ∧ l'.counters = l.counters ∧
      ∀ w, l'.Outgoing w → l.Outgoing w := by
  simp only [ReliabilityLayer.outgoing, Prod.mk.injEq] at hsame
  obtain ⟨hsend, hresend, hqueue, hcounters, -⟩ := hsame
  refine ⟨hqueue, hcounters, fun w hw => ?_⟩
  unfold Outgoing at hw ⊢
  rwa [hsend, hresend] at hw

/-- An entry takes acknowledged packets from the queue and adds acknowledgements of its own. -/
theorem handleEntry_step (l : ReliabilityLayer) (entry : FrameEntry) (time : UInt32) :
    EntryStep l (l.handleEntry entry time).1 entry := by
  cases entry with
  | acknowledgement n =>
    have hemptied := removePacketFromResendQueue_emptied
      { l with lastAckTime := if l.resendQueue = [] then 0 else time } n
    refine ⟨hemptied.counters, ?_, fun a ha => .inl (hemptied.acknowledgementQueue ▸ ha)⟩
    rintro w (⟨priority, p, hp, rfl⟩ | ⟨p, hp, rfl⟩)
    · exact .inl ⟨priority, p, hemptied.sendQueue ▸ hp, rfl⟩
    · exact .inr ⟨p, hemptied.resendQueue p hp, rfl⟩
  | packet p =>
    obtain ⟨queue, hqueue, ⟨-, heq⟩ | ⟨-, -, heq⟩⟩ := l.handleEntry_packet p time
    · rw [heq]
      exact ⟨rfl, fun _ hw => hw, fun a ha => (hqueue a ha).imp_right fun hn => ⟨p, rfl, hn⟩⟩
    -- behind the duplicate filter only what was received changes
    · rw [heq]
      obtain ⟨hacks, hcounters, houtgoing⟩ := outgoing_same (outgoing_handlePacket
        { l with
          acknowledgementQueue := queue
          receivedPackets := Function.update l.receivedPackets p.packetNumber time } p time)
      refine ⟨hcounters, houtgoing, fun a ha => ?_⟩
      rw [hacks] at ha
      exact (hqueue a ha).imp_right fun hn => ⟨p, rfl, hn⟩

/-- A datagram makes a layer send nothing more, and acknowledges only what is in it. -/
theorem handleSocketReceive_step (l : ReliabilityLayer) (datagram : List UInt8) (time : UInt32) :
    (l.handleSocketReceive datagram time).counters = l.counters ∧
      (∀ w, (l.handleSocketReceive datagram time).Outgoing w → l.Outgoing w) ∧
      ∀ a ∈ (l.handleSocketReceive datagram time).acknowledgementQueue,
        a ∈ l.acknowledgementQueue ∨
          ∃ p, .packet p ∈ parseDatagram datagram time ∧ a.1 = p.packetNumber := by
  refine handleSocketReceive_invariant (fun _ _ => True)
    (fun l' => l'.counters = l.counters ∧ (∀ w, l'.Outgoing w → l.Outgoing w) ∧
      ∀ a ∈ l'.acknowledgementQueue, a ∈ l.acknowledgementQueue ∨
        ∃ p, .packet p ∈ parseDatagram datagram time ∧ a.1 = p.packetNumber)
    ?_ ?_ ⟨rfl, fun _ hw => hw, fun a ha => .inl ha⟩ (alongEntries_true _ _ _)
  · rintro l' entry hentry ⟨hcounters, houtgoing, hacks⟩ -
    have hstep := l'.handleEntry_step entry time
    refine ⟨hstep.counters.trans hcounters, fun w hw => houtgoing w (hstep.outgoing w hw), fun a ha => ?_⟩
    obtain hold | ⟨p, rfl, hn⟩ := hstep.acknowledgements a ha
    · exact hacks a hold
    · exact .inr ⟨p, hentry, hn⟩
  · intro l' acks hl'
    unfold increaseWindow
    split <;> exact hl'

/-- Handing a packet to the user changes nothing that is sent. -/
theorem outgoing_receive (l : ReliabilityLayer) : l.receive.1.outgoing = l.outgoing := by
  unfold receive
  split <;> rfl

end ReliabilityLayer

/-- More packets leave an entry genuine. -/
theorem FrameEntry.Genuine.mono {queued queued' others others' : List InternalPacket}
    (hqueued : queued ⊆ queued') (hothers : others ⊆ others') {entry : FrameEntry}
    (h : entry.Genuine queued others) : entry.Genuine queued' others' := by
  cases entry with
  | acknowledgement n =>
    obtain ⟨p, hp, hn⟩ := h
    exact ⟨p, hothers hp, hn⟩
  | packet p =>
    obtain ⟨q, hq, hwire⟩ := h
    exact ⟨q, hqueued hq, hwire⟩

/-- The time of arrival does not matter. -/
theorem FrameEntry.genuine_received {queued others : List InternalPacket} {time : UInt32}
    {entry : FrameEntry} :
    (entry.received time).Genuine queued others ↔ entry.Genuine queued others := by
  cases entry <;> exact Iff.rfl

namespace Link

open ReliabilityLayer

variable {mtu : End → MtuSize} {s t : Link}

/-- Everything on its way was queued for a message or acknowledges what was queued. -/
structure Genuine (mtu : End → MtuSize) (s : Link) : Prop where
  sender : ∀ e, Sender (s.layer e) (s.sent e) (s.queued e) (mtu e).size
  acknowledgements : ∀ e, ∀ a ∈ (s.layer e).acknowledgementQueue,
    ∃ p ∈ s.queued e.other, p.packetNumber = a.1
  datagrams : ∀ e, ∀ d ∈ s.datagrams e, ∀ time, ∀ entry ∈ parseDatagram d time,
    entry.Genuine (s.queued e) (s.queued e.other)

/-- Appending nothing at one end changes nothing. -/
theorem update_append_nil {α : Type*} (lists : End → List α) (e : End) :
    Function.update lists e (lists e ++ []) = lists := by
  rw [List.append_nil, Function.update_eq_self]

/-- One end acts. -/
theorem Genuine.acted (h : s.Genuine mtu) (e : End) {l : ReliabilityLayer}
    {sent queued : List InternalPacket} {datagrams : List (List UInt8)}
    (hlayer : t.layer = Function.update s.layer e l)
    (hsent : t.sent = Function.update s.sent e (s.sent e ++ sent))
    (hqueued : t.queued = Function.update s.queued e (s.queued e ++ queued))
    (hdatagrams : t.datagrams = Function.update s.datagrams e (s.datagrams e ++ datagrams))
    (hsender : Sender l (s.sent e ++ sent) (s.queued e ++ queued) (mtu e).size)
    (hacks : ∀ a ∈ l.acknowledgementQueue, ∃ p ∈ s.queued e.other, p.packetNumber = a.1)
    (hnew : ∀ d ∈ datagrams, ∀ time, ∀ entry ∈ parseDatagram d time,
      entry.Genuine (s.queued e) (s.queued e.other)) : t.Genuine mtu := by
  have hmono : ∀ e', s.queued e' ⊆ t.queued e' := by
    intro e'
    rw [hqueued]
    by_cases heq : e' = e
    · subst heq
      rw [Function.update_self]
      exact List.subset_append_left _ _
    · rw [Function.update_of_ne heq]
      exact List.Subset.refl _
  refine ⟨fun e' => ?_, fun e' => ?_, fun e' => ?_⟩
  · rw [hlayer, hsent, hqueued]
    by_cases heq : e' = e
    · subst heq
      simpa only [Function.update_self] using hsender
    · simpa only [Function.update_of_ne heq] using h.sender e'
  · intro a ha
    have hold : ∃ p ∈ s.queued e'.other, p.packetNumber = a.1 := by
      rw [hlayer] at ha
      by_cases heq : e' = e
      · subst heq
        rw [Function.update_self] at ha
        exact hacks a ha
      · rw [Function.update_of_ne heq] at ha
        exact h.acknowledgements e' a ha
    obtain ⟨p, hp, hn⟩ := hold
    exact ⟨p, hmono _ hp, hn⟩
  · intro d hd time entry hentry
    refine FrameEntry.Genuine.mono (hmono e') (hmono e'.other) ?_
    rw [hdatagrams] at hd
    by_cases heq : e' = e
    · subst heq
      rw [Function.update_self] at hd
      exact (List.mem_append.mp hd).elim (fun hold => h.datagrams e' d hold time entry hentry)
        fun hd => hnew d hd time entry hentry
    · rw [Function.update_of_ne heq] at hd
      exact h.datagrams e' d hd time entry hentry

/-- A datagram is read as what was written to it, and all of that comes from the queues. -/
theorem Genuine.frame (h : s.Genuine mtu) (e : End) (buffer : BitStream) (time : UInt32) :
    ∃ entries,
      FrameStep (s.layer e) ((s.layer e).update buffer (mtu e).size time).1 entries ∧
      (∀ entry ∈ entries, entry.Wellformed ∧ entry.Genuine (s.queued e) (s.queued e.other)) ∧
      ∀ d, ((s.layer e).update buffer (mtu e).size time).2 = some d →
        d = (buffer.reset.writeEntries entries).toBytes ∧
          ∀ time, parseDatagram d time = entries.map (FrameEntry.received time) := by
  obtain ⟨entries, hstep, hdatagram⟩ := (s.layer e).update_step buffer (mtu e).size time
  have hentries : ∀ entry ∈ entries,
      entry.Wellformed ∧ entry.Genuine (s.queued e) (s.queued e.other) := by
    intro entry hentry
    cases entry with
    | acknowledgement n =>
      obtain ⟨due, hdue⟩ := hstep.acknowledged n hentry
      obtain ⟨p, hp, hn⟩ := h.acknowledgements e (n, due) hdue
      have hlt := ((h.sender e.other).wellformed p hp).packetNumber
      exact ⟨(show p.packetNumber = n from hn) ▸ hlt, p, hp, hn⟩
    | packet p =>
      obtain ⟨q, hq, hwire⟩ := (h.sender e).outgoing p.wire (hstep.written p hentry)
      exact ⟨((h.sender e).wellformed q hq).of_wire hwire.symm, q, hq, hwire.symm⟩
  refine ⟨entries, hstep, hentries, fun d hd => ⟨hdatagram d hd, fun time => ?_⟩⟩
  rw [hdatagram d hd]
  exact parseDatagram_frame buffer (fun entry hentry => (hentries entry hentry).1) time

/-- What one step keeps. -/
theorem Genuine.step (h : s.Genuine mtu) {a : Action} (hstep : step mtu s a = some t) :
    t.Genuine mtu := by
  cases a with
  | send e data priority reliability orderingChannel time =>
    obtain rfl := Option.some.inj hstep
    have hsame := (s.layer e).send_untouched data priority reliability orderingChannel
      (mtu e).size time
    refine h.acted e rfl rfl rfl (update_append_nil s.datagrams e).symm
      ((h.sender e).send (mtu e).min (mtu e).max data priority reliability orderingChannel time)
      (fun a ha => h.acknowledgements e a (hsame.2 ▸ ha)) nofun
  | update e buffer time =>
    obtain rfl := Option.some.inj hstep
    obtain ⟨entries, hframe, hentries, hparse⟩ := h.frame e buffer time
    refine h.acted e rfl (update_append_nil s.sent e).symm (update_append_nil s.queued e).symm rfl
      ?_ (fun a ha => h.acknowledgements e a (hframe.acknowledgements a ha)) ?_
    · rw [List.append_nil, List.append_nil]
      exact (h.sender e).of_counters hframe.counters hframe.outgoing
    · intro d hd time entry hentry
      rw [(hparse d (Option.mem_toList.mp hd)).2] at hentry
      obtain ⟨entry', hentry', rfl⟩ := List.mem_map.mp hentry
      exact FrameEntry.genuine_received.mpr (hentries entry' hentry').2
  | deliver e index time =>
    obtain ⟨d, hd, hsome⟩ := Option.bind_eq_some_iff.mp hstep
    obtain rfl := Option.some.inj hsome
    have hgenuine := h.datagrams e.other d (List.mem_of_getElem? hd) time
    obtain ⟨hcounters, houtgoing, hacks⟩ := (s.layer e).handleSocketReceive_step d time
    refine h.acted e rfl (update_append_nil s.sent e).symm (update_append_nil s.queued e).symm
      (update_append_nil s.datagrams e).symm ?_ (fun a ha => ?_) nofun
    · rw [List.append_nil, List.append_nil]
      exact (h.sender e).of_counters hcounters houtgoing
    · obtain hold | ⟨p, hp, hn⟩ := hacks a ha
      · exact h.acknowledgements e a hold
      · obtain ⟨q, hq, hwire⟩ := hgenuine _ hp
        exact ⟨q, hq, hn ▸ (congrArg InternalPacket.packetNumber hwire).symm⟩
  | receive e =>
    obtain rfl := Option.some.inj hstep
    obtain ⟨hqueue, hcounters, houtgoing⟩ := outgoing_same (s.layer e).outgoing_receive
    refine h.acted e rfl (update_append_nil s.sent e).symm (update_append_nil s.queued e).symm
      (update_append_nil s.datagrams e).symm ?_
      (fun a ha => h.acknowledgements e a (hqueue ▸ ha)) nofun
    rw [List.append_nil, List.append_nil]
    exact (h.sender e).of_counters hcounters houtgoing

/-- What holds in every state of every run. -/
theorem genuine_of_reachable (hs : (machine mtu).Reachable s) : s.Genuine mtu := by
  refine hs.invariant ?_ fun s a t _ hI hstep => hI.step hstep
  rintro s ⟨ordered, sequenced, orderedRead, sequencedRead, rfl⟩
  refine ⟨fun e => ⟨Nat.zero_lt_succ _, fun _ => ⟨le_rfl, nofun, nofun⟩, ?_, ?_, nofun, nofun, nofun, ?_⟩,
    nofun, nofun⟩
  · intro channel hchannel
    exact if_pos hchannel
  · intro channel _ i m hm
    cases hm
  · rintro w (⟨priority, p, hp, -⟩ | ⟨p, hp, -⟩) <;> cases hp

/-- Every datagram is what the writer makes of some entries, and is read as just these entries, whatever
the buffer held before: packets that waited to be sent and acknowledgements that were due. Nothing
reliable stops waiting because it was sent. -/
theorem datagram_roundtrip (hs : (machine mtu).Reachable s) (e : End) (buffer : BitStream)
    (time : UInt32) {d : List UInt8}
    (hd : ((s.layer e).update buffer (mtu e).size time).2 = some d) (time' : UInt32) :
    ∃ entries : List FrameEntry, d = (buffer.reset.writeEntries entries).toBytes ∧
      parseDatagram d time' = entries.map (FrameEntry.received time') ∧
      (∀ p, .packet p ∈ entries → (s.layer e).Outgoing p.wire) ∧
      (∀ n, .acknowledgement n ∈ entries → ∃ due, (n, due) ∈ (s.layer e).acknowledgementQueue) ∧
      ∀ w, w.reliability.isReliable → (s.layer e).Outgoing w →
        ((s.layer e).update buffer (mtu e).size time).1.Outgoing w := by
  obtain ⟨entries, hframe, -, hparse⟩ := (genuine_of_reachable hs).frame e buffer time
  obtain ⟨hwritten, hread⟩ := hparse d hd
  exact ⟨entries, hwritten, hread time', hframe.written, hframe.acknowledged, hframe.kept⟩

/-- The first message of a run, in a datagram of nine bytes. -/
theorem datagram_roundtrip_first : ∃ s d,
    (machine fun _ => defaultMtuSize).run blank (repeated.take 1) = some s ∧
    ((s.layer .client).update (BitStream.ofBytes []) 576 1).2 = some d ∧
    ∃ entries : List FrameEntry,
      d = ((BitStream.ofBytes []).reset.writeEntries entries).toBytes ∧
      parseDatagram d 5 = entries.map (FrameEntry.received 5) ∧
      ∀ p, .packet p ∈ entries → (s.layer .client).Outgoing p.wire := by
  have hsome : (((machine fun _ => defaultMtuSize).run blank (repeated.take 1)).bind fun s =>
      ((s.layer .client).update (BitStream.ofBytes []) 576 1).2) =
        some [0, 0, 48, 48, 0, 66, 0, 1, 2] := by decide +kernel
  obtain ⟨s, hs, hd⟩ := Option.bind_eq_some_iff.mp hsome
  have hreach : (machine fun _ => defaultMtuSize).Reachable s :=
    Machine.Reachable.run (.initial (initial_blank _)) hs
  obtain ⟨entries, hwritten, hparse, hwaited, -⟩ :=
    datagram_roundtrip hreach .client (BitStream.ofBytes []) 1 hd 5
  exact ⟨s, _, hs, hd, entries, hwritten, hparse, hwaited⟩

end Link

end Multicrew.Transport
