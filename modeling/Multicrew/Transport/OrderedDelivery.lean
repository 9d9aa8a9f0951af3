import Multicrew.Transport.Sender

/-!
# Ordered delivery

Ordered messages of a channel are handed over in the order in which they were given to `Send`,
whatever the network does, and never more than 256 of them: the index that is waited for is a word
that goes on counting, while the index on the wire is a byte.
-/

namespace Multicrew.Transport

open Multicrew.Library

namespace ReliabilityLayer

open InternalPacket

variable {l l' : ReliabilityLayer} {handed sent out list : List InternalPacket}
  {p m : InternalPacket} {mtuSize channel : ℕ} {time : UInt32}

/-! ### How many -/

/-- The index waited for as a word never passes 256. -/
theorem InOrder.length_le (h : l.InOrder channel out)
    (hle : (l.waitingForOrderedPacketReadIndex channel).toNat ≤ 256) :
    (l.waitingForOrderedPacketReadIndex channel).toNat + out.length ≤ 256 := by
  by_contra hlong
  -- the packet whose index would be 256
  have hi : 256 - (l.waitingForOrderedPacketReadIndex channel).toNat < out.length := by omega
  have hindex := congrArg UInt32.toNat (h _ _ (List.getElem?_eq_getElem hi))
  have hbyte := UInt8.toNat_lt
    out[256 - (l.waitingForOrderedPacketReadIndex channel).toNat].orderingIndex
  rw [UInt8.toNat_toUInt32, UInt32.toNat_add, UInt32.toNat_ofNat'] at hindex
  omega

/-- The indices of the packets that are put out, as numbers. -/
theorem InOrder.index (h : l.InOrder channel out)
    (hle : (l.waitingForOrderedPacketReadIndex channel).toNat ≤ 256) {i : ℕ} {q : InternalPacket}
    (hq : out[i]? = some q) :
    q.orderingIndex.toNat = (l.waitingForOrderedPacketReadIndex channel).toNat + i := by
  have hlength := h.length_le hle
  obtain ⟨hi, -⟩ := List.getElem?_eq_some_iff.mp hq
  have hindex := congrArg UInt32.toNat (h i q hq)
  rw [UInt8.toNat_toUInt32, UInt32.toNat_add, UInt32.toNat_ofNat'] at hindex
  omega

/-- Without ordered packets there is nothing on any channel. -/
theorem onChannel_eq_nil (h : ∀ q ∈ out, q.reliability ≠ .reliableOrdered) :
    onChannel channel out = [] := by
  refine List.eq_nil_iff_forall_not_mem.mpr fun q hq => ?_
  obtain ⟨hin, hkind, -⟩ := mem_onChannel.mp hq
  exact h q hin hkind

/-- The ordered packets a layer has for its user, and those it waits for. -/
structure Accepted (l : ReliabilityLayer) (handed sent : List InternalPacket) (mtuSize : ℕ) :
    Prop where
  parts : ArePartsOf l.splitPacketList sent mtuSize
  waiting : ∀ channel, ∀ q ∈ l.orderingList channel,
    q.reliability = .reliableOrdered ∧ q.orderingChannel = channel
  counted : ∀ channel < numberOfOrderedStreams / 4,
    (l.waitingForOrderedPacketReadIndex channel).toNat =
      (onChannel channel (handed ++ l.outputQueue)).length
  limit : ∀ channel < numberOfOrderedStreams / 4,
    (onChannel channel (handed ++ l.outputQueue)).length ≤ 256

/-- What the ordered packets of a layer depend on. -/
def ordering (l : ReliabilityLayer) :=
  (l.outputQueue, l.splitPacketList, l.orderingList, l.waitingForOrderedPacketReadIndex)

/-- What frames do not touch includes the ordered messages. -/
theorem ordering_of_incoming (h : l'.incoming = l.incoming) : l'.ordering = l.ordering := by
  simp only [incoming, Prod.mk.injEq] at h
  obtain ⟨hout, hsplit, hlist, hread, -⟩ := h
  simp only [ordering, hout, hsplit, hlist, hread]

/-- Only the fields of ordered messages matter. -/
theorem Accepted.of_ordering (h : Accepted l handed sent mtuSize)
    (hsame : l'.ordering = l.ordering) : Accepted l' handed sent mtuSize := by
  simp only [ordering, Prod.mk.injEq] at hsame
  obtain ⟨hout, hsplit, hlist, hread⟩ := hsame
  exact ⟨hsplit ▸ h.parts, hlist ▸ h.waiting, hout ▸ hread ▸ h.counted, hout ▸ h.limit⟩

/-- Parts may be forgotten. -/
theorem Accepted.forget (h : Accepted l handed sent mtuSize) (hsub : list ⊆ l.splitPacketList) :
    Accepted { l with splitPacketList := list } handed sent mtuSize :=
  ⟨fun q hq => h.parts q (hsub hq), h.waiting, h.counted, h.limit⟩

/-- The packets that an ordered one lets through belong to its channel. -/
theorem Accepted.putOut_mem (h : Accepted l handed sent mtuSize) {q : InternalPacket}
    (hkind : q.reliability = .reliableOrdered)
    (hperm : (q :: l.orderingList q.orderingChannel).Perm (out ++ list)) :
    ∀ q' ∈ out ++ list, q'.reliability = .reliableOrdered ∧ q'.orderingChannel = q.orderingChannel := by
  intro q' hq'
  obtain rfl | hold := List.mem_cons.mp (hperm.symm.subset hq')
  · exact ⟨hkind, rfl⟩
  · exact h.waiting _ q' hold

/-- Packets of one channel are all of their channel and none of another. -/
theorem onChannel_putOut {q : InternalPacket}
    (hmem : ∀ q' ∈ out, q'.reliability = .reliableOrdered ∧ q'.orderingChannel = q.orderingChannel)
    (channel : ℕ) : onChannel channel out = if channel = q.orderingChannel then out else [] := by
  split
  · rename_i heq
    exact List.filter_eq_self.mpr fun q' hq' => by simp [hmem q' hq', heq]
  · rename_i hne
    exact List.filter_eq_nil_iff.mpr fun q' hq' => by simp [hmem q' hq', Ne.symm hne]

/-- An ordered message is handled. -/
theorem Accepted.putOut (h : Accepted l handed sent mtuSize) {q : InternalPacket}
    (hkind : q.reliability = .reliableOrdered)
    (hperm : (q :: l.orderingList q.orderingChannel).Perm (out ++ list))
    (horder : l.InOrder q.orderingChannel out) :
    Accepted (l.putOut q.orderingChannel out list) handed sent mtuSize := by
  have hmem := h.putOut_mem hkind hperm
  have hon := onChannel_putOut fun q' hq' => hmem q' (List.mem_append_left list hq')
  refine ⟨h.parts, fun channel q' hq' => ?_, fun channel hchannel => ?_, fun channel hchannel => ?_⟩
  · simp only [ReliabilityLayer.putOut] at hq'
    by_cases heq : channel = q.orderingChannel
    · subst heq
      rw [Function.update_self] at hq'
      exact hmem q' (List.mem_append_right out hq')
    · rw [Function.update_of_ne heq] at hq'
      exact h.waiting channel q' hq'
  · have hcounted := h.counted channel hchannel
    have hlimit := h.limit channel hchannel
    simp only [ReliabilityLayer.putOut]
    rw [← List.append_assoc, onChannel_append, List.length_append, hon channel, ← hcounted]
    by_cases heq : channel = q.orderingChannel
    · have hlength := horder.length_le (heq ▸ hcounted ▸ hlimit)
      rw [if_pos heq]
      subst heq
      rw [Function.update_self, UInt32.toNat_add, UInt32.toNat_ofNat']
      omega
    · rw [if_neg heq, Function.update_of_ne heq]
      rfl
  · have hcounted := h.counted channel hchannel
    have hlimit := h.limit channel hchannel
    simp only [ReliabilityLayer.putOut]
    rw [← List.append_assoc, onChannel_append, List.length_append, hon channel, ← hcounted]
    by_cases heq : channel = q.orderingChannel
    · rw [if_pos heq, heq]
      exact horder.length_le (heq ▸ hcounted ▸ hlimit)
    · rw [if_neg heq, hcounted]
      exact hlimit

/-- A further piece of a message that was sent. -/
theorem arePartsOf_append (h : ArePartsOf list sent mtuSize) (hm : m ∈ sent)
    (hsplit : m.IsSplit mtuSize) (hp : p.IsPieceOf m mtuSize) :
    ArePartsOf (list ++ [p]) sent mtuSize := by
  intro q hq
  obtain hold | hnew := List.mem_append.mp hq
  · exact h q hold
  · exact ⟨m, hm, hsplit, List.mem_singleton.mp hnew ▸ hp⟩

/-- The list of parts after a part has come holds parts of what was sent. -/
theorem Relisted.arePartsOf (h : Relisted l.splitPacketList p m mtuSize list)
    (hlist : ArePartsOf l.splitPacketList sent mtuSize) (hm : m ∈ sent)
    (hp : p.IsPieceOf m mtuSize) : ArePartsOf list sent mtuSize := by
  by_cases hsplit : m.IsSplit mtuSize
  · exact fun q hq => arePartsOf_append hlist hm hsplit hp q ((h.subperm hsplit).subset hq)
  · exact h.whole hsplit ▸ hlist

/-- Whatever a piece of a message does, the ordered packets stay accounted for. -/
theorem Accepted.handled (h : Accepted l handed sent mtuSize) (hm : m ∈ sent)
    (hp : p.IsPieceOf m mtuSize)
    (hchannel : m.reliability = .reliableOrdered → m.orderingChannel < numberOfOrderedStreams)
    (hhandled : Handled l p m mtuSize l') : Accepted l' handed sent mtuSize := by
  cases hhandled with
  | unordered list out sequenced hkind hlist hout =>
    have hnil : ∀ channel, onChannel channel (handed ++ (l.outputQueue ++ out)) =
        onChannel channel (handed ++ l.outputQueue) := fun channel => by
      rw [← List.append_assoc, onChannel_append, onChannel_eq_nil hout, List.append_nil]
    refine ⟨hlist.arePartsOf h.parts hm hp, h.waiting, fun channel hlt => ?_, fun channel hlt => ?_⟩
    · exact (h.counted channel hlt).trans (congrArg List.length (hnil channel).symm)
    · exact (congrArg List.length (hnil channel)).trans_le (h.limit channel hlt)
  | parts hkind hsplit hmissing =>
    exact ⟨arePartsOf_append h.parts hm hsplit hp, h.waiting, h.counted, h.limit⟩
  | @ordered list q hkind hstands hwhole hlist hdata =>
    have hsub : list ⊆ l.splitPacketList := (subperm_of_parts hwhole hlist).subset
    have hlt : q.orderingChannel < numberOfOrderedStreams := hstands.orderingChannel ▸ hchannel hkind
    obtain ⟨out, rest, heq, hperm, horder, -⟩ :=
      handleOrdered_spec { l with splitPacketList := list } hlt
    rw [heq]
    exact (h.forget hsub).putOut (hstands.reliability.trans hkind) hperm horder

/-! ### Which -/

/-- What `HandleSocketReceiveFromConnectedPlayer` asserts of a part of an ordered message before it
is collected. -/
def AssertNewPart (time : UInt32) (l : ReliabilityLayer) : FrameEntry → Prop
  | .acknowledgement _ => True
  | .packet p =>
    p.packetNumber < receivedPacketLogLength → l.isDuplicate p time = false →
      p.reliability = .reliableOrdered → 0 < p.splitPacketCount →
      ∀ q ∈ (l.deleteOldUnreliableSplitPackets time).splitPacketList,
        q.splitPacketId = p.splitPacketId → q.splitPacketIndex ≠ p.splitPacketIndex

/-- The ordered packets a layer has for its user are the first ones that were sent. -/
structure Faithful (l : ReliabilityLayer) (handed sent : List InternalPacket) : Prop where
  distinct : l.splitPacketList.Pairwise DistinctParts
  waiting : ∀ channel, ∀ q ∈ l.orderingList channel,
    ∃ m ∈ sent, m.reliability = .reliableOrdered ∧ q.StandsFor m ∧ q.data = m.data
  delivered : ∀ channel < numberOfOrderedStreams / 4, (onChannel channel sent).length ≤ 256 →
    (onChannel channel (handed ++ l.outputQueue)).map data <+: (onChannel channel sent).map data

/-- Only the fields of ordered messages matter. -/
theorem Faithful.of_ordering (h : Faithful l handed sent) (hsame : l'.ordering = l.ordering) :
    Faithful l' handed sent := by
  simp only [ordering, Prod.mk.injEq] at hsame
  obtain ⟨hout, hsplit, hlist, -⟩ := hsame
  exact ⟨hsplit ▸ h.distinct, hlist ▸ h.waiting, hout ▸ h.delivered⟩

/-- Pairwise different parts in a sublist, in whatever order. -/
theorem pairwise_of_subperm {old : List InternalPacket} (h : old.Pairwise DistinctParts)
    (hsub : list.Subperm old) : list.Pairwise DistinctParts := by
  obtain ⟨list', hperm, hsublist⟩ := hsub
  exact (hperm.pairwise_iff fun hdistinct => hdistinct.symm).mp (h.sublist hsublist)

/-- A prefix grows by what comes next. -/
theorem prefix_append {α : Type*} {first later whole : List α} (h : first <+: whole)
    (hlater : ∀ i a, later[i]? = some a → whole[first.length + i]? = some a) :
    first ++ later <+: whole := by
  obtain ⟨rest, rfl⟩ := h
  rw [List.prefix_append_right_inj, List.prefix_iff_getElem?]
  intro i hi
  have hthere := hlater i _ (List.getElem?_eq_getElem hi)
  rwa [List.getElem?_append_right (Nat.le_add_right _ _), Nat.add_sub_cancel_left] at hthere

/-- The ordered packets put out are the next ones that were sent. -/
theorem Faithful.putOut (h : Faithful l handed sent) (haccepted : Accepted l handed sent mtuSize)
    (hindices : ∀ channel < numberOfOrderedStreams / 4, ∀ i m,
      (onChannel channel sent)[i]? = some m → m.orderingIndex.toNat = i % 256)
    (hm : m ∈ sent) (hkind : m.reliability = .reliableOrdered) {q : InternalPacket}
    (hstands : q.StandsFor m) (hdata : q.data = m.data)
    (hperm : (q :: l.orderingList q.orderingChannel).Perm (out ++ list))
    (horder : l.InOrder q.orderingChannel out) :
    Faithful (l.putOut q.orderingChannel out list) handed sent := by
  have hmem := haccepted.putOut_mem (hstands.reliability.trans hkind) hperm
  have hon := onChannel_putOut fun q' hq' => hmem q' (List.mem_append_left list hq')
  have hmessage : ∀ q' ∈ out ++ list,
      ∃ m ∈ sent, m.reliability = .reliableOrdered ∧ q'.StandsFor m ∧ q'.data = m.data := by
    intro q' hq'
    obtain rfl | hold := List.mem_cons.mp (hperm.symm.subset hq')
    · exact ⟨m, hm, hkind, hstands, hdata⟩
    · exact h.waiting _ q' hold
  refine ⟨h.distinct, fun channel q' hq' => ?_, fun channel hchannel hfew => ?_⟩
  · simp only [ReliabilityLayer.putOut] at hq'
    by_cases heq : channel = q.orderingChannel
    · subst heq
      rw [Function.update_self] at hq'
      exact hmessage q' (List.mem_append_right out hq')
    · rw [Function.update_of_ne heq] at hq'
      exact h.waiting channel q' hq'
  · have hdelivered := h.delivered channel hchannel hfew
    simp only [ReliabilityLayer.putOut]
    rw [← List.append_assoc, onChannel_append, hon channel, List.map_append]
    by_cases heq : channel = q.orderingChannel
    · rw [if_pos heq]
      subst heq
      refine prefix_append hdelivered fun i bytes hbytes => ?_
      obtain ⟨q', hq', rfl⟩ : ∃ q', out[i]? = some q' ∧ q'.data = bytes := by
        rwa [List.getElem?_map, Option.map_eq_some_iff] at hbytes
      have hcounted := haccepted.counted q.orderingChannel hchannel
      have hindex := horder.index (hcounted ▸ haccepted.limit q.orderingChannel hchannel) hq'
      have hin := List.mem_append_left list (List.mem_of_getElem? hq')
      obtain ⟨m', hm', hkind', hstands', hdata'⟩ := hmessage q' hin
      have hplace : m' ∈ onChannel q.orderingChannel sent := mem_onChannel.mpr
        ⟨hm', hkind', hstands'.orderingChannel.symm.trans (hmem q' hin).2⟩
      obtain ⟨j, hj⟩ := List.mem_iff_getElem?.mp hplace
      obtain ⟨hlt, -⟩ := List.getElem?_eq_some_iff.mp hj
      have hmod := hindices q.orderingChannel hchannel j m' hj
      rw [← hstands'.orderingIndex, hindex, hcounted, Nat.mod_eq_of_lt (by omega)] at hmod
      rw [List.length_map, List.getElem?_map, hmod, hj, hdata']
      rfl
    · rw [if_neg heq, List.map_nil, List.append_nil]
      exact hdelivered

/-- A new part among different ones. -/
theorem pairwise_append (h : list.Pairwise DistinctParts)
    (hnew : p.reliability = .reliableOrdered →
      ∀ q ∈ list, q.splitPacketId = p.splitPacketId → q.splitPacketIndex ≠ p.splitPacketIndex) :
    (list ++ [p]).Pairwise DistinctParts := by
  refine List.pairwise_append.mpr ⟨h, List.pairwise_singleton _ _, fun q hq p' hp' => ?_⟩
  rw [List.mem_singleton.mp hp']
  exact fun _ hordered hid => hnew hordered q hq hid

/-- Whatever a piece of a message does, what is handed over stays what was sent. -/
theorem Faithful.handled (h : Faithful l handed sent) (haccepted : Accepted l handed sent mtuSize)
    (hindices : ∀ channel < numberOfOrderedStreams / 4, ∀ i m,
      (onChannel channel sent)[i]? = some m → m.orderingIndex.toNat = i % 256)
    (hcount : ∀ m ∈ sent, m.IsSplit mtuSize → AssertSplitCount m mtuSize) (hm : m ∈ sent)
    (hp : p.IsPieceOf m mtuSize)
    (hchannel : m.reliability = .reliableOrdered → m.orderingChannel < numberOfOrderedStreams)
    (hnew : m.reliability = .reliableOrdered → m.IsSplit mtuSize → ∀ q ∈ l.splitPacketList,
      q.splitPacketId = p.splitPacketId → q.splitPacketIndex ≠ p.splitPacketIndex)
    (hhandled : Handled l p m mtuSize l') : Faithful l' handed sent := by
  have hdistinct : m.IsSplit mtuSize → (l.splitPacketList ++ [p]).Pairwise DistinctParts :=
    fun hsplit => pairwise_append h.distinct fun hordered =>
      hnew (hp.reliability ▸ hordered) hsplit
  cases hhandled with
  | unordered list out sequenced hkind hlist hout =>
    refine ⟨?_, h.waiting, fun channel hlt hfew => ?_⟩
    · by_cases hsplit : m.IsSplit mtuSize
      · exact pairwise_of_subperm (hdistinct hsplit) (hlist.subperm hsplit)
      · exact hlist.whole hsplit ▸ h.distinct
    · dsimp only
      rw [← List.append_assoc, onChannel_append, onChannel_eq_nil hout, List.append_nil]
      exact h.delivered channel hlt hfew
  | parts hkind hsplit hmissing => exact ⟨hdistinct hsplit, h.waiting, h.delivered⟩
  | @ordered list q hkind hstands hwhole hlist hdata =>
    have hsub := subperm_of_parts hwhole hlist
    have hlt : q.orderingChannel < numberOfOrderedStreams := hstands.orderingChannel ▸ hchannel hkind
    obtain ⟨out, rest, heq, hperm, horder, -⟩ :=
      handleOrdered_spec { l with splitPacketList := list } hlt
    have hforget : Faithful { l with splitPacketList := list } handed sent :=
      ⟨pairwise_of_subperm h.distinct hsub, h.waiting, h.delivered⟩
    have hsame : q.data = m.data := hdata fun hsplit =>
      ⟨hcount m hm hsplit, (hdistinct hsplit).sublist List.filter_sublist⟩
    rw [heq]
    exact hforget.putOut (haccepted.forget hsub.subset) hindices hm hkind hstands hsame hperm horder

/-! ### Entries -/

/-- An entry changes nothing that is ordered, or its packet is handled. -/
theorem handleEntry_cases (l : ReliabilityLayer) (entry : FrameEntry) (time : UInt32) :
    (l.handleEntry entry time).1.ordering = l.ordering ∧
        (∀ p, entry = .packet p → p.packetNumber < receivedPacketLogLength →
          l.isDuplicate p time = true) ∨
      ∃ (p : InternalPacket) (l₀ : ReliabilityLayer), entry = .packet p ∧ p.packetNumber < receivedPacketLogLength ∧
        l.isDuplicate p time = false ∧ l₀.ordering = l.ordering ∧
        (l.handleEntry entry time).1 = l₀.handlePacket p time := by
  cases entry with
  | acknowledgement n =>
    exact .inl ⟨ordering_of_incoming (removePacketFromResendQueue_emptied
      { l with lastAckTime := if l.resendQueue = [] then 0 else time } n).incoming, nofun⟩
  | packet p =>
    obtain ⟨queue, -, ⟨hduplicate, heq⟩ | ⟨hnumber, hduplicate, heq⟩⟩ := l.handleEntry_packet p time
    · rw [heq]
      refine .inl ⟨rfl, fun p' hp' hlt => ?_⟩
      obtain rfl := FrameEntry.packet.inj hp'
      exact hduplicate hlt
    · refine .inr ⟨p, _, rfl, hnumber, hduplicate, ?_, heq⟩
      rfl

/-- What is deleted depends on the list of parts alone. -/
theorem splitPacketList_deleteOld (hsame : l'.splitPacketList = l.splitPacketList) :
    (l'.deleteOldUnreliableSplitPackets time).splitPacketList =
      (l.deleteOldUnreliableSplitPackets time).splitPacketList := by
  unfold deleteOldUnreliableSplitPackets
  rw [hsame]
  dsimp only
  split
  · exact hsame
  · split
    · rfl
    · exact hsame

variable {peer : ReliabilityLayer} {queued others : List InternalPacket} {entry : FrameEntry}

/-- A packet of the other end is a piece of one of its messages. -/
theorem Sender.piece (hsender : Sender peer sent queued mtuSize)
    (hgenuine : FrameEntry.Genuine queued others (.packet p)) :
    ∃ m ∈ sent, p.IsPieceOf m mtuSize ∧
      (m.reliability = .reliableOrdered → m.orderingChannel < numberOfOrderedStreams) := by
  obtain ⟨q, hq, hwire⟩ := hgenuine
  obtain ⟨m, hm, hpiece⟩ := hsender.pieces q hq
  exact ⟨m, hm, hpiece.of_wire hwire, hsender.channels m hm⟩

/-- An entry of a datagram that was sent adds only packets that were sent. -/
theorem Accepted.handleEntry (h : Accepted l handed sent mtuSize)
    (hsender : Sender peer sent queued mtuSize) (hids : IdsDiffer sent mtuSize)
    (hmin : 512 ≤ mtuSize) (hmax : mtuSize ≤ maximumMtuSize)
    (hgenuine : entry.Genuine queued others) (time : UInt32) :
    Accepted (l.handleEntry entry time).1 handed sent mtuSize := by
  obtain ⟨hsame, -⟩ | ⟨p, l₀, rfl, -, -, hsame, heq⟩ := l.handleEntry_cases entry time
  · exact h.of_ordering hsame
  · obtain ⟨m, hm, hpiece, hchannel⟩ := hsender.piece hgenuine
    have h₀ := h.of_ordering hsame
    obtain ⟨list, hsub, -, -, hhandled⟩ := handlePacket_spec h₀.parts hids hm hpiece
      (maximumSendBlock_bounds m hmin hmax).1 time
    rw [heq]
    exact (h₀.forget hsub.subset).handled hm hpiece hchannel hhandled

/-- Such an entry keeps the order, if it passes the debug assertion on parts. -/
theorem Faithful.handleEntry (h : Faithful l handed sent) (haccepted : Accepted l handed sent mtuSize)
    (hsender : Sender peer sent queued mtuSize) (hids : IdsDiffer sent mtuSize)
    (hcount : ∀ m ∈ sent, m.IsSplit mtuSize → AssertSplitCount m mtuSize)
    (hmin : 512 ≤ mtuSize) (hmax : mtuSize ≤ maximumMtuSize)
    (hgenuine : entry.Genuine queued others) (hassert : l.AssertNewPart time entry) :
    Faithful (l.handleEntry entry time).1 handed sent := by
  obtain ⟨hsame, -⟩ | ⟨p, l₀, rfl, hnumber, hduplicate, hsame, heq⟩ := l.handleEntry_cases entry time
  · exact h.of_ordering hsame
  · obtain ⟨m, hm, hpiece, hchannel⟩ := hsender.piece hgenuine
    have h₀ := h.of_ordering hsame
    have haccepted₀ := haccepted.of_ordering hsame
    obtain ⟨list, hsub, -, hdeleted, hhandled⟩ := handlePacket_spec haccepted₀.parts hids hm hpiece
      (maximumSendBlock_bounds m hmin hmax).1 time
    have hforget : Faithful { l₀ with splitPacketList := list } handed sent :=
      ⟨pairwise_of_subperm h₀.distinct hsub, h₀.waiting, h₀.delivered⟩
    rw [heq]
    refine hforget.handled (haccepted₀.forget hsub.subset) hsender.indices hcount hm hpiece hchannel
      (fun hordered hsplit q hq => ?_) hhandled
    have hindex := hpiece.splitPacketIndex hsplit
    have hlist : l₀.splitPacketList = l.splitPacketList := by
      simp only [ordering, Prod.mk.injEq] at hsame
      exact hsame.2.1
    have hin : q ∈ (l.deleteOldUnreliableSplitPackets time).splitPacketList := by
      rw [← splitPacketList_deleteOld hlist, ← hdeleted (by omega)]
      exact hq
    exact hassert hnumber hduplicate (hpiece.reliability.trans hordered) (by omega) q hin

/-! ### What the other steps do -/

/-- A new layer has accepted nothing. -/
theorem Accepted.initial (ordered sequenced orderedRead sequencedRead : ℕ → UInt32) :
    Accepted (initializeVariables ordered sequenced orderedRead sequencedRead) [] [] mtuSize := by
  refine ⟨nofun, nofun, fun channel hchannel => ?_, fun channel _ => Nat.zero_le _⟩
  exact congrArg UInt32.toNat (if_pos hchannel)

/-- And it has handed over nothing. -/
theorem Faithful.initial (ordered sequenced orderedRead sequencedRead : ℕ → UInt32) :
    Faithful (initializeVariables ordered sequenced orderedRead sequencedRead) [] [] :=
  ⟨.nil, nofun, fun _ _ _ => List.prefix_rfl⟩

/-- Handing over the first packet of the output queue keeps what was accepted. -/
theorem append_outputQueue {rest : List InternalPacket} (hqueue : l.outputQueue = p :: rest) :
    handed ++ [p] ++ rest = handed ++ l.outputQueue := by
  rw [hqueue, List.append_assoc, List.singleton_append]

/-- The user takes a packet. -/
theorem Accepted.receive (h : Accepted l handed sent mtuSize) {rest : List InternalPacket}
    (hqueue : l.outputQueue = p :: rest) :
    Accepted { l with outputQueue := rest } (handed ++ [p]) sent mtuSize :=
  have hsame := append_outputQueue hqueue
  ⟨h.parts, h.waiting, hsame ▸ h.counted, hsame ▸ h.limit⟩

/-- So it keeps the order. -/
theorem Faithful.receive (h : Faithful l handed sent) {rest : List InternalPacket}
    (hqueue : l.outputQueue = p :: rest) :
    Faithful { l with outputQueue := rest } (handed ++ [p]) sent :=
  have hsame := append_outputQueue hqueue
  ⟨h.distinct, h.waiting, hsame ▸ h.delivered⟩

/-- The other end sends more. -/
theorem Accepted.append (h : Accepted l handed sent mtuSize) (new : List InternalPacket) :
    Accepted l handed (sent ++ new) mtuSize := by
  refine ⟨fun q hq => ?_, h.waiting, h.counted, h.limit⟩
  obtain ⟨m, hm, hpart⟩ := h.parts q hq
  exact ⟨m, List.mem_append_left _ hm, hpart⟩

/-- What was handed over stays a prefix when more is sent. -/
theorem Faithful.append (h : Faithful l handed sent) (new : List InternalPacket) :
    Faithful l handed (sent ++ new) := by
  refine ⟨h.distinct, fun channel q hq => ?_, fun channel hchannel hfew => ?_⟩
  · obtain ⟨m, hm, hmessage⟩ := h.waiting channel q hq
    exact ⟨m, List.mem_append_left _ hm, hmessage⟩
  · rw [onChannel_append channel sent new] at hfew ⊢
    rw [List.length_append] at hfew
    rw [List.map_append]
    exact (h.delivered channel hchannel (by omega)).trans (List.prefix_append _ _)

/-- The window has nothing to do with ordered messages. -/
theorem ordering_increaseWindow (l : ReliabilityLayer) (acks : ℕ) (time : UInt32) :
    (l.increaseWindow acks time).ordering = l.ordering := by
  unfold increaseWindow
  split <;> rfl

end ReliabilityLayer

namespace Link

open ReliabilityLayer InternalPacket

variable {mtu : End → MtuSize} {s t : Link}

/-- An invariant of what an end received from the other one. -/
theorem receiver_invariant {ok : Link → Action → Prop} (e : End)
    (R : ReliabilityLayer → List InternalPacket → List InternalPacket → Prop)
    (hinitial : ∀ ordered sequenced orderedRead sequencedRead,
      R (initializeVariables ordered sequenced orderedRead sequencedRead) [] [])
    (hordering : ∀ l l' handed sent, l'.ordering = l.ordering → R l handed sent → R l' handed sent)
    (hreceive : ∀ l p rest handed sent, l.outputQueue = p :: rest → R l handed sent →
      R { l with outputQueue := rest } (handed ++ [p]) sent)
    (hsend : ∀ s data priority reliability channel time, ok s
      (.send e.other data priority reliability channel time) →
      R (s.layer e) (s.handed e) (s.sent e.other) → R (s.layer e) (s.handed e) (s.sent e.other ++
        ((s.layer e.other).submitted data priority reliability channel (mtu e.other).size time).1))
    (hdeliver : ∀ s index time d, (machine mtu).ReachableVia ok s → ok s (.deliver e index time) →
      (s.datagrams e.other)[index]? = some d → R (s.layer e) (s.handed e) (s.sent e.other) →
      R ((s.layer e).handleSocketReceive d time) (s.handed e) (s.sent e.other))
    (hs : (machine mtu).ReachableVia ok s) : R (s.layer e) (s.handed e) (s.sent e.other) := by
  refine Machine.ReachableVia.invariant
    (I := fun s => R (s.layer e) (s.handed e) (s.sent e.other)) ?_ ?_ hs
  · rintro s ⟨ordered, sequenced, orderedRead, sequencedRead, rfl⟩
    exact hinitial _ _ _ _
  intro s a t hreach hR hok hstep
  have hne := e.other_ne
  cases a with
  | send e' data priority reliability channel time =>
    obtain rfl := Option.some.inj hstep
    have hsame := ordering_of_incoming ((s.layer e').send_untouched data priority reliability channel
      (mtu e').size time).1
    show R (Function.update s.layer e' ((s.layer e').send data priority reliability channel
      (mtu e').size time) e) (s.handed e) (Function.update s.sent e' (s.sent e' ++
        ((s.layer e').submitted data priority reliability channel (mtu e').size time).1) e.other)
    by_cases he : e' = e
    · subst he
      rw [Function.update_self, Function.update_of_ne hne]
      exact hordering _ _ _ _ hsame hR
    · have heq : e' = e.other := by cases e <;> cases e' <;> first | rfl | exact absurd rfl he
      subst heq
      rw [Function.update_self, Function.update_of_ne hne.symm]
      exact hsend s data priority reliability channel time hok hR
  | update e' buffer time =>
    obtain rfl := Option.some.inj hstep
    obtain ⟨entries, hframe, -⟩ := (s.layer e').update_step buffer (mtu e').size time
    have hsame := ordering_of_incoming hframe.incoming
    show R (Function.update s.layer e' ((s.layer e').update buffer (mtu e').size time).1 e)
      (s.handed e) (s.sent e.other)
    by_cases he : e' = e
    · subst he
      rw [Function.update_self]
      exact hordering _ _ _ _ hsame hR
    · rwa [Function.update_of_ne (Ne.symm he)]
  | deliver e' index time =>
    obtain ⟨d, hd, hsome⟩ := Option.bind_eq_some_iff.mp hstep
    obtain rfl := Option.some.inj hsome
    show R (Function.update s.layer e' ((s.layer e').handleSocketReceive d time) e)
      (s.handed e) (s.sent e.other)
    by_cases he : e' = e
    · subst he
      rw [Function.update_self]
      exact hdeliver s index time d hreach hok hd hR
    · rwa [Function.update_of_ne (Ne.symm he)]
  | receive e' =>
    obtain rfl := Option.some.inj hstep
    show R (Function.update s.layer e' (s.layer e').receive.1 e)
      (Function.update s.handed e' (s.handed e' ++ (s.layer e').receive.2.toList) e) (s.sent e.other)
    by_cases he : e' = e
    · subst he
      rw [Function.update_self, Function.update_self]
      unfold ReliabilityLayer.receive
      split
      · rwa [Option.toList_none, List.append_nil]
      · rename_i p rest hqueue
        exact hreceive _ p rest _ _ hqueue hR
    · rwa [Function.update_of_ne (Ne.symm he), Function.update_of_ne (Ne.symm he)]

/-- The assertions a debug build checks on the way of an ordered message. -/
def Asserts (mtu : End → MtuSize) (s : Link) : Action → Prop
  | .send e data priority reliability orderingChannel time =>
    ∀ m ∈ ((s.layer e).submitted data priority reliability orderingChannel (mtu e).size time).1,
      m.IsSplit (mtu e).size → AssertSplitCount m (mtu e).size
  | .deliver e index time => ∀ d ∈ (s.datagrams e.other)[index]?,
      AlongEntries (AssertNewPart time) time (s.layer e) (parseDatagram d time)
  | .update .. => True
  | .receive _ => True

instance (time : UInt32) (l : ReliabilityLayer) :
    (entry : FrameEntry) → Decidable (l.AssertNewPart time entry)
  | .acknowledgement _ => .isTrue trivial
  | .packet p => inferInstanceAs (Decidable (p.packetNumber < receivedPacketLogLength →
      l.isDuplicate p time = false → p.reliability = .reliableOrdered → 0 < p.splitPacketCount →
      ∀ q ∈ (l.deleteOldUnreliableSplitPackets time).splitPacketList,
        q.splitPacketId = p.splitPacketId → q.splitPacketIndex ≠ p.splitPacketIndex))

instance (s : Link) : (a : Action) → Decidable (Asserts mtu s a)
  | .send e data priority reliability orderingChannel time =>
    inferInstanceAs (Decidable (∀ m ∈ ((s.layer e).submitted data priority reliability
      orderingChannel (mtu e).size time).1, maxDataSize m (mtu e).size < m.data.length →
        (m.data.length - 1) / maximumSendBlock m (mtu e).size + 1 < 65535))
  | .deliver e index time => inferInstanceAs (Decidable (∀ d ∈ (s.datagrams e.other)[index]?,
      AlongEntries (AssertNewPart time) time (s.layer e) (parseDatagram d time)))
  | .update .. => .isTrue trivial
  | .receive _ => .isTrue trivial

/-- Whatever an end accepts in a run of fewer than 2³² messages was sent. -/
theorem accepted_of_reachable (hs : (machine mtu).Reachable s) (e : End)
    (hsent : (s.sent e.other).length < 2 ^ 32) :
    Accepted (s.layer e) (s.handed e) (s.sent e.other) (mtu e.other).size := by
  refine receiver_invariant e
    (fun l handed sent => sent.length < 2 ^ 32 → Accepted l handed sent (mtu e.other).size)
    ?_ ?_ ?_ ?_ ?_ hs hsent
  · exact fun _ _ _ _ _ => .initial _ _ _ _
  · exact fun _ _ _ _ hsame h hlength => (h hlength).of_ordering hsame
  · exact fun _ _ _ _ _ hqueue h hlength => (h hlength).receive hqueue
  · intro s data priority reliability channel time _ h hlength
    rw [List.length_append] at hlength
    exact (h (by omega)).append _
  · intro s index time d hreach _ hd h hlength
    have hgenuine := genuine_of_reachable hreach
    have hsender := hgenuine.sender e.other
    refine handleSocketReceive_invariant (fun _ _ => True)
      (fun l => Accepted l (s.handed e) (s.sent e.other) (mtu e.other).size) ?_
      (fun l acks hl => hl.of_ordering (l.ordering_increaseWindow acks time)) (h hlength)
      (alongEntries_true _ _ _)
    intro l entry hentry hl _
    exact hl.handleEntry hsender (hsender.ids hlength).differ (mtu e.other).min (mtu e.other).max
      (hgenuine.datagrams e.other d (List.mem_of_getElem? hd) time entry hentry) time

/-- No channel ever hands over more than 256 ordered messages, however many were sent. -/
theorem handed_le (hs : (machine mtu).Reachable s) (e : End)
    (hsent : (s.sent e.other).length < 2 ^ 32) {channel : ℕ}
    (hchannel : channel < numberOfOrderedStreams / 4) :
    (onChannel channel (s.handed e)).length ≤ 256 := by
  have hlimit := (accepted_of_reachable hs e hsent).limit channel hchannel
  rw [onChannel_append, List.length_append] at hlimit
  omega

/-- A run in which two messages are handed over. -/
theorem handed_le_repeated : ∃ s, (machine fun _ => defaultMtuSize).run blank repeated = some s ∧
    (onChannel 3 (s.handed .server)).length = 2 ∧ (onChannel 3 (s.handed .server)).length ≤ 256 := by
  have hrun : (((machine fun _ => defaultMtuSize).run blank repeated).map fun s =>
      ((s.sent .client).length, (onChannel 3 (s.handed .server)).length)) = some (2, 2) := by
    decide +kernel
  refine (Option.map_eq_some_iff.mp hrun).imp fun s hs => ?_
  have hsent : (s.sent .client).length = 2 := congrArg Prod.fst hs.2
  have hreach : (machine fun _ => defaultMtuSize).Reachable s :=
    Machine.Reachable.run (.initial (initial_blank _)) hs.1
  exact ⟨hs.1, congrArg Prod.snd hs.2, handed_le hreach .server
    (show (s.sent .client).length < 2 ^ 32 by omega) (by decide)⟩

/-- In such a run that meets the debug assertions, an end hands over in order. -/
theorem faithful_of_reachable (hs : (machine mtu).ReachableVia (Asserts mtu) s) (e : End)
    (hsent : (s.sent e.other).length < 2 ^ 32) :
    (∀ m ∈ s.sent e.other, m.IsSplit (mtu e.other).size → AssertSplitCount m (mtu e.other).size) ∧
      Faithful (s.layer e) (s.handed e) (s.sent e.other) := by
  refine receiver_invariant e (fun l handed sent => sent.length < 2 ^ 32 →
    (∀ m ∈ sent, m.IsSplit (mtu e.other).size → AssertSplitCount m (mtu e.other).size) ∧
      Faithful l handed sent) ?_ ?_ ?_ ?_ ?_ hs hsent
  · exact fun _ _ _ _ _ => ⟨nofun, .initial _ _ _ _⟩
  · exact fun _ _ _ _ hsame h hlength => (h hlength).imp id fun hl => hl.of_ordering hsame
  · exact fun _ _ _ _ _ hqueue h hlength => (h hlength).imp id fun hl => hl.receive hqueue
  · intro s data priority reliability channel time hassert h hlength
    rw [List.length_append] at hlength
    obtain ⟨hcount, hl⟩ := h (by omega)
    refine ⟨fun m hm => ?_, hl.append _⟩
    exact (List.mem_append.mp hm).elim (hcount m) (hassert m)
  · intro s index time d hreach hassert hd h hlength
    have hgenuine := genuine_of_reachable hreach.reachable
    have hsender := hgenuine.sender e.other
    have hids := (hsender.ids hlength).differ
    obtain ⟨hcount, hl⟩ := h hlength
    refine ⟨hcount, (handleSocketReceive_invariant (AssertNewPart time)
      (fun l => Accepted l (s.handed e) (s.sent e.other) (mtu e.other).size ∧
        Faithful l (s.handed e) (s.sent e.other)) ?_ ?_
      ⟨accepted_of_reachable hreach.reachable e hlength, hl⟩ (hassert d hd)).2⟩
    · rintro l entry hentry ⟨haccepted, hfaithful⟩ hnew
      have hentries := hgenuine.datagrams e.other d (List.mem_of_getElem? hd) time entry hentry
      exact ⟨haccepted.handleEntry hsender hids (mtu e.other).min (mtu e.other).max hentries time,
        hfaithful.handleEntry haccepted hsender hids hcount (mtu e.other).min (mtu e.other).max
          hentries hnew⟩
    · rintro l acks ⟨haccepted, hfaithful⟩
      have hsame := l.ordering_increaseWindow acks time
      exact ⟨haccepted.of_ordering hsame, hfaithful.of_ordering hsame⟩

/-- While at most 256 ordered messages were sent on a channel, those handed over are the first ones
of them, in their order, whatever is lost, duplicated or repeated. -/
theorem handed_prefix (hs : (machine mtu).ReachableVia (Asserts mtu) s) (e : End)
    (hsent : (s.sent e.other).length < 2 ^ 32) {channel : ℕ}
    (hchannel : channel < numberOfOrderedStreams / 4)
    (hfew : (onChannel channel (s.sent e.other)).length ≤ 256) :
    (onChannel channel (s.handed e)).map data <+: (onChannel channel (s.sent e.other)).map data := by
  have hdelivered := (faithful_of_reachable hs e hsent).2.delivered channel hchannel hfew
  rw [onChannel_append, List.map_append] at hdelivered
  exact (List.prefix_append _ _).trans hdelivered

/-- Two messages, one of them sent again: both are handed over once, in order. -/
theorem handed_prefix_repeated : ∃ s,
    (machine fun _ => defaultMtuSize).run blank repeated = some s ∧
    (onChannel 3 (s.handed .server)).map data = [[1, 2], [7]] ∧
    (onChannel 3 (s.handed .server)).map data <+: (onChannel 3 (s.sent .client)).map data := by
  have hrun : (((machine fun _ => defaultMtuSize).run blank repeated).map fun s =>
      ((s.sent .client).length, (onChannel 3 (s.sent .client)).length,
        (onChannel 3 (s.handed .server)).map data)) = some (2, 2, [[1, 2], [7]]) := by decide +kernel
  have hasserts : (machine fun _ => defaultMtuSize).Along (Asserts fun _ => defaultMtuSize) blank
      repeated := by decide +kernel
  refine (Option.map_eq_some_iff.mp hrun).imp fun s hs => ?_
  have hsent : (s.sent .client).length = 2 := congrArg Prod.fst hs.2
  have hfew : (onChannel 3 (s.sent .client)).length = 2 := congrArg (fun r => r.2.1) hs.2
  exact ⟨hs.1, congrArg (fun r => r.2.2) hs.2,
    handed_prefix (.run (.initial (initial_blank _)) hasserts hs.1) .server
      (show (s.sent .client).length < 2 ^ 32 by omega) (by decide)
      (show (onChannel 3 (s.sent .client)).length ≤ 256 by omega)⟩

end Link

end Multicrew.Transport
