import Mathlib.Data.UInt
import Multicrew.Transport.SplitPackets

/-!
# What a received packet does

Packets of one ordering channel are put out one index after the other, the others wait in the list
of the channel. Said once for a packet that is a piece of a message of the other end: it changes
the list of parts, or puts out messages that are not ordered, or puts out ordered ones in their
order.
-/

namespace Multicrew.Transport

open Multicrew.Library

namespace ReliabilityLayer

open InternalPacket

variable {l : ReliabilityLayer} {p m : InternalPacket} {mtuSize channel : ℕ}

/-! ### Ordered packets -/

/-- The layer once packets of a channel were put out, with what waits then. -/
def putOut (l : ReliabilityLayer) (channel : ℕ) (out list : List InternalPacket) :
    ReliabilityLayer :=
  { l with
    outputQueue := l.outputQueue ++ out
    orderingList := Function.update l.orderingList channel list
    waitingForOrderedPacketReadIndex :=
      Function.update l.waitingForOrderedPacketReadIndex channel
        (l.waitingForOrderedPacketReadIndex channel + .ofNat out.length) }

/-- Packets whose indices go on from the one waited for. -/
def InOrder (l : ReliabilityLayer) (channel : ℕ) (out : List InternalPacket) : Prop :=
  ∀ i, ∀ p, out[i]? = some p →
    p.orderingIndex.toUInt32 = l.waitingForOrderedPacketReadIndex channel + .ofNat i

/-- Without packets to put out the layer stays as it is. -/
theorem putOut_nil (l : ReliabilityLayer) (channel : ℕ) :
    l.putOut channel [] (l.orderingList channel) = l := by
  simp [putOut]

/-- The index that is waited for counts up as a word. -/
theorem ofNat_succ (n : ℕ) : UInt32.ofNat (n + 1) = 1 + UInt32.ofNat n := by
  rw [Nat.add_comm, UInt32.ofNat_add]
  rfl

/-- One packet that is waited for, and then others. -/
theorem putOut_cons (l : ReliabilityLayer) (channel : ℕ) (p : InternalPacket)
    (lists : ℕ → List InternalPacket) (out list : List InternalPacket)
    (hlists : Function.update lists channel list = Function.update l.orderingList channel list) :
    ({ l with orderingList := lists }.outputOrdered p channel).putOut channel out list =
      l.putOut channel (p :: out) list := by
  unfold putOut outputOrdered pushOutputQueue
  simp only [Function.update_self, Function.update_idem, List.append_assoc, List.singleton_append,
    List.length_cons, ofNat_succ, hlists, UInt32.add_assoc]

/-- The packet that is waited for comes first. -/
theorem InOrder.cons {lists : ℕ → List InternalPacket} {out : List InternalPacket}
    (hp : l.isWaitedFor channel p)
    (hout : ({ l with orderingList := lists }.outputOrdered p channel).InOrder channel out) :
    l.InOrder channel (p :: out) := by
  intro i q hq
  cases i with
  | zero =>
    obtain rfl := Option.some.inj hq
    simpa [isWaitedFor] using hp
  | succ i =>
    have hindex := hout i q hq
    simp only [outputOrdered, pushOutputQueue, Function.update_self] at hindex
    rw [hindex, ofNat_succ, UInt32.add_assoc]

/-- The packets that were delayed are put out in order, and none is left that is waited for. -/
theorem popOrderingList_spec (l : ReliabilityLayer) (channel : ℕ) {turns : ℕ}
    (hturns : (l.orderingList channel).length ≤ turns) :
    ∃ out list, l.popOrderingList channel turns = l.putOut channel out list ∧
      (l.orderingList channel).Perm (out ++ list) ∧ l.InOrder channel out ∧
      ∀ q ∈ list, ¬ (l.putOut channel out list).isWaitedFor channel q := by
  induction turns generalizing l with
  | zero =>
    have hnil := List.eq_nil_of_length_eq_zero (Nat.le_zero.mp hturns)
    have hsame := l.putOut_nil channel
    rw [hnil] at hsame
    exact ⟨[], [], hsame.symm, by rw [hnil]; rfl, nofun, nofun⟩
  | succ turns ih =>
    rw [popOrderingList]
    cases hfind : (l.orderingList channel).find? (l.isWaitedFor channel) with
    | none =>
      refine ⟨[], l.orderingList channel, (l.putOut_nil channel).symm, .refl _, nofun, ?_⟩
      rw [putOut_nil]
      exact List.find?_eq_none.mp hfind
    | some p =>
      obtain ⟨hp, before, behind, hlist, hbefore⟩ := List.find?_eq_some_iff_append.mp hfind
      have herase : (l.orderingList channel).eraseP (l.isWaitedFor channel) = before ++ behind := by
        rw [hlist, List.eraseP_append_right _ fun q hq => by simpa using hbefore q hq,
          List.eraseP_cons_of_pos hp]
      have hperm : (l.orderingList channel).Perm (p :: (before ++ behind)) :=
        hlist ▸ List.perm_middle
      have hlength := hperm.length_eq
      rw [List.length_cons] at hlength
      simp only [herase]
      generalize hnext : ReliabilityLayer.outputOrdered
        { l with orderingList := Function.update l.orderingList channel (before ++ behind) }
        p channel = next
      have hrest : next.orderingList channel = before ++ behind := by
        rw [← hnext]
        exact Function.update_self ..
      obtain ⟨out, list, hpop, hout, hinorder, hclosed⟩ := ih next (by rw [hrest]; omega)
      have hcons : next.putOut channel out list = l.putOut channel (p :: out) list := by
        rw [← hnext]
        exact putOut_cons l channel p _ out list (Function.update_idem ..)
      rw [hrest] at hout
      refine ⟨p :: out, list, hpop.trans hcons, hperm.trans (hout.cons p), ?_, hcons ▸ hclosed⟩
      exact InOrder.cons hp (hnext ▸ hinorder)

/-- An ordered packet and those it lets through. -/
theorem handleOrdered_spec (l : ReliabilityLayer) {p : InternalPacket}
    (hchannel : p.orderingChannel < numberOfOrderedStreams) :
    ∃ out list, l.handleOrdered p = l.putOut p.orderingChannel out list ∧
      (p :: l.orderingList p.orderingChannel).Perm (out ++ list) ∧
      l.InOrder p.orderingChannel out ∧
      ((∀ q ∈ l.orderingList p.orderingChannel, ¬ l.isWaitedFor p.orderingChannel q) →
        ∀ q ∈ list, ¬ (l.putOut p.orderingChannel out list).isWaitedFor p.orderingChannel q) := by
  unfold handleOrdered
  rw [if_neg (Nat.not_le.mpr hchannel)]
  split
  · rename_i hp
    generalize hnext : l.outputOrdered p p.orderingChannel = next
    have hsame : next.orderingList p.orderingChannel = l.orderingList p.orderingChannel := by
      rw [← hnext]
      rfl
    obtain ⟨out, list, hpop, hout, hinorder, hclosed⟩ :=
      popOrderingList_spec next p.orderingChannel (congrArg List.length hsame).le
    have hcons : next.putOut p.orderingChannel out list =
        l.putOut p.orderingChannel (p :: out) list := by
      rw [← hnext]
      exact putOut_cons l p.orderingChannel p l.orderingList out list rfl
    rw [hsame] at hout
    exact ⟨p :: out, list, hpop.trans hcons, hout.cons p, InOrder.cons hp (hnext ▸ hinorder),
      fun _ => hcons ▸ hclosed⟩
  · rename_i hp
    refine ⟨[], p :: l.orderingList p.orderingChannel, ?_, .refl _, nofun, ?_⟩
    · simp [putOut, addToOrderingList]
    · intro hlist q hq
      have hindex : (l.putOut p.orderingChannel [] (p :: l.orderingList p.orderingChannel)).isWaitedFor
          p.orderingChannel q = l.isWaitedFor p.orderingChannel q := by
        simp [isWaitedFor, putOut]
      rw [hindex]
      obtain rfl | hold := List.mem_cons.mp hq
      · exact hp
      · exact hlist q hold

/-! ### Pieces of messages -/

/-- The newest unreliable part of reliable ones. -/
theorem foldl_newest_none (list : List InternalPacket)
    (hreliable : ∀ q ∈ list, q.reliability.isReliable) :
    list.foldl (fun newest p =>
      if !p.reliability.isReliable && (newest.elim 0 Prod.fst) ≤ p.creationTime then
        some (p.creationTime, p.orderingIndex)
      else newest) (none : Option (UInt32 × UInt8)) = none := by
  induction list with
  | nil => rfl
  | cons q rest ih =>
    rw [List.foldl_cons, if_neg (by simp [hreliable q List.mem_cons_self])]
    exact ih fun q' hq' => hreliable q' (List.mem_cons_of_mem q hq')

/-- Deleting old unreliable parts leaves the list alone when there are none. -/
theorem deleteOldUnreliableSplitPackets_spec (l : ReliabilityLayer) (time : UInt32) :
    ∃ list, l.deleteOldUnreliableSplitPackets time = { l with splitPacketList := list } ∧
      list.Subperm l.splitPacketList ∧
      ((∀ q ∈ l.splitPacketList, q.reliability.isReliable) → list = l.splitPacketList) := by
  have hnone := foldl_newest_none l.splitPacketList
  unfold deleteOldUnreliableSplitPackets
  generalize l.splitPacketList.foldl _ (none : Option (UInt32 × UInt8)) = newest at *
  cases newest with
  | none => exact ⟨l.splitPacketList, rfl, .refl _, fun _ => rfl⟩
  | some newest =>
    dsimp only
    split
    · refine ⟨_, rfl, ?_, fun hreliable => absurd (hnone hreliable) (Option.some_ne_none _)⟩
      exact (swapRemove_perm _ le_rfl).subperm.trans List.filter_sublist.subperm
    · exact ⟨l.splitPacketList, rfl, .refl _, fun _ => rfl⟩

/-- The list of parts once a piece of a message came: only parts of that message have changed. -/
structure Relisted (old : List InternalPacket) (p m : InternalPacket) (mtuSize : ℕ)
    (list : List InternalPacket) : Prop where
  subperm : m.IsSplit mtuSize → list.Subperm (old ++ [p])
  whole : ¬ m.IsSplit mtuSize → list = old
  others : ∀ q ∈ old, q.splitPacketId ≠ m.splitPacketId → q ∈ list

/-- The list of parts stays as it is. -/
theorem Relisted.refl (old : List InternalPacket) (p m : InternalPacket) (mtuSize : ℕ) :
    Relisted old p m mtuSize old :=
  ⟨fun _ => (List.sublist_append_left old [p]).subperm, fun _ => rfl, fun _ hq _ => hq⟩

/-- What a layer is after a piece of a message was handled. -/
inductive Handled (l : ReliabilityLayer) (p m : InternalPacket) (mtuSize : ℕ) :
    ReliabilityLayer → Prop
  /-- A message that is not ordered is put out, dropped or still in parts. -/
  | unordered (list out : List InternalPacket) (sequenced : ℕ → UInt32)
    (hkind : m.reliability ≠ .reliableOrdered) (hlist : Relisted l.splitPacketList p m mtuSize list)
    (hout : ∀ q ∈ out, q.reliability ≠ .reliableOrdered) :
    Handled l p m mtuSize
      { l with
        splitPacketList := list
        outputQueue := l.outputQueue ++ out
        waitingForSequencedPacketReadIndex := sequenced }
  /-- Parts of an ordered message are still missing. -/
  | parts (hkind : m.reliability = .reliableOrdered) (hsplit : m.IsSplit mtuSize)
    (hmissing : (l.partsWith p).length ≠ splitCount m mtuSize) :
    Handled l p m mtuSize { l with splitPacketList := l.splitPacketList ++ [p] }
  /-- An ordered message is there. -/
  | ordered {list : List InternalPacket} {q : InternalPacket}
    (hkind : m.reliability = .reliableOrdered) (hstands : q.StandsFor m)
    (hwhole : ¬ m.IsSplit mtuSize → list = l.splitPacketList)
    (hlist : m.IsSplit mtuSize →
      list.Perm (l.splitPacketList.filter fun q => !decide (q.splitPacketId = m.splitPacketId)))
    (hdata : (m.IsSplit mtuSize →
      AssertSplitCount m mtuSize ∧ (l.partsWith p).Pairwise DistinctParts) → q.data = m.data) :
    Handled l p m mtuSize ({ l with splitPacketList := list }.handleOrdered q)

/-- Putting a message together takes away its parts at most. -/
theorem subperm_of_parts {list : List InternalPacket}
    (hwhole : ¬ m.IsSplit mtuSize → list = l.splitPacketList)
    (hlist : m.IsSplit mtuSize →
      list.Perm (l.splitPacketList.filter fun q => !decide (q.splitPacketId = m.splitPacketId))) :
    list.Subperm l.splitPacketList := by
  by_cases hsplit : m.IsSplit mtuSize
  · exact (hlist hsplit).subperm.trans List.filter_sublist.subperm
  · exact hwhole hsplit ▸ .refl _

/-- A message that is not ordered may put nothing out. -/
theorem Handled.nothing (hkind : m.reliability ≠ .reliableOrdered) {list : List InternalPacket}
    (hlist : Relisted l.splitPacketList p m mtuSize list) :
    Handled l p m mtuSize { l with splitPacketList := list } := by
  have h := Handled.unordered (l := l) list [] l.waitingForSequencedPacketReadIndex hkind hlist nofun
  rwa [List.append_nil] at h

/-- A part is collected. -/
theorem Collected.relisted {result : ReliabilityLayer × Option InternalPacket}
    (h : Collected l p m mtuSize result) (hsplit : m.IsSplit mtuSize) :
    Relisted l.splitPacketList p m mtuSize result.1.splitPacketList := by
  cases h with
  | waiting hmissing =>
    exact ⟨fun _ => .refl _, fun hwhole => absurd hsplit hwhole,
      fun q hq _ => List.mem_append_left _ hq⟩
  | complete hlist hstands hdata =>
    refine ⟨fun _ => ?_, fun hwhole => absurd hsplit hwhole, fun q hq hid => ?_⟩
    · exact (hlist.subperm.trans List.filter_sublist.subperm).trans
        (List.sublist_append_left _ [p]).subperm
    · exact hlist.symm.subset (List.mem_filter.mpr ⟨hq, by simpa using hid⟩)

/-- What a sequenced or unordered packet comes to. -/
theorem handleSequenced_spec (hp : p.IsPieceOf m mtuSize) (hkind : m.reliability ≠ .reliableOrdered)
    (hcollect : m.IsSplit mtuSize → ∀ time, Collected l p m mtuSize (l.collectSplitPacket p time))
    (time : UInt32) : Handled l p m mtuSize (l.handleSequenced p time) := by
  have hdrop : Handled l p m mtuSize l := .nothing hkind (.refl l.splitPacketList p m mtuSize)
  unfold handleSequenced
  split
  · exact hdrop
  split
  · exact hdrop
  by_cases hsplit : m.IsSplit mtuSize
  · have hcount := hp.splitPacketIndex hsplit
    have hcollected := hcollect hsplit time
    have hrelisted := hcollected.relisted hsplit
    rw [if_pos (by omega)]
    generalize l.collectSplitPacket p time = result at *
    cases hcollected with
    | waiting hmissing => exact .nothing hkind hrelisted
    | complete hlist hstands hdata =>
      refine .unordered _ [_] _ hkind hrelisted ?_
      rintro q hq
      rw [List.mem_singleton.mp hq, hstands.reliability]
      exact hkind
  · rw [if_neg (by rw [(hp.whole hsplit).1]; decide)]
    refine .unordered l.splitPacketList [p] _ hkind (.refl l.splitPacketList p m mtuSize) ?_
    rintro q hq
    rw [List.mem_singleton.mp hq, hp.reliability]
    exact hkind

/-- A whole message is handled the same way, whether it came in parts or not. -/
theorem handleWhole_spec {q : InternalPacket} {list : List InternalPacket} (hstands : q.StandsFor m)
    (hwhole : ¬ m.IsSplit mtuSize → list = l.splitPacketList)
    (hlist : m.IsSplit mtuSize →
      list.Perm (l.splitPacketList.filter fun q => !decide (q.splitPacketId = m.splitPacketId)))
    (hrelisted : Relisted l.splitPacketList p m mtuSize list)
    (hdata : m.reliability = .reliableOrdered → (m.IsSplit mtuSize →
      AssertSplitCount m mtuSize ∧ (l.partsWith p).Pairwise DistinctParts) → q.data = m.data) :
    Handled l p m mtuSize ({ l with splitPacketList := list }.handleWhole q) := by
  unfold handleWhole
  by_cases hkind : m.reliability = .reliableOrdered
  · rw [if_pos (hstands.reliability.trans hkind)]
    exact .ordered hkind hstands hwhole hlist (hdata hkind)
  · rw [if_neg (hstands.reliability ▸ hkind)]
    refine .unordered list [q] l.waitingForSequencedPacketReadIndex hkind hrelisted ?_
    intro q' hq'
    rw [List.mem_singleton.mp hq', hstands.reliability]
    exact hkind

/-- Old unreliable parts are deleted when another part comes. -/
theorem deleteOld_of_part (l : ReliabilityLayer) (p : InternalPacket) (time : UInt32) :
    ∃ list, (if 0 < p.splitPacketCount then l.deleteOldUnreliableSplitPackets time else l) =
        { l with splitPacketList := list } ∧ list.Subperm l.splitPacketList ∧
      ((∀ q ∈ l.splitPacketList, q.reliability.isReliable) → list = l.splitPacketList) ∧
      (0 < p.splitPacketCount →
        list = (l.deleteOldUnreliableSplitPackets time).splitPacketList) := by
  split
  · obtain ⟨list, heq, hsub, hsame⟩ := l.deleteOldUnreliableSplitPackets_spec time
    exact ⟨list, heq, hsub, hsame, fun _ => by rw [heq]⟩
  · rename_i hcount
    exact ⟨l.splitPacketList, rfl, .refl _, fun _ => rfl, fun h => absurd h hcount⟩

/-- A packet that is a piece of a message, behind the duplicate filter. -/
theorem handlePacket_spec {sent : List InternalPacket} (hlist : ArePartsOf l.splitPacketList sent mtuSize)
    (hids : IdsDiffer sent mtuSize) (hm : m ∈ sent) (hp : p.IsPieceOf m mtuSize)
    (hblock : 0 < maximumSendBlock m mtuSize) (time : UInt32) :
    ∃ list, list.Subperm l.splitPacketList ∧
      ((∀ q ∈ l.splitPacketList, q.reliability.isReliable) → list = l.splitPacketList) ∧
      (0 < p.splitPacketCount → list = (l.deleteOldUnreliableSplitPackets time).splitPacketList) ∧
      Handled { l with splitPacketList := list } p m mtuSize (l.handlePacket p time) := by
  obtain ⟨list, hlayer, hsub, hsame, hdeleted⟩ := l.deleteOld_of_part p time
  refine ⟨list, hsub, hsame, hdeleted, ?_⟩
  unfold handlePacket
  rw [hlayer]
  have hparts : ArePartsOf list sent mtuSize := fun q hq => hlist q (hsub.subset hq)
  have hcollect : m.IsSplit mtuSize → ∀ time,
      Collected { l with splitPacketList := list } p m mtuSize
        (ReliabilityLayer.collectSplitPacket { l with splitPacketList := list } p time) :=
    fun hsplit time => collectSplitPacket_spec hparts hids hm hsplit hp hblock time
  generalize ({ l with splitPacketList := list } : ReliabilityLayer) = l at *
  dsimp only
  by_cases hsequenced : p.reliability = .reliableSequenced ∨ p.reliability = .unreliableSequenced
  · rw [if_pos hsequenced]
    refine handleSequenced_spec hp ?_ hcollect time
    rw [← hp.reliability]
    rcases hsequenced with h | h <;> rw [h] <;> decide
  rw [if_neg hsequenced]
  by_cases hsplit : m.IsSplit mtuSize
  · have hcount := hp.splitPacketIndex hsplit
    have hcollected := hcollect hsplit time
    have hrelisted := hcollected.relisted hsplit
    rw [if_pos (by omega)]
    generalize l.collectSplitPacket p time = result at *
    cases hcollected with
    | waiting hmissing =>
      by_cases hkind : m.reliability = .reliableOrdered
      · exact .parts hkind hsplit hmissing
      · exact .nothing hkind hrelisted
    | complete hlist hstands hdata =>
      exact handleWhole_spec hstands (fun h => absurd hsplit h) (fun _ => hlist) hrelisted
        fun hordered hparts => hdata hordered (hparts hsplit).1 (hparts hsplit).2
  · rw [if_neg (by rw [(hp.whole hsplit).1]; decide)]
    exact handleWhole_spec hp.standsFor (fun _ => rfl) (fun h => absurd h hsplit)
      (.refl _ p m mtuSize) fun _ _ => (hp.whole hsplit).2

/-! ### What a received packet leaves alone -/

/-- The part of a layer that sending changes, and the log of received packets. -/
def outgoing (l : ReliabilityLayer) :=
  (l.sendQueue, l.resendQueue, l.acknowledgementQueue, l.counters, l.receivedPackets)

/-- Releasing ordered packets sends nothing. -/
theorem outgoing_popOrderingList (l : ReliabilityLayer) (channel turns : ℕ) :
    (l.popOrderingList channel turns).outgoing = l.outgoing := by
  induction turns generalizing l with
  | zero => rfl
  | succ turns ih =>
    rw [popOrderingList]
    split
    · rfl
    · exact (ih _).trans rfl

/-- Taking a whole message sends nothing. -/
theorem outgoing_handleWhole (l : ReliabilityLayer) (p : InternalPacket) :
    (l.handleWhole p).outgoing = l.outgoing := by
  unfold handleWhole handleOrdered
  split
  · split
    · rfl
    · split
      · exact (outgoing_popOrderingList _ _ _).trans rfl
      · rfl
  · rfl

/-- Collecting a part sends nothing. -/
theorem outgoing_collectSplitPacket (l : ReliabilityLayer) (p : InternalPacket) (time : UInt32) :
    (l.collectSplitPacket p time).1.outgoing = l.outgoing := by
  obtain ⟨first, -, heq⟩ := collectSplitPacket_eq l p time
  rw [heq]
  split <;> rfl

/-- Taking a sequenced packet sends nothing. -/
theorem outgoing_handleSequenced (l : ReliabilityLayer) (p : InternalPacket) (time : UInt32) :
    (l.handleSequenced p time).outgoing = l.outgoing := by
  have hcollect := outgoing_collectSplitPacket l p time
  unfold handleSequenced
  split
  · rfl
  split
  · rfl
  split
  · generalize l.collectSplitPacket p time = result at *
    obtain ⟨l', q⟩ := result
    cases q with
    | none => exact hcollect
    | some q => exact hcollect
  · rfl

/-- Handling a packet changes nothing that is sent. -/
theorem outgoing_handlePacket (l : ReliabilityLayer) (p : InternalPacket) (time : UInt32) :
    (l.handlePacket p time).outgoing = l.outgoing := by
  have hdelete :
      (if 0 < p.splitPacketCount then l.deleteOldUnreliableSplitPackets time else l).outgoing =
        l.outgoing := by
    obtain ⟨list, heq, -⟩ := l.deleteOld_of_part p time
    rw [heq]
    rfl
  unfold handlePacket
  generalize (if 0 < p.splitPacketCount then l.deleteOldUnreliableSplitPackets time else l) = l' at *
  dsimp only
  split
  · exact (outgoing_handleSequenced l' p time).trans hdelete
  split
  · have hcollect := outgoing_collectSplitPacket l' p time
    generalize l'.collectSplitPacket p time = result at *
    obtain ⟨l'', q⟩ := result
    cases q with
    | none => exact hcollect.trans hdelete
    | some q => exact (outgoing_handleWhole l'' q).trans (hcollect.trans hdelete)
  · exact (outgoing_handleWhole l' p).trans hdelete

/-! ### Datagrams -/

/-- What a packet in a datagram does: it is acknowledged, and handled if it is new. -/
theorem handleEntry_packet (l : ReliabilityLayer) (p : InternalPacket) (time : UInt32) :
    ∃ queue, (∀ a ∈ queue, a ∈ l.acknowledgementQueue ∨ a.1 = p.packetNumber) ∧
      ((p.packetNumber < receivedPacketLogLength → l.isDuplicate p time = true) ∧
          (l.handleEntry (.packet p) time).1 = { l with acknowledgementQueue := queue } ∨
        p.packetNumber < receivedPacketLogLength ∧ l.isDuplicate p time = false ∧
          (l.handleEntry (.packet p) time).1 = handlePacket
            { l with
              acknowledgementQueue := queue
              receivedPackets := Function.update l.receivedPackets p.packetNumber time }
            p time) := by
  have hacks : ∃ queue, (if p.reliability.isReliable then
      l.sendAcknowledgementPacket p.packetNumber time else l) =
        { l with acknowledgementQueue := queue } ∧
      ∀ a ∈ queue, a ∈ l.acknowledgementQueue ∨ a.1 = p.packetNumber := by
    split
    · refine ⟨_, rfl, fun a ha => (List.mem_append.mp ha).imp_right fun hnew => ?_⟩
      rw [List.mem_singleton.mp hnew]
    · exact ⟨l.acknowledgementQueue, rfl, fun a ha => .inl ha⟩
  obtain ⟨queue, heq, hqueue⟩ := hacks
  refine ⟨queue, hqueue, ?_⟩
  unfold handleEntry
  simp only [heq]
  split
  · rename_i hnumber
    exact .inl ⟨fun hlt => absurd hlt (Nat.not_lt_of_le hnumber), rfl⟩
  split
  · rename_i hduplicate
    exact .inl ⟨fun _ => hduplicate, rfl⟩
  · rename_i hnumber hduplicate
    exact .inr ⟨Nat.lt_of_not_le hnumber, Bool.eq_false_of_not_eq_true hduplicate, rfl⟩

/-- A condition on every entry of a datagram and the layer it meets. -/
def AlongEntries (ok : ReliabilityLayer → FrameEntry → Prop) (time : UInt32) :
    ReliabilityLayer → List FrameEntry → Prop
  | _, [] => True
  | l, entry :: rest =>
    ok l entry ∧ ((l.handleEntry entry time).2 = true →
      AlongEntries ok time (l.handleEntry entry time).1 rest)

/-- Along concrete datagrams a decidable condition can be evaluated. -/
def decidableAlongEntries {ok : ReliabilityLayer → FrameEntry → Prop}
    [∀ l entry, Decidable (ok l entry)] (time : UInt32) :
    (l : ReliabilityLayer) → (entries : List FrameEntry) → Decidable (AlongEntries ok time l entries)
  | _, [] => .isTrue trivial
  | l, entry :: rest =>
    have _ : Decidable (AlongEntries ok time (l.handleEntry entry time).1 rest) :=
      decidableAlongEntries time (l.handleEntry entry time).1 rest
    inferInstanceAs (Decidable (ok l entry ∧ ((l.handleEntry entry time).2 = true →
      AlongEntries ok time (l.handleEntry entry time).1 rest)))

instance {ok : ReliabilityLayer → FrameEntry → Prop} [∀ l entry, Decidable (ok l entry)]
    (time : UInt32) (l : ReliabilityLayer) (entries : List FrameEntry) :
    Decidable (AlongEntries ok time l entries) :=
  decidableAlongEntries time l entries

/-- What every entry keeps a datagram keeps. -/
theorem handleSocketReceive_invariant (ok : ReliabilityLayer → FrameEntry → Prop)
    (Inv : ReliabilityLayer → Prop) {datagram : List UInt8} {time : UInt32}
    (hentry : ∀ l entry, entry ∈ parseDatagram datagram time → Inv l → ok l entry →
      Inv (l.handleEntry entry time).1)
    (hwindow : ∀ l acks, Inv l → Inv (l.increaseWindow acks time)) (hl : Inv l)
    (hok : AlongEntries ok time l (parseDatagram datagram time)) :
    Inv (l.handleSocketReceive datagram time) := by
  have hentries : ∀ entries, (∀ entry ∈ entries, entry ∈ parseDatagram datagram time) →
      ∀ l, Inv l → AlongEntries ok time l entries → Inv (l.handleEntries time entries).1 := by
    intro entries hmem
    induction entries with
    | nil => exact fun l hl _ => hl
    | cons entry rest ih =>
      intro l hl hok
      have hfirst := hentry l entry (hmem entry List.mem_cons_self) hl hok.1
      have hrest := hok.2
      rw [handleEntries]
      generalize l.handleEntry entry time = result at *
      obtain ⟨l', continues⟩ := result
      cases continues with
      | false => exact hfirst
      | true => exact ih (fun e he => hmem e (List.mem_cons_of_mem entry he)) l' hfirst (hrest rfl)
  have hall := hentries (parseDatagram datagram time) (fun _ h => h) l hl hok
  unfold handleSocketReceive
  split
  · exact hl
  · dsimp only
    generalize l.handleEntries time (parseDatagram datagram time) = result at *
    obtain ⟨l', continues⟩ := result
    cases continues with
    | false => exact hall
    | true => exact hwindow l' _ hall

/-- What is always true holds along all entries. -/
theorem alongEntries_true (l : ReliabilityLayer) (entries : List FrameEntry) (time : UInt32) :
    AlongEntries (fun _ _ => True) time l entries := by
  induction entries generalizing l with
  | nil => trivial
  | cons entry rest ih => exact ⟨trivial, fun _ => ih _⟩

end ReliabilityLayer

end Multicrew.Transport
