import Multicrew.Transport.ReliabilityLayer

/-!
# What a frame takes from the queues

A frame is written into a bit stream while packets leave one queue and enter another. Said once for
all loops of `GenerateFrame`: what is written comes from the queues, no reliable packet leaves them,
and the receiving side of the layer is not touched.
-/

namespace Multicrew.Transport

open Multicrew.Library

namespace BitStream

/-- Entries are written one after the other. -/
theorem writeEntries_append (s : BitStream) (first later : List FrameEntry) :
    s.writeEntries (first ++ later) = (s.writeEntries first).writeEntries later :=
  List.foldl_append

end BitStream

namespace InternalPacket

/-- What the wire carries of a packet. -/
def wire (p : InternalPacket) : InternalPacket := p.received 0

end InternalPacket

namespace ReliabilityLayer

/-- The part of a layer that received packets change. -/
def incoming (l : ReliabilityLayer) :=
  (l.outputQueue, l.splitPacketList, l.orderingList, l.waitingForOrderedPacketReadIndex,
    l.waitingForSequencedPacketReadIndex, l.receivedPackets)

/-- The counters that sending a message changes. -/
def counters (l : ReliabilityLayer) :=
  (l.packetNumber, l.splitPacketId, l.waitingForOrderedPacketWriteIndex,
    l.waitingForSequencedPacketWriteIndex)

/-- A packet with these fields waits to be sent, for the first time or again. -/
def Outgoing (l : ReliabilityLayer) (w : InternalPacket) : Prop :=
  (∃ priority, ∃ p ∈ l.sendQueue priority, p.wire = w) ∨ ∃ p, some p ∈ l.resendQueue ∧ p.wire = w

/-- A layer before and after these entries are written to a frame. -/
structure FrameStep (l l' : ReliabilityLayer) (entries : List FrameEntry) : Prop where
  incoming : l'.incoming = l.incoming
  counters : l'.counters = l.counters
  acknowledgements : ∀ a ∈ l'.acknowledgementQueue, a ∈ l.acknowledgementQueue
  acknowledged : ∀ n, .acknowledgement n ∈ entries → ∃ due, (n, due) ∈ l.acknowledgementQueue
  written : ∀ p, .packet p ∈ entries → l.Outgoing p.wire
  outgoing : ∀ w, l'.Outgoing w → l.Outgoing w
  kept : ∀ w, w.reliability.isReliable → l.Outgoing w → l'.Outgoing w

/-- Nothing is written. -/
theorem FrameStep.refl (l : ReliabilityLayer) : FrameStep l l [] :=
  ⟨rfl, rfl, fun _ h => h, fun _ h => absurd h List.not_mem_nil, fun _ h => absurd h List.not_mem_nil,
    fun _ h => h, fun _ _ h => h⟩

/-- One part of a frame is written, then another. -/
theorem FrameStep.trans {l l' l'' : ReliabilityLayer} {first second : List FrameEntry}
    (h : FrameStep l l' first) (h' : FrameStep l' l'' second) :
    FrameStep l l'' (first ++ second) where
  incoming := h'.incoming.trans h.incoming
  counters := h'.counters.trans h.counters
  acknowledgements a ha := h.acknowledgements a (h'.acknowledgements a ha)
  acknowledged n hn := by
    cases List.mem_append.mp hn with
    | inl hfirst => exact h.acknowledged n hfirst
    | inr hsecond =>
      obtain ⟨due, hdue⟩ := h'.acknowledged n hsecond
      exact ⟨due, h.acknowledgements _ hdue⟩
  written p hp := by
    cases List.mem_append.mp hp with
    | inl hfirst => exact h.written p hfirst
    | inr hsecond => exact h.outgoing _ (h'.written p hsecond)
  outgoing w hw := h.outgoing w (h'.outgoing w hw)
  kept w hrel hw := h'.kept w hrel (h.kept w hrel hw)

variable {l : ReliabilityLayer} {maxDataBitSize : ℕ} {time : UInt32}

/-- Changes of windows and times alone write nothing. -/
theorem frameStep_updatePacketloss (l : ReliabilityLayer) (time : UInt32) :
    FrameStep l (l.updatePacketloss time) [] :=
  ⟨rfl, rfl, fun _ h => h, fun _ h => absurd h List.not_mem_nil, fun _ h => absurd h List.not_mem_nil,
    fun _ h => h, fun _ _ h => h⟩

variable (maxDataBitSize) in
/-- The acknowledgements written are the first ones of the queue and leave it. -/
theorem writeAcknowledgements_step (queue : List (ℕ × UInt32)) (output : BitStream) :
    ∃ numbers, (writeAcknowledgements maxDataBitSize queue output).1 =
        output.writeEntries (numbers.map FrameEntry.acknowledgement) ∧
      queue.map Prod.fst =
        numbers ++ (writeAcknowledgements maxDataBitSize queue output).2.1.map Prod.fst ∧
      (writeAcknowledgements maxDataBitSize queue output).2.1 <:+ queue := by
  induction queue generalizing output with
  | nil => exact ⟨[], rfl, rfl, List.suffix_refl _⟩
  | cons a rest ih =>
    obtain ⟨n, due⟩ := a
    rw [writeAcknowledgements]
    split
    · exact ⟨[n], rfl, rfl, List.suffix_cons _ _⟩
    · obtain ⟨numbers, hout, hqueue, hsuffix⟩ := ih (output.writeEntry (.acknowledgement n))
      refine ⟨n :: numbers, hout, ?_, hsuffix.trans (List.suffix_cons _ _)⟩
      rw [List.map_cons, List.cons_append, hqueue]

variable (maxDataBitSize) in
/-- So are those at the end of a frame. -/
theorem appendAcknowledgements_step (queue : List (ℕ × UInt32)) (output : BitStream) :
    ∃ numbers, (appendAcknowledgements maxDataBitSize queue output).1 =
        output.writeEntries (numbers.map FrameEntry.acknowledgement) ∧
      queue.map Prod.fst =
        numbers ++ (appendAcknowledgements maxDataBitSize queue output).2.map Prod.fst ∧
      (appendAcknowledgements maxDataBitSize queue output).2 <:+ queue := by
  induction queue generalizing output with
  | nil => exact ⟨[], rfl, rfl, List.suffix_refl _⟩
  | cons a rest ih =>
    obtain ⟨n, due⟩ := a
    rw [appendAcknowledgements]
    split
    · obtain ⟨numbers, hout, hqueue, hsuffix⟩ := ih (output.writeEntry (.acknowledgement n))
      refine ⟨n :: numbers, hout, ?_, hsuffix.trans (List.suffix_cons _ _)⟩
      rw [List.map_cons, List.cons_append, hqueue]
    · exact ⟨[], rfl, rfl, List.suffix_refl _⟩

/-- Acknowledgements that leave the queue are what a frame writes of it. -/
theorem frameStep_acknowledgements {queue : List (ℕ × UInt32)} {numbers : List ℕ}
    (hqueue : l.acknowledgementQueue.map Prod.fst = numbers ++ queue.map Prod.fst)
    (hsuffix : queue <:+ l.acknowledgementQueue) :
    FrameStep l { l with acknowledgementQueue := queue }
      (numbers.map FrameEntry.acknowledgement) where
  incoming := rfl
  counters := rfl
  acknowledgements a ha := hsuffix.subset ha
  acknowledged n hn := by
    obtain ⟨m, hm, heq⟩ := List.mem_map.mp hn
    obtain rfl := FrameEntry.acknowledgement.inj heq
    have hin : m ∈ l.acknowledgementQueue.map Prod.fst :=
      hqueue ▸ List.mem_append_left _ hm
    obtain ⟨a, ha, rfl⟩ := List.mem_map.mp hin
    exact ⟨a.2, ha⟩
  written p hp := by
    obtain ⟨m, -, heq⟩ := List.mem_map.mp hp
    cases heq
  outgoing w hw := hw
  kept w _ hw := hw

/-- A hole leaves the resend queue. -/
theorem frameStep_hole {rest : List (Option InternalPacket)} (hqueue : l.resendQueue = none :: rest) :
    FrameStep l { l with resendQueue := rest } [] where
  incoming := rfl
  counters := rfl
  acknowledgements a ha := ha
  acknowledged n hn := absurd hn List.not_mem_nil
  written p hp := absurd hp List.not_mem_nil
  outgoing w hw := by
    refine hw.imp_right ?_
    rintro ⟨p, hp, rfl⟩
    exact ⟨p, hqueue ▸ List.mem_cons_of_mem none hp, rfl⟩
  kept w _ hw := by
    refine hw.imp_right ?_
    rintro ⟨p, hp, rfl⟩
    refine ⟨p, ?_, rfl⟩
    rw [hqueue] at hp
    simpa using hp

/-- A packet is sent again and goes to the end of the resend queue. -/
theorem frameStep_resend {p : InternalPacket} {rest : List (Option InternalPacket)}
    (hqueue : l.resendQueue = some p :: rest) (due : UInt32) :
    FrameStep l ({ l with resendQueue := rest }.insertPacketIntoResendQueue
      { p with nextActionTime := due } time) [.packet p] where
  incoming := rfl
  counters := rfl
  acknowledgements a ha := ha
  acknowledged n hn := by
    cases List.mem_singleton.mp hn
  written q hq := by
    obtain rfl := FrameEntry.packet.inj (List.mem_singleton.mp hq)
    exact .inr ⟨q, hqueue ▸ List.mem_cons_self, rfl⟩
  outgoing w hw := by
    refine hw.imp_right ?_
    rintro ⟨q, hq, rfl⟩
    cases List.mem_append.mp hq with
    | inl hrest => exact ⟨q, hqueue ▸ List.mem_cons_of_mem _ hrest, rfl⟩
    | inr hlast =>
      obtain rfl := Option.some.inj (List.mem_singleton.mp hlast)
      exact ⟨p, hqueue ▸ List.mem_cons_self, rfl⟩
  kept w _ hw := by
    refine hw.imp_right ?_
    rintro ⟨q, hq, rfl⟩
    rw [hqueue] at hq
    cases List.mem_cons.mp hq with
    | inl hfirst =>
      obtain rfl := Option.some.inj hfirst
      exact ⟨_, List.mem_append_right _ (List.mem_singleton_self _), rfl⟩
    | inr hrest => exact ⟨q, List.mem_append_left _ hrest, rfl⟩

variable (maxDataBitSize time) in
/-- The loop over the resend queue. -/
theorem resendPackets_step (l : ReliabilityLayer) (turns : ℕ) (output : BitStream) (lost : Bool) :
    ∃ entries, (l.resendPackets maxDataBitSize time turns output lost).2.1 =
        output.writeEntries entries ∧
      FrameStep l (l.resendPackets maxDataBitSize time turns output lost).1 entries := by
  induction turns generalizing l output lost with
  | zero => exact ⟨[], rfl, .refl l⟩
  | succ turns ih =>
    unfold resendPackets
    split
    · exact ⟨[], rfl, .refl l⟩
    · rename_i rest hqueue
      obtain ⟨entries, hout, hstep⟩ := ih { l with resendQueue := rest } output lost
      exact ⟨entries, hout, (frameStep_hole hqueue).trans hstep⟩
    · rename_i p rest hqueue
      split
      · split
        · exact ⟨[], rfl, .refl l⟩
        · obtain ⟨entries, hout, hstep⟩ := ih _ (output.writeEntry (.packet p)) true
          exact ⟨.packet p :: entries, hout, (frameStep_resend hqueue _).trans hstep⟩
      · exact ⟨[], rfl, .refl l⟩

variable (maxDataBitSize time) in
/-- The loop over a send queue: the packets it sends are the first ones of the queue, and the reliable
ones among them go to the resend queue. -/
theorem sendPackets_spec (l : ReliabilityLayer) (queue : List InternalPacket) (output : BitStream) :
    ∃ sent lastAckTime, queue = sent ++ (l.sendPackets maxDataBitSize time queue output).2.2 ∧
      (l.sendPackets maxDataBitSize time queue output).2.1 =
        output.writeEntries (sent.map FrameEntry.packet) ∧
      (l.sendPackets maxDataBitSize time queue output).1 =
        { l with
          lastAckTime
          resendQueue := l.resendQueue ++ (sent.filter fun p => p.reliability.isReliable).map fun p =>
            some { p with nextActionTime := time + l.lostPacketResendDelay } } := by
  induction queue generalizing l output with
  | nil => exact ⟨[], l.lastAckTime, rfl, rfl, by simp [sendPackets]⟩
  | cons p rest ih =>
    rw [sendPackets]
    split
    · exact ⟨[], l.lastAckTime, rfl, rfl, by simp⟩
    · by_cases hrel : p.reliability.isReliable
      · simp only [if_pos hrel]
        obtain ⟨sent, lastAckTime, hqueue, hout, hlayer⟩ := ih
          (l.insertPacketIntoResendQueue { p with nextActionTime := time + l.lostPacketResendDelay } time)
          (output.writeEntry (.packet p))
        refine ⟨p :: sent, lastAckTime, congrArg (p :: ·) hqueue, hout, ?_⟩
        rw [hlayer, List.filter_cons_of_pos (by exact hrel)]
        simp [insertPacketIntoResendQueue]
      · simp only [if_neg hrel]
        obtain ⟨sent, lastAckTime, hqueue, hout, hlayer⟩ := ih l (output.writeEntry (.packet p))
        refine ⟨p :: sent, lastAckTime, congrArg (p :: ·) hqueue, hout, ?_⟩
        rw [hlayer, List.filter_cons_of_neg (by exact hrel)]

variable (maxDataBitSize time) in
/-- One send queue. -/
theorem frameStep_sendPackets (l : ReliabilityLayer) (priority : PacketPriority)
    (output : BitStream) :
    ∃ entries,
      (l.sendPackets maxDataBitSize time (l.sendQueue priority) output).2.1 =
        output.writeEntries entries ∧
      FrameStep l
        { (l.sendPackets maxDataBitSize time (l.sendQueue priority) output).1 with
          sendQueue := Function.update
            (l.sendPackets maxDataBitSize time (l.sendQueue priority) output).1.sendQueue priority
            (l.sendPackets maxDataBitSize time (l.sendQueue priority) output).2.2 } entries := by
  obtain ⟨sent, lastAckTime, hqueue, hout, hlayer⟩ :=
    sendPackets_spec maxDataBitSize time l (l.sendQueue priority) output
  generalize l.sendPackets maxDataBitSize time (l.sendQueue priority) output = result at *
  refine ⟨sent.map FrameEntry.packet, hout, ?_⟩
  have hrest : ∀ priority', ∀ p ∈ Function.update l.sendQueue priority result.2.2 priority',
      p ∈ l.sendQueue priority' := by
    intro priority' p hp
    by_cases heq : priority' = priority
    · subst heq
      rw [Function.update_self] at hp
      exact hqueue ▸ List.mem_append_right _ hp
    · rwa [Function.update_of_ne heq] at hp
  have hqueued : ∀ priority', ∀ p ∈ l.sendQueue priority',
      p ∈ sent ∨ p ∈ Function.update l.sendQueue priority result.2.2 priority' := by
    intro priority' p hp
    by_cases heq : priority' = priority
    · subst heq
      rw [Function.update_self]
      exact List.mem_append.mp (hqueue ▸ hp)
    · rw [Function.update_of_ne heq]
      exact .inr hp
  have hsent : ∀ p ∈ sent, l.Outgoing p.wire := fun p hp =>
    .inl ⟨priority, p, hqueue ▸ List.mem_append_left _ hp, rfl⟩
  rw [hlayer]
  exact
    { incoming := rfl
      counters := rfl
      acknowledgements := fun a ha => ha
      acknowledged := fun n hn => by
        obtain ⟨p, -, heq⟩ := List.mem_map.mp hn
        cases heq
      written := fun p hp => by
        obtain ⟨q, hq, heq⟩ := List.mem_map.mp hp
        exact FrameEntry.packet.inj heq ▸ hsent q hq
      outgoing := by
        rintro w (⟨priority', p, hp, rfl⟩ | ⟨p, hp, rfl⟩)
        · exact .inl ⟨priority', p, hrest priority' p hp, rfl⟩
        · cases List.mem_append.mp hp with
          | inl hold => exact .inr ⟨p, hold, rfl⟩
          | inr hnew =>
            obtain ⟨q, hq, heq⟩ := List.mem_map.mp hnew
            obtain rfl := Option.some.inj heq
            exact hsent q (List.mem_of_mem_filter hq)
      kept := by
        rintro w hrel (⟨priority', p, hp, rfl⟩ | ⟨p, hp, rfl⟩)
        · cases hqueued priority' p hp with
          | inl hfirst =>
            exact .inr ⟨_, List.mem_append_right _ (List.mem_map.mpr
              ⟨p, List.mem_filter.mpr ⟨hfirst, hrel⟩, rfl⟩), rfl⟩
          | inr hlater => exact .inl ⟨priority', p, hlater, rfl⟩
        · exact .inr ⟨p, List.mem_append_left _ hp, rfl⟩ }

variable (maxDataBitSize time) in
/-- The send queues, one after the other. -/
theorem sendQueues_step (l : ReliabilityLayer) (priorities : List PacketPriority)
    (output : BitStream) :
    ∃ entries, (l.sendQueues maxDataBitSize time priorities output).2 = output.writeEntries entries ∧
      FrameStep l (l.sendQueues maxDataBitSize time priorities output).1 entries := by
  induction priorities generalizing l output with
  | nil => exact ⟨[], rfl, .refl l⟩
  | cons priority rest ih =>
    obtain ⟨first, hfirst, hstep⟩ := frameStep_sendPackets maxDataBitSize time l
      priority output
    rw [sendQueues]
    generalize l.sendPackets maxDataBitSize time (l.sendQueue priority) output = result at *
    obtain ⟨l', output', queue⟩ := result
    obtain ⟨later, hlater, hrest⟩ :=
      ih { l' with sendQueue := Function.update l'.sendQueue priority queue } output'
    refine ⟨first ++ later, ?_, hstep.trans hrest⟩
    simp only at hfirst ⊢
    rw [hlater, hfirst, BitStream.writeEntries_append]

/-- What `GenerateFrame` writes behind the acknowledgements at the beginning. -/
theorem generatePackets_step (l : ReliabilityLayer) (maxDataBitSize : ℕ) (time : UInt32)
    (acknowledgementPacketsSent : Bool) (output : BitStream) :
    ∃ entries,
      (l.generatePackets maxDataBitSize time acknowledgementPacketsSent output).2 =
        output.writeEntries entries ∧
      FrameStep l (l.generatePackets maxDataBitSize time acknowledgementPacketsSent output).1
        entries := by
  obtain ⟨again, hagain, hstep⟩ := resendPackets_step maxDataBitSize time l
    (maxDataBitSize + l.resendQueue.length + 1) output false
  unfold generatePackets
  generalize l.resendPackets maxDataBitSize time (maxDataBitSize + l.resendQueue.length + 1) output
    false = result at *
  obtain ⟨resent, output', anyPacketsLost, full⟩ := result
  have hloss : FrameStep l (if anyPacketsLost then resent.updatePacketloss time else resent)
      again := by
    split
    · have htrans := hstep.trans (frameStep_updatePacketloss resent time)
      rwa [List.append_nil] at htrans
    · exact hstep
  simp only at hagain hloss ⊢
  generalize (if anyPacketsLost then resent.updatePacketloss time else resent) = lossy at *
  split
  · exact ⟨again, hagain, hloss⟩
  · obtain ⟨new, hnew, hsent⟩ := sendQueues_step maxDataBitSize time lossy
      [.system, .high, .medium, .low] output'
    generalize lossy.sendQueues maxDataBitSize time [.system, .high, .medium, .low] output' =
      result at *
    obtain ⟨sent, output''⟩ := result
    have hpackets : output'' = output.writeEntries (again ++ new) := by
      rw [BitStream.writeEntries_append, ← hagain]
      exact hnew
    simp only at hsent ⊢
    split
    · exact ⟨again ++ new, hpackets, hloss.trans hsent⟩
    · obtain ⟨numbers, hacks, hqueue, hsuffix⟩ := appendAcknowledgements_step
        maxDataBitSize sent.acknowledgementQueue output''
      refine ⟨again ++ new ++ numbers.map FrameEntry.acknowledgement, ?_,
        (hloss.trans hsent).trans (frameStep_acknowledgements hqueue hsuffix)⟩
      rw [BitStream.writeEntries_append, ← hpackets]
      exact hacks

/-- A frame is written from the queues: `GenerateFrame`. -/
theorem generateFrame_step (l : ReliabilityLayer) (output : BitStream) (mtuSize : ℕ)
    (time : UInt32) :
    ∃ entries, (l.generateFrame output mtuSize time).2 = output.writeEntries entries ∧
      FrameStep l (l.generateFrame output mtuSize time).1 entries := by
  unfold generateFrame
  dsimp only
  split
  · obtain ⟨numbers, hacks, hqueue, hsuffix⟩ := writeAcknowledgements_step
      (8 * (mtuSize - udpHeaderSize)) l.acknowledgementQueue output
    have hstep := frameStep_acknowledgements hqueue hsuffix
    generalize writeAcknowledgements (8 * (mtuSize - udpHeaderSize)) l.acknowledgementQueue output =
      result at *
    obtain ⟨output', queue, full⟩ := result
    simp only at hacks hstep ⊢
    split
    · exact ⟨_, hacks, hstep⟩
    · obtain ⟨entries, hout, hrest⟩ := generatePackets_step { l with acknowledgementQueue := queue }
        (8 * (mtuSize - udpHeaderSize)) time true output'
      refine ⟨numbers.map FrameEntry.acknowledgement ++ entries, ?_, hstep.trans hrest⟩
      rw [BitStream.writeEntries_append, ← hacks]
      exact hout
  · exact generatePackets_step l (8 * (mtuSize - udpHeaderSize)) time false output

/-- One pass of `Update`: the datagram, if there is one, is a frame written into the buffer. -/
theorem update_step (l : ReliabilityLayer) (buffer : BitStream) (mtuSize : ℕ) (time : UInt32) :
    ∃ entries, FrameStep l (l.update buffer mtuSize time).1 entries ∧
      ∀ datagram, (l.update buffer mtuSize time).2 = some datagram →
        datagram = (buffer.reset.writeEntries entries).toBytes := by
  unfold update
  split
  · exact ⟨[], ⟨rfl, rfl, fun _ h => h, fun _ h => absurd h List.not_mem_nil,
      fun _ h => absurd h List.not_mem_nil, fun _ h => h, fun _ _ h => h⟩, nofun⟩
  · split
    · obtain ⟨entries, hout, hstep⟩ := generateFrame_step l buffer.reset mtuSize time
      refine ⟨entries, hstep, ?_⟩
      intro datagram hdatagram
      simp only at hdatagram
      split at hdatagram
      · rw [← Option.some.inj hdatagram, hout]
      · cases hdatagram
    · exact ⟨[], .refl l, nofun⟩

end ReliabilityLayer

end Multicrew.Transport
