import Multicrew.Library.Machine
import Multicrew.Gauge.Metafile
import Mathlib.Logic.Function.Basic

/-!
# One metafile stream and its clients

The data packets form one stream. A client reads it in order from some point on, and its answers
travel back with arbitrary delay. The only link between the two references is the counter, and a
late reset may set it back at any time, so packets with equal counters and different references
share the stream. What makes decoding right is positional: a packet with a positive counter is
coded against the frame just before it in the stream, and a client with a positive counter holds
exactly that frame.
-/

namespace Multicrew.Gauge

open Multicrew.Library

/-- A data packet, with the frame it stands for and the reference it was coded against. -/
structure Sent where
  packet : MetafileDataPacket
  frame : Bytes
  reference : Bytes
  deriving DecidableEq, Repr

/-- A client and the position of the next packet it reads. -/
structure StreamClient where
  decompressor : MetafileDecompressor := {}
  position : ℕ
  deriving DecidableEq, Repr

/-- The host's compressor, the clients, the stream, the answers on their way, and the frames that
were given to `close`. -/
structure MetafileStream (ι : Type*) where
  compressor : MetafileCompressor := {}
  clients : ι → Option StreamClient := fun _ => none
  sent : List Sent := []
  replies : List MetafileReply := []
  closed : List Bytes := []

/-- The steps of the gauge, of the compressor's thread, of the clients and of the network. -/
inductive MetafileAction (ι : Type*)
  | close (metafile : Option Bytes)
  | wake
  | finish
  | join (i : ι) (position : ℕ)
  | deliver (i : ι)
  | reply (index : ℕ)

namespace MetafileStream

variable {ι : Type*} [DecidableEq ι] (z : Zdelta) (s : MetafileStream ι)

/-- The gauge draws a frame between `open` and `close`, which is one step for the other threads. -/
def close (metafile : Option Bytes) : MetafileStream ι :=
  { s with
    compressor := s.compressor.close metafile
    closed := s.closed ++ metafile.toList }

/-- The thread has finished compressing. -/
def finish (work : Work) : MetafileStream ι :=
  let (d, packet) := s.compressor.finish z work
  { s with
    compressor := d
    sent := s.sent ++ (packet.map fun packet => ⟨packet, work.last, work.ref⟩).toList }

/-- Client `i` has handled the packet at its position. -/
def deliver (i : ι) (position : ℕ) (result : MetafileDecompressor × MetafileReply) :
    MetafileStream ι :=
  { s with
    clients := Function.update s.clients i (some ⟨result.1, position + 1⟩)
    replies := s.replies ++ [result.2] }

/-- One step of the host, of its thread, of a client or of the network. -/
def step : MetafileAction ι → Option (MetafileStream ι)
  | .close metafile => if s.compressor.isOpen then some (s.close metafile) else none
  | .wake => s.compressor.wake.map fun d => { s with compressor := d }
  | .finish =>
    match s.compressor.thread with
    | .compressing work => some (s.finish z work)
    | _ => none
  | .join i position =>
    if s.clients i = none ∧ position ≤ s.sent.length then
      some { s with clients := Function.update s.clients i (some ⟨{}, position⟩) }
    else none
  | .deliver i =>
    match s.clients i with
    | none => none
    | some c =>
      match s.sent[c.position]? with
      | none => none
      | some p => (c.decompressor.receive z p.packet).map (s.deliver i c.position)
  | .reply index =>
    match s.replies[index]? with
    | none => none
    | some reply =>
      some { s with compressor := s.compressor.receive reply, replies := s.replies.eraseIdx index }

variable {z s}

/-- The cases of a step, with its guards. -/
theorem step_cases {a : MetafileAction ι} {t : MetafileStream ι} (h : s.step z a = some t) :
    (∃ metafile, a = .close metafile ∧ s.compressor.isOpen ∧ t = s.close metafile) ∨
    (∃ d, a = .wake ∧ s.compressor.wake = some d ∧ t = { s with compressor := d }) ∨
    (∃ work, a = .finish ∧ s.compressor.thread = .compressing work ∧ t = s.finish z work) ∨
    (∃ i position, a = .join i position ∧ position ≤ s.sent.length ∧
      t = { s with clients := Function.update s.clients i (some ⟨{}, position⟩) }) ∨
    (∃ i c p result, a = .deliver i ∧ s.clients i = some c ∧ s.sent[c.position]? = some p ∧
      c.decompressor.receive z p.packet = some result ∧ t = s.deliver i c.position result) ∨
    (∃ index reply, a = .reply index ∧ s.replies[index]? = some reply ∧ t = { s with
      compressor := s.compressor.receive reply, replies := s.replies.eraseIdx index }) := by
  cases a with
  | close metafile =>
    simp only [step] at h
    split at h
    · rename_i hopen
      exact .inl ⟨metafile, rfl, hopen, (Option.some.inj h).symm⟩
    · cases h
  | wake =>
    obtain ⟨d, hd, rfl⟩ := Option.map_eq_some_iff.mp h
    exact .inr (.inl ⟨d, rfl, hd, rfl⟩)
  | finish =>
    simp only [step] at h
    split at h
    · rename_i work hwork
      exact .inr (.inr (.inl ⟨work, rfl, hwork, (Option.some.inj h).symm⟩))
    · cases h
  | join i position =>
    simp only [step] at h
    split at h
    · rename_i hjoin
      exact .inr (.inr (.inr (.inl ⟨i, position, rfl, hjoin.2, (Option.some.inj h).symm⟩)))
    · cases h
  | deliver i =>
    simp only [step] at h
    split at h
    · cases h
    · rename_i c hc
      split at h
      · cases h
      · rename_i p hp
        obtain ⟨result, hresult, rfl⟩ := Option.map_eq_some_iff.mp h
        exact .inr (.inr (.inr (.inr (.inl ⟨i, c, p, result, rfl, hc, hp, hresult, rfl⟩))))
  | reply index =>
    simp only [step] at h
    split at h
    · cases h
    · rename_i reply hreply
      exact .inr (.inr (.inr (.inr (.inr ⟨index, reply, rfl, hreply, (Option.some.inj h).symm⟩))))

end MetafileStream

/-- The runs of a stream, from a fresh compressor without clients. -/
def metafileMachine (ι : Type*) [DecidableEq ι] (z : Zdelta) :
    Machine (MetafileStream ι) (MetafileAction ι) where
  initial s := s = {}
  step := MetafileStream.step z

namespace MetafileStream

/-- The reference that belongs to a counter after a part of the stream. -/
def ReferenceAfter (stream : List Sent) (counter : UInt32) (ref : Bytes) : Prop :=
  if counter = 0 then ref = zeroReference else stream.getLast?.map Sent.frame = some ref

/-- A counter has one reference. -/
theorem ReferenceAfter.unique {stream : List Sent} {counter : UInt32} {ref ref' : Bytes}
    (h : ReferenceAfter stream counter ref) (h' : ReferenceAfter stream counter ref') :
    ref = ref' := by
  unfold ReferenceAfter at h h'
  split at h
  · rename_i hzero
    rw [if_pos hzero] at h'
    rw [h, h']
  · rename_i hpos
    rw [if_neg hpos] at h'
    exact Option.some.inj (h.symm.trans h')

/-- With counter 0 the reference is the zeros. -/
theorem ReferenceAfter.zero (stream : List Sent) : ReferenceAfter stream 0 zeroReference :=
  (if_pos rfl : ReferenceAfter stream 0 zeroReference = (zeroReference = zeroReference)).mpr rfl

/-- After a frame it is the reference of every positive counter. -/
theorem ReferenceAfter.last {stream : List Sent} {p : Sent} (h : stream.getLast? = some p)
    {counter : UInt32} (hcounter : counter ≠ 0) : ReferenceAfter stream counter p.frame := by
  rw [ReferenceAfter, if_neg hcounter, h]
  rfl

variable {ι : Type*}

/-- The invariant of a stream: every reference in use is the one its counter and its place in the
stream determine. -/
structure Aligned (z : Zdelta) (s : MetafileStream ι) : Prop where
  previous : s.compressor.previousMetafile = s.sent.getLast?.map Sent.frame
  started : s.compressor.metafileCounter ≠ 0 → s.sent ≠ []
  alive : s.compressor.thread ≠ .exited
  work : ∀ w, s.compressor.thread = .compressing w →
    s.compressor.lastMetafile = some w.last ∧ ReferenceAfter s.sent w.counter w.ref
  coded : ∀ (k : ℕ) (p : Sent), s.sent[k]? = some p →
    ReferenceAfter (s.sent.take k) p.packet.counter p.reference ∧
      z.compress p.reference p.frame = some p.packet.buffer
  client : ∀ i c, s.clients i = some c → c.position ≤ s.sent.length ∧
    ∃ ref, c.decompressor.reference = some ref ∧
      ReferenceAfter (s.sent.take c.position) c.decompressor.metafileCounter ref
  frames : (s.sent.map Sent.frame ++ s.compressor.lastMetafile.toList).Sublist s.closed

variable {z : Zdelta} {s : MetafileStream ι}

/-- The invariant holds of a fresh stream. -/
theorem Aligned.initial : Aligned z ({} : MetafileStream ι) where
  previous := rfl
  started h := absurd rfl h
  alive h := by cases h
  work w h := by cases h
  coded k p h := by simp at h
  client i c h := by cases h
  frames := List.Sublist.refl _

/-- Recording a frame keeps the invariant. -/
theorem Aligned.close (h : Aligned z s) (hopen : s.compressor.isOpen) (metafile : Option Bytes) :
    Aligned z (s.close metafile) := by
  have hlast : s.compressor.lastMetafile = none := by
    simpa [MetafileCompressor.isOpen] using hopen
  cases metafile with
  | none =>
    refine ⟨h.previous, h.started, h.alive, h.work, h.coded, h.client, ?_⟩
    have hframes := h.frames
    simpa [MetafileStream.close, MetafileCompressor.close] using hframes
  | some metafile =>
    refine ⟨h.previous, h.started, h.alive, fun w hw => ?_, h.coded, h.client, ?_⟩
    · -- the thread does not compress while the compressor is open
      have hbusy := (h.work w hw).1
      rw [hlast] at hbusy
      cases hbusy
    · have hframes := h.frames
      rw [hlast] at hframes
      simp only [Option.toList_none, List.append_nil] at hframes
      exact hframes.append (List.Sublist.refl _)

/-- A turn of the thread captures the reference that belongs to the counter. -/
theorem Aligned.wake (h : Aligned z s) {d : MetafileCompressor} (hd : s.compressor.wake = some d) :
    Aligned z { s with compressor := d } := by
  unfold MetafileCompressor.wake at hd
  split at hd
  · split at hd
    · cases hd
      exact ⟨h.previous, h.started, h.alive, h.work, h.coded, h.client, h.frames⟩
    · split at hd
      · cases hd
        exact h
      · rename_i last hlast
        split at hd
        · rename_i hzero
          cases hd
          refine ⟨h.previous, h.started, by simp, ?_, h.coded, h.client, h.frames⟩
          intro w hw
          cases hw
          rw [hzero]
          exact ⟨hlast, ReferenceAfter.zero _⟩
        · rename_i hpos
          split at hd
          · -- a positive counter has a frame before it
            rename_i hnone
            rw [h.previous, Option.map_eq_none_iff, List.getLast?_eq_none_iff] at hnone
            exact absurd hnone (h.started hpos)
          · rename_i previous hprevious
            cases hd
            refine ⟨h.previous, h.started, by simp, ?_, h.coded, h.client, h.frames⟩
            intro w hw
            cases hw
            refine ⟨hlast, ?_⟩
            rw [ReferenceAfter, if_neg hpos, ← h.previous, hprevious]
  · cases hd

/-- What the thread has done when it returns: nothing was sent, or the frame it took. -/
theorem finish_cases [DecidableEq ι] (z : Zdelta) (s : MetafileStream ι) (w : Work) :
    s.finish z w = { s with
      compressor := { s.compressor with lastMetafile := none, timeout := 10, thread := .waiting } } ∨
    ∃ delta, z.compress w.ref w.last = some delta ∧ w.counter = s.compressor.metafileCounter ∧
      s.finish z w = { s with
        compressor := { s.compressor with
          lastMetafile := none
          timeout := 10
          thread := .waiting
          metafileCounter := s.compressor.metafileCounter + 1
          previousMetafile := some w.last }
        sent := s.sent ++ [⟨⟨s.compressor.metafileCounter, delta⟩, w.last, w.ref⟩] } := by
  unfold MetafileStream.finish MetafileCompressor.finish
  cases hdelta : z.compress w.ref w.last with
  | none => exact .inl (by simp)
  | some delta =>
    by_cases hcounter : w.counter = s.compressor.metafileCounter
    · exact .inr ⟨delta, rfl, hcounter, by simp [hcounter]⟩
    · exact .inl (by simp [hcounter])

/-- Returning from the compression keeps the invariant: a packet is sent only with the counter its
reference was taken for. -/
theorem Aligned.finish [DecidableEq ι] (h : Aligned z s) {w : Work}
    (hw : s.compressor.thread = .compressing w) : Aligned z (s.finish z w) := by
  obtain ⟨hlast, href⟩ := h.work w hw
  have hframes := h.frames
  rcases finish_cases z s w with heq | ⟨delta, hdelta, hcounter, heq⟩
  · rw [heq]
    refine ⟨h.previous, h.started, by simp, by simp, h.coded, h.client, ?_⟩
    refine List.Sublist.trans ?_ hframes
    simp
  · rw [heq]
    refine ⟨by simp, by simp, by simp, by simp, ?_, ?_, ?_⟩
    · intro k p hp
      rw [List.getElem?_append] at hp
      split at hp
      · rename_i hk
        rw [List.take_append_of_le_length (by omega)]
        exact h.coded k p hp
      · rename_i hk
        have hk' : k = s.sent.length := by
          have := (List.getElem?_eq_some_iff.mp hp).1
          simp at this
          omega
        subst hk'
        simp only [Nat.sub_self, List.getElem?_cons_zero, Option.some.injEq] at hp
        subst hp
        rw [List.take_left, ← hcounter]
        exact ⟨href, hdelta⟩
    · intro i c hc
      obtain ⟨hposition, ref, hdec, hafter⟩ := h.client i c hc
      refine ⟨by simp; omega, ref, hdec, ?_⟩
      rw [List.take_append_of_le_length hposition]
      exact hafter
    · rw [hlast] at hframes
      simpa using hframes

/-- A packet in sequence is decoded against the reference it was coded against. -/
theorem Aligned.reference_eq (h : Aligned z s) {i : ι} {c : StreamClient} {p : Sent}
    (hc : s.clients i = some c) (hp : s.sent[c.position]? = some p)
    (hcounter : c.decompressor.metafileCounter = p.packet.counter) :
    c.decompressor.reference = some p.reference := by
  obtain ⟨-, ref, href, hafter⟩ := h.client i c hc
  have hcoded := (h.coded c.position p hp).1
  rw [hcounter] at hafter
  rw [href, hafter.unique hcoded]

/-- What a client does with the packet at its position. -/
theorem Aligned.receive_eq (h : Aligned z s) (hz : z.Lossless) {i : ι} {c : StreamClient} {p : Sent}
    (hc : s.clients i = some c) (hp : s.sent[c.position]? = some p) :
    c.decompressor.receive z p.packet =
      if c.decompressor.metafileCounter = p.packet.counter then
        some (⟨some p.frame, c.decompressor.metafileCounter + 1⟩, .ackPacket)
      else some ({ c.decompressor with metafileCounter := 0 }, .resetPacket) := by
  by_cases hcounter : c.decompressor.metafileCounter = p.packet.counter
  · rw [if_pos hcounter]
    exact c.decompressor.receive_of_eq z hcounter (h.reference_eq hc hp hcounter)
      (hz _ _ _ (h.coded c.position p hp).2)
  · rw [if_neg hcounter]
    exact c.decompressor.receive_of_ne z hcounter

/-- A delivery leaves the client with the frame it has just read, or with counter 0. -/
theorem Aligned.deliver [DecidableEq ι] (h : Aligned z s) (hz : z.Lossless) {i : ι}
    {c : StreamClient} {p : Sent} (hc : s.clients i = some c) (hp : s.sent[c.position]? = some p)
    {result : MetafileDecompressor × MetafileReply}
    (hresult : c.decompressor.receive z p.packet = some result) :
    Aligned z (s.deliver i c.position result) := by
  obtain ⟨hlt, hpk⟩ := List.getElem?_eq_some_iff.mp hp
  refine ⟨h.previous, h.started, h.alive, h.work, h.coded, ?_, h.frames⟩
  intro i' c' hc'
  by_cases hi : i' = i
  · subst hi
    simp only [MetafileStream.deliver, Function.update_self, Option.some.injEq] at hc'
    subst hc'
    refine ⟨hlt, ?_⟩
    rw [h.receive_eq hz hc hp] at hresult
    split at hresult
    · obtain rfl := Option.some.inj hresult
      by_cases hzero : c.decompressor.metafileCounter + 1 = 0
      · refine ⟨zeroReference, by simp [MetafileDecompressor.reference, hzero], ?_⟩
        rw [hzero]
        exact ReferenceAfter.zero _
      · refine ⟨p.frame, by simp [MetafileDecompressor.reference, hzero], ?_⟩
        apply ReferenceAfter.last
        · change (s.sent.take (c.position + 1)).getLast? = some p
          rw [List.take_add_one, hp]
          simp
        · exact hzero
    · obtain rfl := Option.some.inj hresult
      exact ⟨zeroReference, by simp [MetafileDecompressor.reference], ReferenceAfter.zero _⟩
  · simp only [MetafileStream.deliver, Function.update_of_ne hi] at hc'
    exact h.client i' c' hc'

/-- A late reset or acknowledgement keeps the invariant. -/
theorem Aligned.reply (h : Aligned z s) (reply : MetafileReply) (index : ℕ) :
    Aligned z { s with
      compressor := s.compressor.receive reply, replies := s.replies.eraseIdx index } := by
  cases reply with
  | resetPacket =>
    exact ⟨h.previous, fun hne => absurd rfl hne, h.alive, h.work, h.coded, h.client, h.frames⟩
  | ackPacket => exact ⟨h.previous, h.started, h.alive, h.work, h.coded, h.client, h.frames⟩

/-- A joining client starts with counter 0. -/
theorem Aligned.join [DecidableEq ι] (h : Aligned z s) (i : ι) {position : ℕ}
    (hposition : position ≤ s.sent.length) :
    Aligned z { s with clients := Function.update s.clients i (some ⟨{}, position⟩) } := by
  refine ⟨h.previous, h.started, h.alive, h.work, h.coded, ?_, h.frames⟩
  intro i' c hc
  by_cases hi : i' = i
  · subst hi
    simp only [Function.update_self, Option.some.injEq] at hc
    subst hc
    exact ⟨hposition, zeroReference, rfl, ReferenceAfter.zero _⟩
  · simp only [Function.update_of_ne hi] at hc
    exact h.client i' c hc

/-- Every step keeps the invariant. -/
theorem Aligned.step [DecidableEq ι] (h : Aligned z s) (hz : z.Lossless) {a : MetafileAction ι}
    {t : MetafileStream ι} (hstep : s.step z a = some t) : Aligned z t := by
  rcases step_cases hstep with ⟨metafile, -, hopen, rfl⟩ | ⟨d, -, hd, rfl⟩ | ⟨work, -, hwork, rfl⟩ |
    ⟨i, position, -, hposition, rfl⟩ | ⟨i, c, p, result, -, hc, hp, hresult, rfl⟩ |
    ⟨index, reply, -, -, rfl⟩
  · exact h.close hopen metafile
  · exact h.wake hd
  · exact h.finish hwork
  · exact h.join i hposition
  · exact h.deliver hz hc hp hresult
  · exact h.reply reply index

/-- The invariant holds in every reachable state. -/
theorem Aligned.reachable [DecidableEq ι] (hz : z.Lossless)
    (h : (metafileMachine ι z).Reachable s) : Aligned z s := by
  apply h.invariant
  · rintro s rfl
    exact Aligned.initial
  · intro s a t _ hs hstep
    exact hs.step hz hstep

/-- In every reachable state: a packet that a client accepts is decoded against the very reference
it was coded against, and becomes a frame that was given to `close`; the compressor never has a
positive counter without a previous frame, nor a decompressor without a last one. -/
theorem references_agree [DecidableEq ι] (hz : z.Lossless)
    (h : (metafileMachine ι z).Reachable s) :
    (∀ i c p, s.clients i = some c → s.sent[c.position]? = some p →
      c.decompressor.metafileCounter = p.packet.counter →
        c.decompressor.reference = some p.reference ∧ p.frame ∈ s.closed ∧
        c.decompressor.receive z p.packet =
          some (⟨some p.frame, c.decompressor.metafileCounter + 1⟩, .ackPacket)) ∧
    (s.compressor.metafileCounter ≠ 0 → s.compressor.previousMetafile ≠ none) ∧
    ∀ i c, s.clients i = some c → c.decompressor.metafileCounter ≠ 0 →
      c.decompressor.lastMetafile ≠ none := by
  have hs := Aligned.reachable hz h
  refine ⟨fun i c p hc hp hcounter => ⟨hs.reference_eq hc hp hcounter, ?_, ?_⟩, ?_, ?_⟩
  · apply hs.frames.subset
    apply List.mem_append_left
    exact List.mem_map_of_mem (List.mem_of_getElem? hp)
  · rw [hs.receive_eq hz hc hp, if_pos hcounter]
  · intro hcounter hnone
    rw [hs.previous, Option.map_eq_none_iff, List.getLast?_eq_none_iff] at hnone
    exact hs.started hcounter hnone
  · intro i c hc hcounter hnone
    obtain ⟨-, ref, href, -⟩ := hs.client i c hc
    rw [MetafileDecompressor.reference, if_neg hcounter, hnone] at href
    cases href

/-- A client that joins before the first frame decodes it, and the second against the first. -/
theorem references_agree_second : ∃ s : MetafileStream Unit,
    (metafileMachine Unit Zdelta.stored).run {}
        [.join () 0, .close (some [1]), .wake, .finish, .deliver (), .reply 0, .close (some [2]),
          .wake, .finish] = some s ∧
      ∃ c p, s.clients () = some c ∧ s.sent[c.position]? = some p ∧
        c.decompressor.metafileCounter = 1 ∧ p.reference = [1] ∧
        c.decompressor.reference = some p.reference := by
  have hrun : (metafileMachine Unit Zdelta.stored).run {}
    [.join () 0, .close (some [1]), .wake, .finish, .deliver (), .reply 0, .close (some [2]),
      .wake, .finish] = some _ := rfl
  have hs := references_agree Zdelta.stored_lossless (Machine.Reachable.run (.initial rfl) hrun)
  exact ⟨_, hrun, _, _, rfl, rfl, rfl, rfl, (hs.1 () _ _ rfl rfl rfl).1⟩

end MetafileStream

end Multicrew.Gauge
