import Multicrew.Gauge.MetafileResync

/-!
# How fast and in which order frames arrive

After a frame the compressor's thread waits for ten turns, or for an acknowledgement. So what is sent
is bounded by the turns and the acknowledgements, whatever the clients and the network do. What a
client shows are frames the host drew, in the order in which it drew them.
-/

namespace Multicrew.Gauge

open Multicrew.Library

namespace MetafileStream

variable {ι : Type*} (s : MetafileStream ι)

/-- What lets the thread send again: a turn counts one, an acknowledgement as much as the ten turns it
may save. -/
def credit : MetafileAction ι → ℕ
  | .wake => 1
  | .reply index => if s.replies[index]? = some .ackPacket then 10 else 0
  | _ => 0

/-- What is left of the credit: the turns waited since the last frame, or the price of the frame the
thread works on. -/
def saved : ℕ :=
  match s.compressor.thread with
  | .waiting => 10 - s.compressor.timeout
  | .compressing _ => 11
  | .exited => 0

/-- The frame a client shows after a step, if the step brings it one. -/
def shown [DecidableEq ι] (z : Zdelta) (i : ι) (s : MetafileStream ι) : MetafileAction ι → List Bytes
  | .deliver j =>
    if j = i then
      match s.clients i with
      | none => []
      | some c =>
        match s.sent[c.position]? with
        | none => []
        | some p =>
          if c.decompressor.metafileCounter = p.packet.counter then
            ((c.decompressor.receive z p.packet).bind fun r => r.1.lastMetafile).toList
          else []
    else []
  | _ => []

/-- A client joins, and the host sends it two frames; the second one waits for the acknowledgement of
the first. -/
def twoFrames : List (MetafileAction Unit) :=
  [.join () 0, .close (some [1]), .wake, .finish, .deliver (), .close (some [2]), .wake, .reply 0,
    .wake, .finish, .deliver ()]

variable {z : Zdelta} {s}

/-- A turn of the thread earns one. -/
theorem saved_wake {d : MetafileCompressor} (hd : s.compressor.wake = some d) :
    ({ s with compressor := d } : MetafileStream ι).saved ≤ s.saved + 1 := by
  unfold MetafileCompressor.wake at hd
  split at hd
  · rename_i hwaiting
    simp only [saved, hwaiting]
    split at hd
    · cases hd
      simp only [hwaiting]
      omega
    · split at hd
      · cases hd
        simp only [hwaiting]
        omega
      · split at hd
        · cases hd
          simp only
          omega
        · split at hd <;>
          · cases hd
            simp only
            omega
  · cases hd

/-- A frame costs eleven, and no step costs more than it earns. -/
theorem spend_step [DecidableEq ι] {a : MetafileAction ι} {t : MetafileStream ι}
    (h : s.step z a = some t) :
    11 * t.sent.length + t.saved ≤ 11 * s.sent.length + s.saved + s.credit a := by
  rcases step_cases h with ⟨metafile, rfl, -, rfl⟩ | ⟨d, rfl, hd, rfl⟩ | ⟨work, rfl, hwork, rfl⟩ |
    ⟨i, position, rfl, -, rfl⟩ | ⟨i, c, p, result, rfl, -, -, -, rfl⟩ |
    ⟨index, reply, rfl, hreply, rfl⟩
  · cases metafile <;> exact Nat.le_refl _
  · have hsaved := saved_wake hd
    simp only [credit]
    omega
  · have hbefore : s.saved = 11 := by simp only [saved, hwork]
    have hafter : (s.finish z work).saved = 0 ∧
        (s.finish z work).sent.length ≤ s.sent.length + 1 := by
      rcases finish_cases z s work with heq | ⟨delta, -, -, heq⟩
      · rw [heq]
        exact ⟨rfl, Nat.le_succ _⟩
      · rw [heq]
        exact ⟨rfl, by simp⟩
    simp only [credit]
    omega
  · exact Nat.le_refl _
  · exact Nat.le_refl _
  · cases reply with
    | resetPacket => exact Nat.le_add_right _ _
    | ackPacket =>
      simp only [credit, hreply, if_true, saved, MetafileCompressor.receive]
      split <;> omega

/-- In every run the packets sent are paid for by the turns of the thread and the acknowledgements:
eleven turns each, one turn and an acknowledgement, or a mixture of both. -/
theorem throttled [DecidableEq ι] {t : MetafileStream ι} {as : List (MetafileAction ι)}
    (hrun : (metafileMachine ι z).run {} as = some t) :
    11 * t.sent.length ≤ 10 + (metafileMachine ι z).tally credit {} as := by
  have hstep : ∀ (s : MetafileStream ι) a u, (metafileMachine ι z).Reachable s →
      (metafileMachine ι z).step s a = some u →
        11 * u.sent.length + u.saved ≤ 11 * s.sent.length + s.saved + s.credit a :=
    fun s a u _ h => spend_step h
  have hpaid := Machine.le_add_tally hstep (.initial rfl) hrun
  exact Nat.le_trans (Nat.le_add_right _ _) hpaid

/-- Two frames are paid for by three turns and an acknowledgement. -/
theorem throttled_two : ∃ t, (metafileMachine Unit Zdelta.stored).run {} twoFrames = some t ∧
    11 * t.sent.length ≤ 10 + (metafileMachine Unit Zdelta.stored).tally credit {} twoFrames :=
  ⟨_, rfl, throttled rfl⟩

/-- What was shown so far are frames of the part of the stream that the client has read. -/
def ShownFrom (i : ι) (s : MetafileStream ι) (seen : List Bytes) : Prop :=
  match s.clients i with
  | none => seen = []
  | some c => seen.Sublist ((s.sent.take c.position).map Sent.frame)

/-- What was shown stays what the client has read when nothing happens to the client. -/
theorem ShownFrom.congr {i : ι} {t : MetafileStream ι} {seen : List Bytes} (h : ShownFrom i s seen)
    (hs : Aligned z s) (hclient : t.clients i = s.clients i) (hsent : s.sent <+: t.sent) :
    ShownFrom i t seen := by
  unfold ShownFrom at h ⊢
  rw [hclient]
  cases hc : s.clients i with
  | none => simpa only [hc] using h
  | some c =>
    obtain ⟨later, hlater⟩ := hsent
    have hposition := (hs.client i c hc).1
    rw [hc] at h
    simp only [← hlater, List.take_append_of_le_length hposition]
    exact h

/-- A delivery to a client shows the frame at its position or nothing. -/
theorem ShownFrom.deliver [DecidableEq ι] {i : ι} {c : StreamClient} {p : Sent} {seen : List Bytes}
    (h : ShownFrom i s seen) (hs : Aligned z s) (hz : z.Lossless) (hc : s.clients i = some c)
    (hp : s.sent[c.position]? = some p) (result : MetafileDecompressor × MetafileReply) :
    ShownFrom i (s.deliver i c.position result) (seen ++ shown z i s (.deliver i)) := by
  simp only [ShownFrom, hc] at h
  simp only [ShownFrom, MetafileStream.deliver, Function.update_self, List.take_add_one, hp,
    Option.toList_some, List.map_append, List.map_cons, List.map_nil]
  refine h.append ?_
  simp only [shown, if_true, hc, hp]
  split
  · rename_i hcounter
    rw [hs.receive_eq hz hc hp, if_pos hcounter]
    exact List.Sublist.refl _
  · exact List.nil_sublist _

/-- What a client shows in a run are frames the host drew, in the order in which it drew them and none
of them twice. -/
theorem shown_in_order [DecidableEq ι] (hz : z.Lossless) {t : MetafileStream ι}
    {as : List (MetafileAction ι)} (hrun : (metafileMachine ι z).run {} as = some t) (i : ι) :
    ((metafileMachine ι z).trace (shown z i) {} as).Sublist t.closed := by
  have hstep : ∀ s a u seen, (metafileMachine ι z).Reachable s → ShownFrom i s seen →
      (metafileMachine ι z).step s a = some u → ShownFrom i u (seen ++ shown z i s a) := by
    intro s a u seen hreach hseen hsu
    have hs := Aligned.reachable hz hreach
    have hsent := sent_prefix_step hsu
    rcases step_cases hsu with ⟨metafile, rfl, -, rfl⟩ | ⟨d, rfl, -, rfl⟩ | ⟨work, rfl, -, rfl⟩ |
      ⟨j, position, rfl, -, rfl⟩ | ⟨j, c, p, result, rfl, hc, hp, -, rfl⟩ |
      ⟨index, reply, rfl, -, rfl⟩
    · simp only [shown, List.append_nil]
      exact hseen.congr hs rfl hsent
    · simp only [shown, List.append_nil]
      exact hseen.congr hs rfl hsent
    · simp only [shown, List.append_nil]
      exact hseen.congr hs rfl hsent
    · have hjoin : s.clients j = none := by
        simp only [metafileMachine, step] at hsu
        split at hsu
        · rename_i hguard
          exact hguard.1
        · cases hsu
      by_cases hj : i = j
      · subst hj
        simp only [ShownFrom, hjoin] at hseen
        subst hseen
        simp only [ShownFrom, Function.update_self]
        exact List.nil_sublist _
      · simp only [shown, List.append_nil]
        exact hseen.congr hs (Function.update_of_ne hj _ _) hsent
    · by_cases hj : j = i
      · subst hj
        exact hseen.deliver hs hz hc hp result
      · have hnothing : shown z i s (.deliver j) = [] := if_neg hj
        rw [hnothing, List.append_nil]
        exact hseen.congr hs (Function.update_of_ne (Ne.symm hj) _ _) hsent
    · simp only [shown, List.append_nil]
      exact hseen.congr hs rfl hsent
  have hfirst : ShownFrom i ({} : MetafileStream ι) [] := rfl
  have hshown := Machine.trace_invariant hstep (.initial rfl) hfirst hrun
  have hs := Aligned.reachable hz (Machine.Reachable.run (.initial rfl) hrun)
  simp only [List.nil_append, ShownFrom] at hshown
  split at hshown
  · rw [hshown]
    exact List.nil_sublist _
  · rename_i c _
    have hread := (List.take_sublist c.position t.sent).map Sent.frame
    have hdrawn := (List.sublist_append_left _ _).trans hs.frames
    exact hshown.trans (hread.trans hdrawn)

/-- Of two frames the client shows both. -/
theorem shown_in_order_two : ∃ t, (metafileMachine Unit Zdelta.stored).run {} twoFrames = some t ∧
    (metafileMachine Unit Zdelta.stored).trace (shown Zdelta.stored ()) {} twoFrames = [[1], [2]] ∧
    [[1], [2]].Sublist t.closed := by
  have hrun : (metafileMachine Unit Zdelta.stored).run {} twoFrames = some _ := rfl
  have hshown := shown_in_order Zdelta.stored_lossless hrun ()
  exact ⟨_, hrun, rfl, hshown⟩

end MetafileStream

end Multicrew.Gauge
