import Mathlib.Data.List.Infix
import Multicrew.Core.Ordering

/-!
# A transport that keeps the sending order of every link

When packets of one link never overtake each other, whatever their ordering channels, an
`idChannelPacket` of the host precedes every `channelPacket` with its number, so each delivery to a
client is in turn. What a client has been handed for an id is then the end of what the host sent
for it, apart from what is still on its way, also for a client that joined late.
-/

namespace Multicrew.Core

open Std (TreeMap TreeSet)
open Multicrew.Library

/-- Packets of one link keep their order. -/
def inOrder {ι P : Type*} [DecidableEq ι] (e' e : Envelope ι P) : Bool :=
  e'.src = e.src ∧ e'.dst = e.dst

/-- Every payload counts. -/
def everyLoad {P : Type*} (_ : Load P) : Bool := true

/-- The number a `channelPacket` uses. -/
def Message.usedNum {P : Type*} : Message P → Option ℕ
  | .channelPacket num _ => some num
  | _ => none

/-- The number an `idChannelPacket` announces. -/
def Message.announcedNum {P : Type*} : Message P → Option ℕ
  | .idChannelPacket num _ _ => some num
  | _ => none

/-- A message without payload does neither. -/
theorem Message.nums_of_payload {P : Type*} {m : Message P} (h : m.payload = none) :
    m.usedNum = none ∧ m.announcedNum = none := by
  cases m <;> first | exact ⟨rfl, rfl⟩ | cases h

/-- A message that uses a number announces none. -/
theorem Message.announcedNum_of_usedNum {P : Type*} {m : Message P} {num num' : ℕ}
    (h : m.usedNum = some num) : m.announcedNum ≠ some num' := by
  cases m with
  | channelPacket _ _ => exact nofun
  | _ => cases h

/-- A selected `channelPacket` uses the number it is selected by. -/
theorem Message.usedNum_of_numbered {P : Type*} {keep : Load P → Bool} {num : Option ℕ}
    {m : Message (Load P)} {load : Load P} (h : m.numbered keep num = some load) :
    ∃ n, num = some n ∧ m.usedNum = some n := by
  cases m with
  | channelPacket n load' =>
    simp only [numbered, Option.ite_none_right_eq_some] at h
    exact ⟨n, h.1.1, rfl⟩
  | _ => cases h

/-- What a client has parked once it received a message was parked before or is that message, and
the number can be named no better than before, unless the message announces it. -/
theorem ChannelProtocol.parked_receive {P : Type*} {d : ChannelProtocol P} (hmode : d.mode = .client)
    (hnamed : ∀ (num : ℕ) (id : Str), d.numToId[num]? = some id → id ≠ []) (m : Message P) {num : ℕ}
    (hq : queueAt (d.receive m).state.todo num ≠ []) :
    (queueAt d.todo num ≠ [] ∨ d.numToId[num]? = none ∧ m.usedNum = some num) ∧
      ((d.receive m).state.numToId[num]? = d.numToId[num]? ∨ m.announcedNum = some num) := by
  cases m with
  | fullSendPacket => exact ⟨.inl hq, .inl rfl⟩
  | channelPacket num' packet =>
    cases hnum : d.numToId[num']? with
    | none =>
      rw [receive_channelPacket_unknown _ hmode hnum] at hq ⊢
      rw [sendIdNum_todo] at hq
      refine ⟨?_, .inl (sendIdNum_numToId _ num' [] ▸ rfl)⟩
      by_cases heq : num' = num
      · exact .inr ⟨heq ▸ hnum, congrArg some heq⟩
      · rw [queueAt_enqueue, if_neg heq] at hq
        exact .inl hq
    | some id =>
      rw [receive_channelPacket_known _ hmode hnum (hnamed num' id hnum)] at hq ⊢
      exact ⟨.inl hq, .inl rfl⟩
  | idChannelPacket num' id packet =>
    rw [receive_idChannelPacket_client _ hmode] at hq ⊢
    rw [setIdNum_todo] at hq
    refine ⟨.inl hq, ?_⟩
    by_cases heq : num = num'
    · exact .inr (congrArg some heq.symm)
    · exact .inl (setIdNum_numToId_of_ne _ heq id)
  | idNumPacket num' string =>
    rw [receive_idNumPacket_client _ hmode] at hq ⊢
    rw [queueAt_erase] at hq
    by_cases heq : num' = num
    · rw [if_pos heq] at hq
      exact absurd rfl hq
    · rw [if_neg heq] at hq
      exact ⟨.inl hq, .inl (setIdNum_numToId_of_ne _ (Ne.symm heq) string)⟩

namespace Session

variable {ι P : Type*} [DecidableEq ι] {s : Session ι P}

/-- The order of a link keeps that of its numbers. -/
theorem keepsNumbers_inOrder :
    KeepsNumbers everyLoad (inOrder : Envelope ι P → Envelope ι P → Bool) := by
  intro e' e num load' load hsrc hdst _ _ _ _ _ _
  simp [inOrder, hsrc, hdst]

/-- On the way to a client no announcement of a number follows a use of it, and none is on its way
while packets of the number are parked, whose id the client cannot name. -/
structure AnnouncedFirst (s : Session ι P) : Prop where
  flight : s.network.Pairwise fun e e' => e.src = .host → e'.src = .host → e'.dst = e.dst →
    ∀ num, e.out.message.usedNum = some num → e'.out.message.announcedNum ≠ some num
  parked : ∀ c, (s.protocol (.client c)).mode = .client → ∀ num : ℕ,
    queueAt (s.protocol (.client c)).todo num ≠ [] →
      (s.protocol (.client c)).numToId[num]? = none ∧
      ∀ e ∈ s.network, e.src = .host → e.dst = .client c → e.out.message.announcedNum ≠ some num

omit [DecidableEq ι] in
/-- A number the host announces is new. -/
theorem Agreement.announced_fresh (h : s.Agreement) {d : ChannelProtocol (Load P)} {load : Load P}
    {safe : Bool} {prio : Priority} {id : Str} {out : Outgoing (Load P)}
    (hsend : (s.protocol .host).sendChannelPacket load safe prio id = (d, some out)) {num : ℕ}
    (hnum : out.message.announcedNum = some num) (id' : Str) : ¬ s.Bound id' num := by
  rcases (s.protocol .host).sendChannelPacket_host h.host_mode load safe prio id with
    ⟨n, -, -, heq⟩ | ⟨hunbound, heq⟩
  · rw [hsend] at heq
    cases heq
    cases hnum
  · rw [hsend] at heq
    cases heq
    cases hnum
    have hnone := h.host_table.getIdNum_eq_zero.mp hunbound
    have hbound := (s.protocol .host).createIdNum_bound id
    rcases h.host_table.createIdNum_fresh id id with heq | ⟨-, n, hn, hfresh⟩
    · rw [hbound, hnone] at heq
      cases heq
    · rw [hbound] at hn
      cases hn
      exact hfresh id'

omit [DecidableEq ι] in
/-- Only bound numbers are used. -/
theorem Agreement.bound_of_used (h : s.Agreement) {e : Envelope ι P} (he : e ∈ s.network) {num : ℕ}
    (hnum : e.out.message.usedNum = some num) : ∃ id, s.Bound id num := by
  have hok := h.messages e he
  cases hm : e.out.message with
  | channelPacket num' load =>
    rw [hm] at hok hnum
    cases hnum
    obtain ⟨id, hb, -⟩ := hok
    exact ⟨id, hb⟩
  | _ =>
    rw [hm] at hnum
    cases hnum

omit [DecidableEq ι] in
/-- What is parked on a client is parked under a bound number that the client cannot name and that
is not announced by the packets that stay in flight. -/
theorem AnnouncedFirst.of_parked (ha : s.AnnouncedFirst) (h : s.Agreement) {c : ι}
    (hmode : (s.protocol (.client c)).mode = .client) {num : ℕ}
    (hq : queueAt (s.protocol (.client c)).todo num ≠ []) :
    (s.protocol (.client c)).numToId[num]? = none ∧ (∃ id, s.Bound id num) ∧
      ∀ e ∈ s.network, e.src = .host → e.dst = .client c →
        e.out.message.announcedNum ≠ some num := by
  obtain ⟨hunknown, hflight⟩ := ha.parked c hmode num hq
  obtain ⟨load, hload⟩ := List.exists_mem_of_ne_nil _ hq
  obtain ⟨id, hb, -⟩ := (h.client c hmode).parked num load hload
  exact ⟨hunknown, ⟨id, hb⟩, hflight⟩

omit [DecidableEq ι] in
/-- To keep announcements first it is enough to account for what a step adds. -/
theorem AnnouncedFirst.advance {t : Session ι P} (ha : s.AnnouncedFirst) (h : s.Agreement)
    (kept new : List (Envelope ι P)) (hnet : t.network = kept ++ new)
    (hkept : kept.Sublist s.network)
    (hfresh : ∀ e ∈ new, e.src = .host → ∀ num, e.out.message.announcedNum = some num →
      ∀ id, ¬ s.Bound id num)
    (hnew : ∀ e ∈ new, ∀ e' ∈ new, ∀ num, e.out.message.usedNum = some num →
      e'.out.message.announcedNum ≠ some num)
    (hclient : ∀ c, (t.protocol (.client c)).mode = .client → ∀ num : ℕ,
      queueAt (t.protocol (.client c)).todo num ≠ [] →
        (t.protocol (.client c)).numToId[num]? = none ∧ (∃ id, s.Bound id num) ∧
        ∀ e ∈ kept, e.src = .host → e.dst = .client c → e.out.message.announcedNum ≠ some num) :
    t.AnnouncedFirst where
  flight := by
    rw [hnet, List.pairwise_append]
    refine ⟨ha.flight.sublist hkept, ?_, ?_⟩
    · exact List.pairwise_of_forall_mem_list fun e he e' he' _ _ _ num => hnew e he e' he' num
    · intro e he e' he' _ hsrc' _ num hused hannounced
      obtain ⟨id, hb⟩ := h.bound_of_used (hkept.subset he) hused
      exact hfresh e' he' hsrc' num hannounced id hb
  parked c hmode num hq := by
    obtain ⟨hunknown, ⟨id, hb⟩, hflight⟩ := hclient c hmode num hq
    refine ⟨hunknown, fun e he hsrc hdst hannounced => ?_⟩
    rw [hnet, List.mem_append] at he
    rcases he with hold | hadded
    · exact hflight e hold hsrc hdst hannounced
    · exact hfresh e hadded hsrc num hannounced id hb

/-- A `send` announces before it uses. -/
theorem AnnouncedFirst.submit (ha : s.AnnouncedFirst) (h : s.Agreement) (p : Party ι) (id : Str)
    (offer : Offer P) : (s.submit p id offer).AnnouncedFirst := by
  rcases s.submit_cases p id offer with hsame | ⟨d, out, hsend, hsubmit⟩
  · rw [hsame]
    exact ha
  · rw [hsubmit]
    refine ha.advance h _ _ (s.commit_network p d out _) (List.Sublist.refl _) ?_ ?_ ?_
    · intro e he hsrc num hnum id'
      obtain ⟨rfl, rfl, -⟩ := s.mem_copies.mp he
      rw [hsrc] at hsend
      exact h.announced_fresh hsend hnum id'
    · intro e he e' he' num hused hannounced
      obtain ⟨-, heq, -⟩ := s.mem_copies.mp he
      obtain ⟨-, heq', -⟩ := s.mem_copies.mp he'
      rw [heq] at hused
      rw [heq'] at hannounced
      cases hm : out.message <;> rw [hm] at hused hannounced <;> simp_all [Message.usedNum,
        Message.announcedNum]
    · intro c hmode num hq
      obtain ⟨hdmode, hdtodo, -⟩ := ChannelProtocol.sendChannelPacket_some hsend
      have hmode' : ((s.withProtocol p d).protocol (.client c)).mode =
          (s.protocol (.client c)).mode := s.withProtocol_congr hdmode _
      have htodo : ((s.withProtocol p d).protocol (.client c)).todo =
          (s.protocol (.client c)).todo := s.withProtocol_congr hdtodo _
      rw [commit_protocol] at hmode hq ⊢
      rw [hmode'] at hmode
      rw [htodo] at hq
      -- a client's own tables are not changed by its sends
      have hnum : ((s.withProtocol p d).protocol (.client c)).numToId =
          (s.protocol (.client c)).numToId := by
        by_cases hp : Party.client c = p
        · subst hp
          rw [withProtocol_self]
          rcases (s.protocol (.client c)).sendChannelPacket_client hmode _ offer.safe offer.prio id
            with ⟨n, -, -, heq⟩ | ⟨-, heq⟩
          · rw [hsend] at heq
            cases heq
            rfl
          · rw [hsend] at heq
            cases heq
            rfl
        · rw [withProtocol_of_ne _ hp]
      rw [hnum]
      exact ha.of_parked h hmode hq

/-- A delivery in sending order announces nothing and names what it can name. -/
theorem AnnouncedFirst.receive (ha : s.AnnouncedFirst) (h : s.Agreement) {index : ℕ}
    {e : Envelope ι P} (he : s.network[index]? = some e)
    (hfree : ∀ e' ∈ s.network.take index, inOrder e' e = false) :
    (s.receive index e).AnnouncedFirst := by
  have hanswers : ∀ e' ∈ ((s.protocol e.dst).receive e.out.message).sent.flatMap (s.copies e.dst),
      e'.out.message.usedNum = none ∧ e'.out.message.announcedNum = none := by
    intro e' he'
    obtain ⟨out, hout, hcopy⟩ := List.mem_flatMap.mp he'
    obtain ⟨-, heq, -⟩ := s.mem_copies.mp hcopy
    rw [heq]
    exact Message.nums_of_payload ((s.protocol e.dst).payload_receive_sent e.out.message out hout)
  refine ha.advance h (s.network.eraseIdx index) _ rfl (List.eraseIdx_sublist ..) ?_ ?_ ?_
  · intro e' he' _ num hnum
    rw [(hanswers e' he').2] at hnum
    cases hnum
  · intro e' he' _ _ num hused
    rw [(hanswers e' he').1] at hused
    cases hused
  · intro c hmode num hq
    have hold : (s.protocol (.client c)).mode = .client →
        queueAt (s.protocol (.client c)).todo num ≠ [] →
        (s.protocol (.client c)).numToId[num]? = none ∧ (∃ id, s.Bound id num) ∧
        ∀ e' ∈ s.network.eraseIdx index, e'.src = .host → e'.dst = .client c →
          e'.out.message.announcedNum ≠ some num := by
      intro hmode hq
      obtain ⟨hunknown, hb, hflight⟩ := ha.of_parked h hmode hq
      exact ⟨hunknown, hb, fun e' he' => hflight e' (List.mem_of_mem_eraseIdx he')⟩
    by_cases hdst : e.dst = .client c
    · have hsrc : e.src = .host := by
        rcases h.routed e (List.mem_of_getElem? he) with ⟨hsrc, -⟩ | ⟨-, hhost⟩
        · exact hsrc
        · rw [hdst] at hhost
          cases hhost
      have hbehind : ∀ e' ∈ s.network.eraseIdx index, e'.src = .host → e'.dst = .client c →
          ∀ num', e.out.message.usedNum = some num' → e'.out.message.announcedNum ≠ some num' := by
        intro e' he' hsrc' hdst'
        rcases rel_of_mem_eraseIdx ha.flight he he' with hbefore | hrel
        · have hnot := hfree e' hbefore
          simp [inOrder, hsrc, hsrc', hdst, hdst'] at hnot
        · exact hrel hsrc hsrc' (hdst'.trans hdst.symm)
      have hself := hdst ▸ s.receive_protocol_self index e
      rw [hself] at hmode hq ⊢
      rw [ChannelProtocol.receive_mode] at hmode
      have htable := (h.client c hmode).table
      have hnamed : ∀ (num : ℕ) (id : Str),
          (s.protocol (.client c)).numToId[num]? = some id → id ≠ [] := fun num id hnum =>
        h.host_table.named id num (htable.sub id num ((htable.inverse id num).mpr hnum))
      obtain ⟨hparked, hnum⟩ := ChannelProtocol.parked_receive hmode hnamed e.out.message hq
      rcases hparked with hq | ⟨hunknown, hused⟩
      · -- a number with parked packets is not the one announced
        have hnot := (ha.of_parked h hmode hq).2.2 e (List.mem_of_getElem? he) hsrc hdst
        rw [hnum.resolve_right hnot]
        exact hold hmode hq
      · rw [hnum.resolve_right (Message.announcedNum_of_usedNum hused), hunknown]
        refine ⟨rfl, h.bound_of_used (List.mem_of_getElem? he) hused, ?_⟩
        exact fun e' he' hsrc' hdst' => hbehind e' he' hsrc' hdst' num hused
    · rw [receive_protocol_of_ne _ (Ne.symm hdst)] at hmode hq ⊢
      exact hold hmode hq

omit [DecidableEq ι] in
/-- A step that touches neither the network nor what clients have parked and can name. -/
theorem AnnouncedFirst.of_quiet {t : Session ι P} (ha : s.AnnouncedFirst)
    (hnet : t.network = s.network)
    (hsame : ∀ c, (t.protocol (.client c)).mode = (s.protocol (.client c)).mode ∧
      (t.protocol (.client c)).todo = (s.protocol (.client c)).todo ∧
      (t.protocol (.client c)).numToId = (s.protocol (.client c)).numToId) :
    t.AnnouncedFirst where
  flight := hnet ▸ ha.flight
  parked c hmode num hq := by
    rw [(hsame c).2.2, hnet]
    rw [(hsame c).2.1] at hq
    exact ha.parked c ((hsame c).1 ▸ hmode) num hq

/-- Registering channels keeps announcements first. -/
theorem AnnouncedFirst.withProtocol (ha : s.AnnouncedFirst) (p : Party ι)
    {d : ChannelProtocol (Load P)} (hmode : d.mode = (s.protocol p).mode)
    (htodo : d.todo = (s.protocol p).todo) (hnum : d.numToId = (s.protocol p).numToId) :
    (s.withProtocol p d).AnnouncedFirst := by
  refine ha.of_quiet rfl fun c => ?_
  by_cases hp : Party.client c = p
  · subst hp
    rw [withProtocol_self]
    exact ⟨hmode, htodo, hnum⟩
  · rw [withProtocol_of_ne _ hp]
    exact ⟨rfl, rfl, rfl⟩

/-- Every step over a transport in sending order keeps announcements first. -/
theorem AnnouncedFirst.step {t : Session ι P} {a : Action ι P} (ha : s.AnnouncedFirst)
    (h : s.Agreement) (hstep : s.step inOrder a = some t) : t.AnnouncedFirst := by
  rcases s.step_cases hstep with ⟨p, id, offer, -, rfl⟩ | ⟨p, call, rest, offer, -, howed, rfl⟩ |
    ⟨index, e, -, he, hfree, rfl⟩ | ⟨c, -, -, rfl⟩ | ⟨c, -, -, -, rfl⟩ | ⟨p, channel, id, -, rfl⟩ |
    ⟨p, channel, id, -, rfl⟩
  · exact ha.submit h p id.string offer
  · have ha₁ : (s.withOwed p rest).AnnouncedFirst := ha.of_quiet rfl fun _ => ⟨rfl, rfl, rfl⟩
    cases offer with
    | none => exact ha₁
    | some offer => exact ha₁.submit (h.withOwed howed) p call.1 offer
  · exact ha.receive h he hfree
  · exact ha.of_quiet rfl fun _ => ⟨rfl, rfl, rfl⟩
  · refine ha.advance h _ _ (s.start_network c) (List.Sublist.refl _) ?_ ?_ ?_
    · intro e he _ num hnum
      rw [List.mem_singleton.mp he] at hnum
      cases hnum
    · intro e he _ _ num hused
      rw [List.mem_singleton.mp he] at hused
      cases hused
    · intro c' hmode num hq
      by_cases hc : Party.client c' = .client c
      · rw [hc, start_protocol_self] at hq
        simp [ChannelProtocol.start] at hq
      · rw [start_protocol_of_ne _ hc] at hmode hq ⊢
        exact ha.of_parked h hmode hq
  · exact ha.withProtocol p rfl rfl rfl
  · exact ha.withProtocol p (by simp) (by simp) (by simp)

/-- When a session begins nothing is used, announced or parked. -/
theorem AnnouncedFirst.begins {members : List ι} (h : Begins members s) : s.AnnouncedFirst where
  flight := by
    apply List.pairwise_of_forall_mem_list
    intro e he _ _ _ _ _ num hused
    obtain ⟨c, -, -, -, hreq⟩ := h.network e he
    rw [hreq] at hused
    cases hused
  parked c hmode num hq := by
    have htodo := h.todo (.client c) (by simp [hmode])
    simp [htodo] at hq

/-- Announcements come first in every reachable state. -/
theorem AnnouncedFirst.reachable {members : List ι}
    (h : (sessionMachine P inOrder members).Reachable s) : s.AnnouncedFirst :=
  h.invariant (fun _ => AnnouncedFirst.begins) fun _ _ _ hr ha hstep =>
    ha.step (Agreement.reachable hr) hstep

omit [DecidableEq ι] in
/-- While no number of an id is announced on the way to a client, no packet there has the id. -/
theorem Agreement.named_eq_none (h : s.Agreement) {c : ι} {id : Str} {num : ℕ} (hb : s.Bound id num)
    (hnone : ∀ e ∈ s.network, e.src = .host → e.dst = .client c →
      e.out.message.announcedNum ≠ some num) :
    ∀ e ∈ s.network, e.src = .host → e.dst = .client c →
      e.out.message.named everyLoad id = none := by
  intro e he hsrc hdst
  cases hm : e.out.message with
  | idChannelPacket num' id' load =>
    have hok := h.messages e he
    rw [hm] at hok
    have hb' := hok.2.2 hsrc
    by_cases hid : id' = id
    · subst hid
      have hnum : num' = num := Option.some.inj (hb'.symm.trans hb)
      refine absurd ?_ (hnone e he hsrc hdst)
      rw [hm, ← hnum]
      rfl
    · simp [Message.named, hid]
  | _ => rfl

/-- Nothing of its link is in front of a packet that may be delivered. -/
theorem first_of_inOrder {index : ℕ} {e : Envelope ι P}
    (hfree : ∀ e' ∈ s.network.take index, inOrder e' e = false) :
    ∀ e' ∈ s.network.take index, ¬ (e'.src = e.src ∧ e'.dst = e.dst) := by
  intro e' he' hlink
  have hnot := hfree e' he'
  simp [inOrder, hlink.1, hlink.2] at hnot

/-- When a packet that uses a number may be delivered, the number is announced nowhere on its
link. -/
theorem AnnouncedFirst.not_announced (ha : s.AnnouncedFirst) {index : ℕ} {e : Envelope ι P}
    (he : s.network[index]? = some e) {c : ι} (hsrc : e.src = .host) (hdst : e.dst = .client c)
    (hfree : ∀ e' ∈ s.network.take index, inOrder e' e = false) {num : ℕ}
    (hused : e.out.message.usedNum = some num) :
    ∀ e' ∈ s.network, e'.src = .host → e'.dst = .client c →
      e'.out.message.announcedNum ≠ some num := by
  intro e' he' hsrc' hdst' hannounced
  rcases mem_eraseIdx_of_mem he he' with rfl | hother
  · cases hm : e'.out.message <;> simp_all [Message.usedNum, Message.announcedNum]
  · rcases rel_of_mem_eraseIdx ha.flight he hother with hbefore | hrel
    · exact first_of_inOrder hfree e' hbefore ⟨hsrc'.trans hsrc.symm, hdst'.trans hdst.symm⟩
    · exact hrel hsrc hsrc' (hdst'.trans hdst.symm) num hused hannounced

/-- Over a transport in sending order each delivery to a client is in turn. -/
theorem AnnouncedFirst.inTurn (ha : s.AnnouncedFirst) (h : s.Agreement) {index : ℕ}
    {e : Envelope ι P} (he : s.network[index]? = some e) {c : ι} (hsrc : e.src = .host)
    (hdst : e.dst = .client c) (hmode : (s.protocol (.client c)).mode = .client)
    (hfree : ∀ e' ∈ s.network.take index, inOrder e' e = false) :
    s.InTurn everyLoad (.deliver index) := by
  intro e₁ he₁ _
  rw [he] at he₁
  cases he₁
  have hfirst := first_of_inOrder hfree
  rw [hsrc, hdst] at hfirst ⊢
  cases hm : e.out.message with
  | fullSendPacket => trivial
  | idChannelPacket num id load =>
    intro _ e' he' hsrc' hdst'
    exact absurd ⟨hsrc', hdst'⟩ (hfirst e' he')
  | channelPacket num load =>
    intro _ id hid
    have htable := (h.client c hmode).table
    have hb := htable.sub id num ((htable.inverse id num).mpr hid)
    have hused : e.out.message.usedNum = some num := by rw [hm]; rfl
    refine ⟨h.named_eq_none hb (ha.not_announced he hsrc hdst hfree hused), ?_⟩
    by_contra hq
    have hne : queueAt (s.protocol (.client c)).todo num ≠ [] := by
      intro hnil
      simp [hnil] at hq
    rw [(ha.parked c hmode num hne).1] at hid
    cases hid
  | idNumPacket num id =>
    intro _ hq
    have hok := h.messages e (List.mem_of_getElem? he)
    rw [hm] at hok
    have hne : queueAt (s.protocol (.client c)).todo num ≠ [] := by
      intro hnil
      simp [hnil] at hq
    exact h.named_eq_none (hok.1 hsrc) (ha.parked c hmode num hne).2

/-! ## What a client has been handed -/

/-- The queue of a link to a client is the end of what the host has sent, a client that has not
started has been handed nothing, and nothing is on its way to one that is not connected. -/
structure Trailing (s : Session ι P) : Prop where
  suffix : ∀ c X, s.queueOn everyLoad (.down c) X <:+ s.sentOn everyLoad (.down c) X
  unstarted : ∀ c, (s.protocol (.client c)).mode = .idle → s.handed (.client c) = []
  offline : ∀ c, c ∉ s.connected →
    (s.protocol (.client c)).mode = .idle ∧ ∀ e ∈ s.network, e.dst ≠ .client c

/-- Sending keeps the modes and hands nothing over. -/
theorem submit_keeps (p q : Party ι) (id : Str) (offer : Offer P) :
    ((s.submit p id offer).protocol q).mode = (s.protocol q).mode ∧
      (s.submit p id offer).handed = s.handed ∧
      (s.submit p id offer).connected = s.connected := by
  rcases s.submit_cases p id offer with hsame | ⟨d, out, hsend, hsubmit⟩
  · rw [hsame]
    exact ⟨rfl, rfl, rfl⟩
  · rw [hsubmit]
    refine ⟨?_, rfl, rfl⟩
    by_cases hp : q = p
    · subst hp
      simp [(ChannelProtocol.sendChannelPacket_some hsend).1]
    · simp [hp]

omit [DecidableEq ι] in
/-- A copy goes to the host or to a connected client. -/
theorem connected_of_mem_copies {src : Party ι} {out : Outgoing (Load P)} {e : Envelope ι P}
    (he : e ∈ s.copies src out) {c : ι} (hdst : e.dst = .client c) : c ∈ s.connected := by
  obtain ⟨-, -, hroute⟩ := s.mem_copies.mp he
  cases src with
  | host =>
    obtain ⟨c', hc', heq⟩ := List.mem_map.mp hroute
    rw [hdst] at heq
    exact Party.client.inj heq ▸ hc'
  | client c' =>
    rw [List.mem_singleton.mp hroute] at hdst
    cases hdst

/-- The packets a `send` adds go to the host or to a connected client. -/
theorem mem_submit_network {p : Party ι} {id : Str} {offer : Offer P} {e : Envelope ι P}
    (he : e ∈ (s.submit p id offer).network) {c : ι} (hdst : e.dst = .client c) :
    e ∈ s.network ∨ c ∈ s.connected := by
  rcases s.submit_cases p id offer with hsame | ⟨d, out, hsend, hsubmit⟩
  · rw [hsame] at he
    exact .inl he
  · rw [hsubmit, commit_network, List.mem_append] at he
    exact he.imp_right fun hcopy => connected_of_mem_copies hcopy hdst

/-- An idle client is handed nothing. -/
theorem handed_receive_idle {index : ℕ} {e : Envelope ι P} {p : Party ι}
    (hmode : (s.protocol p).mode = .idle) : (s.receive index e).handed p = s.handed p := by
  by_cases hp : p = e.dst
  · subst hp
    rw [s.receive_handed_self]
    by_cases hm : e.out.message = .fullSendPacket
    · rw [hm]
      exact List.append_nil _
    · rw [ChannelProtocol.receive_idle _ hmode hm]
      exact List.append_nil _
  · rw [s.receive_handed_of_ne hp]

/-- Only starting a connected client changes a mode. -/
theorem mode_of_step {order : Envelope ι P → Envelope ι P → Bool} {t : Session ι P}
    {a : Action ι P} (hstep : s.step order a = some t) (p : Party ι) :
    (t.protocol p).mode = (s.protocol p).mode ∨
      ∃ c, p = .client c ∧ c ∈ s.connected ∧ (s.protocol p).mode = .idle ∧ t = s.start c := by
  have hregister : ∀ (q : Party ι) (d : ChannelProtocol (Load P)),
      d.mode = (s.protocol q).mode →
      ((s.withProtocol q d).protocol p).mode = (s.protocol p).mode := by
    intro q d hmode
    by_cases hp : p = q
    · subst hp
      rw [withProtocol_self, hmode]
    · rw [withProtocol_of_ne _ hp]
  rcases s.step_cases hstep with ⟨q, id, offer, -, rfl⟩ | ⟨q, call, rest, offer, -, howed, rfl⟩ |
    ⟨index, e, -, he, hfree, rfl⟩ | ⟨c, -, -, rfl⟩ | ⟨c, -, hc, hmode, rfl⟩ |
    ⟨q, channel, id, -, rfl⟩ | ⟨q, channel, id, -, rfl⟩
  · exact .inl (s.submit_keeps q p id.string offer).1
  · cases offer with
    | none => exact .inl rfl
    | some offer => exact .inl ((s.withOwed q rest).submit_keeps q p call.1 offer).1
  · left
    by_cases hdst : p = e.dst
    · rw [hdst, receive_protocol_self, ChannelProtocol.receive_mode]
    · rw [receive_protocol_of_ne _ hdst]
  · exact .inl rfl
  · by_cases hp : p = .client c
    · exact .inr ⟨c, hp, hc, hp ▸ hmode, rfl⟩
    · exact .inl (by rw [start_protocol_of_ne _ hp])
  · exact .inl (hregister q _ rfl)
  · exact .inl (hregister q _ (ChannelProtocol.unregisterNetworkChannel_mode ..))

/-- A step hands nothing to an idle party. -/
theorem handed_of_step {order : Envelope ι P → Envelope ι P → Bool} {t : Session ι P}
    {a : Action ι P} (hstep : s.step order a = some t) {p : Party ι}
    (hidle : (s.protocol p).mode = .idle) : t.handed p = s.handed p := by
  rcases s.step_cases hstep with ⟨q, id, offer, -, rfl⟩ | ⟨q, call, rest, offer, -, howed, rfl⟩ |
    ⟨index, e, -, he, hfree, rfl⟩ | ⟨c, -, -, rfl⟩ | ⟨c, -, hc, hmode, rfl⟩ |
    ⟨q, channel, id, -, rfl⟩ | ⟨q, channel, id, -, rfl⟩
  · rw [(s.submit_keeps q p id.string offer).2.1]
  · cases offer with
    | none => rfl
    | some offer =>
      show ((s.withOwed q rest).submit q call.1 offer).handed p = _
      rw [((s.withOwed q rest).submit_keeps q p call.1 offer).2.1]
      rfl
  · exact handed_receive_idle hidle
  · rfl
  · rfl
  · rfl
  · rfl

/-- A client that is not connected after a step was not before, and nothing was put on its way. -/
theorem offline_of_step {order : Envelope ι P → Envelope ι P → Bool} {t : Session ι P}
    {a : Action ι P} (hstep : s.step order a = some t) {c : ι} (hc : c ∉ t.connected) :
    c ∉ s.connected ∧ ∀ e ∈ t.network, e.dst = .client c → e ∈ s.network := by
  rcases s.step_cases hstep with ⟨p, id, offer, -, rfl⟩ | ⟨p, call, rest, offer, -, howed, rfl⟩ |
    ⟨index, e, -, he, hfree, rfl⟩ | ⟨c', -, -, rfl⟩ | ⟨c', -, -, hmode, rfl⟩ |
    ⟨p, channel, id, -, rfl⟩ | ⟨p, channel, id, -, rfl⟩
  · rw [(s.submit_keeps p .host id.string offer).2.2] at hc
    exact ⟨hc, fun e he hdst => (mem_submit_network he hdst).resolve_right hc⟩
  · cases offer with
    | none => exact ⟨hc, fun e he _ => he⟩
    | some offer =>
      have hsame := ((s.withOwed p rest).submit_keeps p .host call.1 offer).2.2
      have hc' : c ∉ (s.withOwed p rest).connected := hsame ▸ hc
      exact ⟨hc', fun e he hdst => (mem_submit_network he hdst).resolve_right hc'⟩
  · refine ⟨hc, fun e' he' hdst => (s.mem_receive_network he').resolve_right ?_⟩
    rintro ⟨out, -, hcopy⟩
    exact hc (connected_of_mem_copies hcopy hdst)
  · exact ⟨fun hold => hc (List.mem_append_left _ hold), fun e he _ => he⟩
  · refine ⟨hc, fun e he hdst => ?_⟩
    rw [start_network, List.mem_append, List.mem_singleton] at he
    refine he.resolve_right ?_
    rintro rfl
    cases hdst
  · exact ⟨hc, fun e he _ => he⟩
  · exact ⟨hc, fun e he _ => he⟩

/-- A client that is not connected has an empty queue. -/
theorem Trailing.queueOn_eq_nil (htr : s.Trailing) {c : ι} (hc : c ∉ s.connected) (X : Str) :
    s.queueOn everyLoad (.down c) X = [] := by
  obtain ⟨hidle, hnone⟩ := htr.offline c hc
  have hflight : ∀ f, s.flightOn (.down c) f = [] := by
    intro f
    apply List.filterMap_eq_nil_iff.mpr
    intro e he
    exact if_neg fun hlink => hnone e he hlink.2
  have hhanded : s.handedOn everyLoad (.down c) X = [] := by
    simp [handedOn, Link.dst, htr.unstarted c hidle]
  rw [queueOn, hhanded, hflight, hflight]
  simp [parkedOn, hidle]

/-- A delivery to an idle client takes the oldest packet off its queue. -/
theorem Trailing.queueOn_receive_idle (htr : s.Trailing) (ha : s.AnnouncedFirst) (h : s.Agreement)
    {index : ℕ} {e : Envelope ι P} (he : s.network[index]? = some e) {c : ι} (hsrc : e.src = .host)
    (hdst : e.dst = .client c) (hidle : (s.protocol e.dst).mode = .idle)
    (hfree : ∀ e' ∈ s.network.take index, inOrder e' e = false) (X : Str) :
    (s.receive index e).queueOn everyLoad (.down c) X <:+ s.queueOn everyLoad (.down c) X := by
  have hidle' : (s.protocol (.client c)).mode = .idle := hdst ▸ hidle
  have hmode : ((s.receive index e).protocol (.client c)).mode = .idle := by
    rw [← hdst, receive_protocol_self, ChannelProtocol.receive_mode, hidle]
  have hhost : (s.receive index e).hostNum X = s.hostNum X := by
    have hne : Party.host ≠ e.dst := by simp [hdst]
    rw [hostNum, receive_protocol_of_ne _ hne]
    rfl
  have hhanded : s.handedOn everyLoad (.down c) X = [] := by
    simp [handedOn, Link.dst, htr.unstarted c hidle']
  have hhanded' : (s.receive index e).handedOn everyLoad (.down c) X = [] := by
    simp [handedOn, Link.dst, handed_receive_idle hidle', htr.unstarted c hidle']
  have hparked : s.parkedOn everyLoad (s.hostNum X) (.down c) = [] := by simp [parkedOn, hidle']
  have hparked' : (s.receive index e).parkedOn everyLoad (s.hostNum X) (.down c) = [] := by
    simp [parkedOn, hmode]
  rw [queueOn, queueOn, hhanded, hhanded', hhost, hparked, hparked']
  simp only [List.nil_append, List.append_nil]
  -- nothing of the link is in front of the packet
  have hfirst : ∀ f : Message (Load P) → Option (Load P), ∀ e' ∈ s.network.take index,
      (Link.down c).carries f e' = none := by
    intro f e' he'
    have hnot := first_of_inOrder hfree e' he'
    rw [hsrc, hdst] at hnot
    exact if_neg hnot
  cases hnamed : (Link.down c).carries (Message.named everyLoad X) e with
  | some load =>
    have hnumbered : (Link.down c).carries (Message.numbered everyLoad (s.hostNum X)) e = none := by
      cases hm : e.out.message <;> simp_all [Link.carries, Message.named, Message.numbered]
    rw [flightOn_receive_of_none he (fun _ => Message.numbered_of_payload) hnumbered,
      flightOn_receive_of_first he (fun _ => Message.named_of_payload) hnamed (hfirst _)]
    exact List.suffix_cons _ _
  | none =>
    rw [flightOn_receive_of_none he (fun _ => Message.named_of_payload) hnamed]
    cases hnumbered : (Link.down c).carries (Message.numbered everyLoad (s.hostNum X)) e with
    | none =>
      rw [flightOn_receive_of_none he (fun _ => Message.numbered_of_payload) hnumbered]
    | some load =>
      have hselected := hnumbered
      rw [Link.carries, if_pos ⟨hsrc, hdst⟩] at hselected
      obtain ⟨num, hnum, hused⟩ := Message.usedNum_of_numbered hselected
      have hnone := h.named_eq_none hnum (ha.not_announced he hsrc hdst hfree hused)
      have hflight : s.flightOn (.down c) (Message.named everyLoad X) = [] := by
        apply List.filterMap_eq_nil_iff.mpr
        intro e' he'
        unfold Link.carries
        split
        · rename_i hlink
          exact hnone e' he' hlink.1 hlink.2
        · rfl
      rw [hflight, flightOn_receive_of_first he (fun _ => Message.numbered_of_payload) hnumbered
        (hfirst _)]
      exact List.suffix_cons _ _

/-- Every step keeps the queues the ends of what was sent. -/
theorem Trailing.step {t : Session ι P} {a : Action ι P} (htr : s.Trailing) (hst : s.Streams)
    (ha : s.AnnouncedFirst) (h : s.Agreement) (hstep : s.step inOrder a = some t) :
    t.Trailing where
  suffix c X := by
    have hqueue := queueStep hst h keepsNumbers_inOrder hstep (.down c)
      (fun index e heq he hsrc hdst hmode hfree => by
        rw [heq]
        have hclient : (s.protocol (.client c)).mode = .client := by
          cases hm : (s.protocol (.client c)).mode with
          | client => rfl
          | idle => exact absurd hm hmode
          | host => exact absurd hm (h.client_mode c)
        exact ha.inTurn h he hsrc hdst hclient hfree) X
    rcases hqueue with ⟨new, hsent, heq | ⟨hnot, heq⟩⟩ |
      ⟨c', index, e, hlink, he, hsrc, hdst, hidle, hfree, rfl⟩
    · obtain ⟨before, hbefore⟩ := htr.suffix c X
      rw [hsent, heq, ← hbefore, List.append_assoc]
      exact List.suffix_append _ _
    · have hc : c ∉ s.connected := fun hc => hnot (List.mem_map_of_mem hc)
      rw [heq, htr.queueOn_eq_nil hc]
      exact List.nil_suffix
    · obtain rfl : c = c' := Link.down.inj hlink
      exact (htr.queueOn_receive_idle ha h he hsrc hdst hidle hfree X).trans (htr.suffix c X)
  unstarted c hidle := by
    rcases mode_of_step hstep (.client c) with hmode | ⟨c', hc, -, -, rfl⟩
    · rw [hidle] at hmode
      rw [handed_of_step hstep hmode.symm]
      exact htr.unstarted c hmode.symm
    · rw [hc, start_protocol_self] at hidle
      cases hidle
  offline c hc := by
    obtain ⟨hold, hnet⟩ := offline_of_step hstep hc
    obtain ⟨hidle, hnone⟩ := htr.offline c hold
    refine ⟨?_, fun e he hdst => hnone e (hnet e he hdst) hdst⟩
    rcases mode_of_step hstep (.client c) with hmode | ⟨c', hc', hconnected, -, -⟩
    · rw [hmode, hidle]
    · exact absurd (Party.client.inj hc' ▸ hconnected) hold

/-- When a session begins all queues are empty. -/
theorem Trailing.begins {members : List ι} (h : Begins members s) : s.Trailing where
  suffix c X := by
    rw [(h.queueOn_eq_nil _ X).1]
    exact List.nil_suffix
  unstarted c _ := h.handed _
  offline c hc := by
    rw [h.connected] at hc
    refine ⟨by rw [h.client_mode, if_neg hc], fun e he hdst => ?_⟩
    obtain ⟨c', -, -, hhost, -⟩ := h.network e he
    rw [hhost] at hdst
    cases hdst

/-- The queues are the ends of what was sent in every reachable state. -/
theorem Trailing.reachable {members : List ι}
    (h : (sessionMachine P inOrder members).Reachable s) : s.Trailing :=
  h.invariant (fun _ => Trailing.begins) fun _ _ _ hr htr hstep =>
    htr.step (Streams.reachable hr) (AnnouncedFirst.reachable hr) (Agreement.reachable hr) hstep

/-- Every client that has started asks for what it parks. -/
theorem Ledger.started {order : Envelope ι P → Envelope ι P → Bool} {members : List ι}
    (h : (sessionMachine P order members).Reachable s) {c : ι}
    (hmode : (s.protocol (.client c)).mode = .client) : Ledger members s c := by
  revert hmode
  apply h.invariant
  · intro s hs hmode
    rw [hs.client_mode] at hmode
    by_cases hc : c ∈ members
    · exact Ledger.begins hs hc
    · rw [if_neg hc] at hmode
      cases hmode
  · intro s a t hr hledger hstep hmode
    rcases mode_of_step hstep (.client c) with hsame | ⟨c', hc, hconnected, hidle, rfl⟩
    · exact (hledger (hsame ▸ hmode)).step (Agreement.reachable hr) hstep
    · cases hc
      refine Ledger.of_start hconnected (Streams.reachable hr).nodup fun hmember => ?_
      rw [(Ledger.reachable hr hmember).mode] at hidle
      cases hidle

/-- When nothing is in flight, what a client in the session was handed for an id is the end of what
the host sent for it. -/
theorem Trailing.handedOn_suffix {members : List ι}
    (h : (sessionMachine P inOrder members).Reachable s) {c : ι}
    (hmode : (s.protocol (.client c)).mode = .client) (hnet : s.network = []) (X : Str) :
    s.handedOn everyLoad (.down c) X <:+ s.sentOn everyLoad (.down c) X := by
  have hflight : ∀ f, s.flightOn (.down c) f = [] := by simp [flightOn, hnet]
  have hparked : s.parkedOn everyLoad (s.hostNum X) (.down c) = [] :=
    (Ledger.started h hmode).parkedOn_eq_nil hnet _
  have hsuffix := (Trailing.reachable h).suffix c X
  rw [queueOn, hflight, hflight, hparked] at hsuffix
  simpa using hsuffix

end Session

end Multicrew.Core
