import Multicrew.Core.InOrderTransport

/-!
# The full state and what a client still gets

A client asks for the full state once, when it starts, and the host answers with one packet for
each channel registered at that moment, provided the channel answers at all. So once the host has
sent anything for such an id, a client in the session has been handed something for it, or
something is coming: on its way, parked, asked for, or owed.
-/

namespace Multicrew.Core

open Std (TreeMap TreeSet)
open Multicrew.Library

namespace Session

variable {ι P : Type*} [DecidableEq ι] {members : List ι} {s t : Session ι P}

/-- The part of a queue that has not been handed over. -/
def restOn (s : Session ι P) (l : Link ι) (X : Str) : List (Load P) :=
  s.flightOn l (Message.named everyLoad X) ++ s.parkedOn everyLoad (s.hostNum X) l ++
    s.flightOn l (Message.numbered everyLoad (s.hostNum X))

/-- The request of client `c` for the full state is on its way. -/
def Requested (s : Session ι P) (c : ι) : Prop :=
  ∃ e ∈ s.network, e.src = .client c ∧ e.dst = .host ∧ e.out.message = .fullSendPacket

/-- Client `c` gets something for id `X` without the host's `X` changing again. -/
def Coming (s : Session ι P) (c : ι) (X : Str) : Prop :=
  s.restOn (.down c) X ≠ [] ∨ s.Requested c ∨ ∃ channel, (X, channel) ∈ s.owed .host

/-- The host sends for an id in `E` only while a channel is registered for it, answers for it when
the full state is asked for, and never takes its channels away. -/
def HostAnswers (E : Str → Prop) (s : Session ι P) : Action ι P → Prop
  | .send .host id _ => E id.string → (s.protocol .host).receivers id.string ≠ []
  | .sendFullState .host offer =>
    ∀ call rest, s.owed .host = call :: rest → E call.1 → offer ≠ none
  | .unregister .host _ id => ¬ E id.string
  | _ => True

/-- The host's channels for the ids in `E`: those it has sent for and those it owes are registered,
and a client in the session that has been handed nothing for an id has something coming. -/
structure FullState (E : Str → Prop) (s : Session ι P) : Prop where
  sent : ∀ X, E X → ∀ load, (X, load) ∈ s.submitted .host → (s.protocol .host).receivers X ≠ []
  owed : ∀ call ∈ s.owed .host, E call.1 → (s.protocol .host).receivers call.1 ≠ []
  supplied : ∀ c, (s.protocol (.client c)).mode = .client → ∀ X, E X →
    s.sentOn everyLoad (.down c) X ≠ [] →
      s.handedOn everyLoad (.down c) X ≠ [] ∨ s.Coming c X

/-- A queue is what was handed over and the rest. -/
theorem queueOn_eq (s : Session ι P) (l : Link ι) (X : Str) :
    s.queueOn everyLoad l X = s.handedOn everyLoad l X ++ s.restOn l X := by
  simp only [queueOn, restOn, List.append_assoc]

/-- Only a delivery hands anything over. -/
theorem handed_eq_of_step {order : Envelope ι P → Envelope ι P → Bool} {a : Action ι P}
    (hstep : s.step order a = some t) (hother : ∀ index, a ≠ .deliver index) :
    t.handed = s.handed := by
  rcases s.step_cases hstep with ⟨q, id, offer, -, rfl⟩ | ⟨q, call, rest, offer, -, howed, rfl⟩ |
    ⟨index, e, hdeliver, he, hfree, rfl⟩ | ⟨c, -, -, rfl⟩ | ⟨c, -, hc, hmode, rfl⟩ |
    ⟨q, channel, id, -, rfl⟩ | ⟨q, channel, id, -, rfl⟩
  · exact (s.submit_keeps q q id.string offer).2.1
  · cases offer with
    | none => rfl
    | some offer => exact ((s.withOwed q rest).submit_keeps q q call.1 offer).2.1
  · exact absurd hdeliver (hother index)
  · rfl
  · rfl
  · rfl
  · rfl

/-- A step only adds to what was handed over. -/
theorem handed_prefix_of_step {order : Envelope ι P → Envelope ι P → Bool} {a : Action ι P}
    (hstep : s.step order a = some t) (p : Party ι) : s.handed p <+: t.handed p := by
  by_cases hdeliver : ∃ index, a = .deliver index
  · obtain ⟨index, rfl⟩ := hdeliver
    obtain ⟨e, he⟩ : ∃ e, s.network[index]? = some e := by
      cases he : s.network[index]? with
      | none => simp [Session.step, he] at hstep
      | some e => exact ⟨e, rfl⟩
    rw [s.step_deliver he hstep]
    by_cases hp : p = e.dst
    · subst hp
      rw [s.receive_handed_self]
      exact List.prefix_append _ _
    · rw [s.receive_handed_of_ne hp]
  · rw [handed_eq_of_step hstep fun index ha => hdeliver ⟨index, ha⟩]

/-- What a step adds to what a client was handed for an id. -/
theorem handedOn_prefix_of_step {order : Envelope ι P → Envelope ι P → Bool} {a : Action ι P}
    (hstep : s.step order a = some t) (l : Link ι) (X : Str) :
    s.handedOn everyLoad l X <+: t.handedOn everyLoad l X := by
  obtain ⟨added, hadded⟩ := handed_prefix_of_step hstep l.dst
  unfold handedOn
  rw [← hadded, List.filterMap_append]
  exact List.prefix_append _ _

/-- A step of a session in sending order appends to the queue of a client in the session what it
sends. -/
theorem queueOn_of_step {a : Action ι P} (hr : (sessionMachine P inOrder members).Reachable s)
    (hstep : s.step inOrder a = some t) {c : ι}
    (hmode : (s.protocol (.client c)).mode = .client) (X : Str) :
    ∃ new, t.sentOn everyLoad (.down c) X = s.sentOn everyLoad (.down c) X ++ new ∧
      t.queueOn everyLoad (.down c) X = s.queueOn everyLoad (.down c) X ++ new := by
  have h := Agreement.reachable hr
  have hqueue := queueStep (Streams.reachable hr) h keepsNumbers_inOrder hstep (.down c)
    (fun index e heq he hsrc hdst _ hfree => by
      rw [heq]
      exact (AnnouncedFirst.reachable hr).inTurn h he hsrc hdst hmode hfree) X
  rcases hqueue with ⟨new, hsent, heq | ⟨hnot, -⟩⟩ | ⟨c', index, e, hlink, -, -, hdst, hidle, -⟩
  · exact ⟨new, hsent, heq⟩
  · exact absurd (List.mem_map_of_mem (Ledger.started hr hmode).connected) hnot
  · obtain rfl : c = c' := Link.down.inj hlink
    rw [hdst, hmode] at hidle
    cases hidle

/-- Sending keeps the registered channels. -/
theorem submit_channels (s : Session ι P) (p q : Party ι) (id : Str) (offer : Offer P) :
    ((s.submit p id offer).protocol q).channels = (s.protocol q).channels := by
  rcases s.submit_cases p id offer with hsame | ⟨d, out, hsend, hsubmit⟩
  · rw [hsame]
  · rw [hsubmit, commit_protocol]
    by_cases hp : q = p
    · subst hp
      rw [withProtocol_self]
      have hkeep := (s.protocol q).sendChannelPacket_channels
        (⟨offer.packet, offer.safe, (s.submitted q).length⟩ : Load P) offer.safe offer.prio id
      rw [hsend] at hkeep
      exact hkeep
    · rw [withProtocol_of_ne _ hp]

/-- Only registering and unregistering change the channels of an id. -/
theorem mem_receivers_of_step {order : Envelope ι P → Envelope ι P → Bool} {a : Action ι P}
    (hstep : s.step order a = some t) (p : Party ι) (channel : ℕ) (X : Str) :
    channel ∈ (t.protocol p).receivers X ↔ match a with
      | .register q channel' id => channel ∈ (s.protocol p).receivers X ∨
          (p = q ∧ channel = channel' ∧ X = id.string)
      | .unregister q channel' id => channel ∈ (s.protocol p).receivers X ∧
          ¬ (p = q ∧ channel = channel' ∧ X = id.string)
      | _ => channel ∈ (s.protocol p).receivers X := by
  have hsame : (t.protocol p).channels = (s.protocol p).channels →
      (channel ∈ (t.protocol p).receivers X ↔ channel ∈ (s.protocol p).receivers X) := by
    intro hchannels
    simp only [ChannelProtocol.receivers, hchannels]
  rcases s.step_cases hstep with ⟨q, id, offer, rfl, rfl⟩ | ⟨q, call, rest, offer, rfl, howed, rfl⟩ |
    ⟨index, e, rfl, he, hfree, rfl⟩ | ⟨c, rfl, -, rfl⟩ | ⟨c, rfl, hc, hmode, rfl⟩ |
    ⟨q, channel', id, rfl, rfl⟩ | ⟨q, channel', id, rfl, rfl⟩
  · exact hsame (s.submit_channels q p id.string offer)
  · cases offer with
    | none => exact Iff.rfl
    | some offer => exact hsame ((s.withOwed q rest).submit_channels q p call.1 offer)
  · apply hsame
    by_cases hp : p = e.dst
    · subst hp
      rw [receive_protocol_self, ChannelProtocol.receive_channels]
    · rw [receive_protocol_of_ne _ hp]
  · exact Iff.rfl
  · apply hsame
    by_cases hp : p = .client c
    · subst hp
      rw [start_protocol_self]
      rfl
    · rw [start_protocol_of_ne _ hp]
  · by_cases hp : p = q
    · subst hp
      simp [ChannelProtocol.mem_receivers_registerNetworkChannel]
    · simp [hp]
  · by_cases hp : p = q
    · subst hp
      simp [ChannelProtocol.mem_receivers_unregisterNetworkChannel]
    · simp [hp]

/-- A channel the host answers for stays registered. -/
theorem registered_of_step {E : Str → Prop} {order : Envelope ι P → Envelope ι P → Bool}
    {a : Action ι P} (hanswers : s.HostAnswers E a) (hstep : s.step order a = some t) {X : Str}
    (hE : E X) (hX : (s.protocol .host).receivers X ≠ []) :
    (t.protocol .host).receivers X ≠ [] := by
  obtain ⟨channel, hchannel⟩ := List.exists_mem_of_ne_nil _ hX
  suffices hmem : channel ∈ (t.protocol .host).receivers X from List.ne_nil_of_mem hmem
  rw [mem_receivers_of_step hstep]
  cases a with
  | register q channel' id => exact .inl hchannel
  | unregister q channel' id =>
    refine ⟨hchannel, ?_⟩
    rintro ⟨rfl, -, rfl⟩
    exact hanswers hE
  | _ => exact hchannel

/-- What a `send` adds to the network, the histories and the calls owed. -/
theorem submit_adds (s : Session ι P) (p : Party ι) (id : Str) (offer : Offer P) :
    s.network <+: (s.submit p id offer).network ∧ (s.submit p id offer).owed = s.owed ∧
      ∀ q entry, entry ∈ (s.submit p id offer).submitted q →
        entry ∈ s.submitted q ∨ q = p ∧ entry.1 = id ∧ entry.2.packet = offer.packet := by
  rcases s.submit_cases p id offer with hsame | ⟨d, out, hsend, hsubmit⟩
  · rw [hsame]
    exact ⟨List.prefix_refl _, rfl, fun q entry hentry => .inl hentry⟩
  · rw [hsubmit]
    refine ⟨List.prefix_append _ _, rfl, fun q entry hentry => ?_⟩
    by_cases hq : q = p
    · subst hq
      rw [commit_submitted_self, List.mem_append, List.mem_singleton] at hentry
      exact hentry.imp_right fun heq => ⟨rfl, by rw [heq], by rw [heq]⟩
    · rw [s.commit_submitted_of_ne hq] at hentry
      exact .inl hentry

/-- A request for the full state stays on its way until the host owes all its channels. -/
theorem requested_of_step {order : Envelope ι P → Envelope ι P → Bool} {a : Action ι P}
    (hstep : s.step order a = some t) {c : ι} (hreq : s.Requested c) :
    t.Requested c ∨ ∀ X, (s.protocol .host).receivers X ≠ [] →
      ∃ channel, (X, channel) ∈ t.owed .host := by
  obtain ⟨e, he, hsrc, hdst, hm⟩ := hreq
  rcases s.step_cases hstep with ⟨q, id, offer, -, rfl⟩ | ⟨q, call, rest, offer, -, howed, rfl⟩ |
    ⟨index, e', -, he', hfree, rfl⟩ | ⟨c', -, -, rfl⟩ | ⟨c', -, hc, hmode, rfl⟩ |
    ⟨q, channel, id, -, rfl⟩ | ⟨q, channel, id, -, rfl⟩
  · exact .inl ⟨e, (s.submit_adds q id.string offer).1.subset he, hsrc, hdst, hm⟩
  · cases offer with
    | none => exact .inl ⟨e, he, hsrc, hdst, hm⟩
    | some offer =>
      have hnet := ((s.withOwed q rest).submit_adds q call.1 offer).1
      exact .inl ⟨e, hnet.subset he, hsrc, hdst, hm⟩
  · rcases mem_eraseIdx_of_mem he' he with rfl | hother
    · right
      intro X hX
      obtain ⟨channel, hchannel⟩ := List.exists_mem_of_ne_nil _ hX
      refine ⟨channel, ?_⟩
      rw [← hdst, receive_owed_self, hm, hdst]
      exact List.mem_append_right _ ((s.protocol .host).mem_handleFullState_iff.mpr hchannel)
    · exact .inl ⟨e, List.mem_append_left _ hother, hsrc, hdst, hm⟩
  · exact .inl ⟨e, he, hsrc, hdst, hm⟩
  · exact .inl ⟨e, List.mem_append_left _ he, hsrc, hdst, hm⟩
  · exact .inl ⟨e, he, hsrc, hdst, hm⟩
  · exact .inl ⟨e, he, hsrc, hdst, hm⟩

/-- A call the host owes stays owed until it is made. -/
theorem owed_of_step {order : Envelope ι P → Envelope ι P → Bool} {a : Action ι P}
    (hstep : s.step order a = some t) {call : Str × ℕ} (hcall : call ∈ s.owed .host) :
    call ∈ t.owed .host ∨ ∃ offer rest, a = .sendFullState .host offer ∧
      s.owed .host = call :: rest ∧ t = match offer with
        | none => s.withOwed .host rest
        | some offer => (s.withOwed .host rest).submit .host call.1 offer := by
  rcases s.step_cases hstep with ⟨q, id, offer, -, rfl⟩ | ⟨q, call', rest, offer, rfl, howed, rfl⟩ |
    ⟨index, e, -, he, hfree, rfl⟩ | ⟨c, -, -, rfl⟩ | ⟨c, -, hc, hmode, rfl⟩ |
    ⟨q, channel, id, -, rfl⟩ | ⟨q, channel, id, -, rfl⟩
  · left
    rw [(s.submit_adds q id.string offer).2.1]
    exact hcall
  · by_cases hq : Party.host = q
    · subst hq
      rw [howed, List.mem_cons] at hcall
      rcases hcall with rfl | hrest
      · exact .inr ⟨offer, rest, rfl, howed, rfl⟩
      · left
        cases offer with
        | none => simpa using hrest
        | some offer =>
          show call ∈ ((s.withOwed .host rest).submit .host call'.1 offer).owed .host
          rw [((s.withOwed .host rest).submit_adds .host call'.1 offer).2.1]
          simpa using hrest
    · left
      cases offer with
      | none => simpa [hq] using hcall
      | some offer =>
        show call ∈ ((s.withOwed q rest).submit q call'.1 offer).owed .host
        rw [((s.withOwed q rest).submit_adds q call'.1 offer).2.1]
        simpa [hq] using hcall
  · left
    by_cases hdst : Party.host = e.dst
    · rw [hdst, receive_owed_self, ← hdst]
      exact List.mem_append_left _ hcall
    · rw [s.receive_owed_of_ne hdst]
      exact hcall
  · exact .inl hcall
  · exact .inl hcall
  · exact .inl hcall
  · exact .inl hcall

/-- What the host comes to owe is a call of a registered channel. -/
theorem owed_new_of_step {order : Envelope ι P → Envelope ι P → Bool} {a : Action ι P}
    (hstep : s.step order a = some t) {call : Str × ℕ} (hcall : call ∈ t.owed .host)
    (hnew : call ∉ s.owed .host) : call.2 ∈ (s.protocol .host).receivers call.1 := by
  rcases s.step_cases hstep with ⟨q, id, offer, -, rfl⟩ | ⟨q, call', rest, offer, rfl, howed, rfl⟩ |
    ⟨index, e, -, he, hfree, rfl⟩ | ⟨c, -, -, rfl⟩ | ⟨c, -, hc, hmode, rfl⟩ |
    ⟨q, channel, id, -, rfl⟩ | ⟨q, channel, id, -, rfl⟩
  · rw [(s.submit_adds q id.string offer).2.1] at hcall
    exact absurd hcall hnew
  · have hrest : call ∈ (s.withOwed q rest).owed .host := by
      cases offer with
      | none => exact hcall
      | some offer => rwa [((s.withOwed q rest).submit_adds q call'.1 offer).2.1] at hcall
    by_cases hq : Party.host = q
    · subst hq
      rw [withOwed_self] at hrest
      exact absurd (howed ▸ List.mem_cons_of_mem _ hrest) hnew
    · rw [withOwed_of_ne _ hq] at hrest
      exact absurd hrest hnew
  · by_cases hdst : Party.host = e.dst
    · rw [hdst] at hcall hnew ⊢
      rw [receive_owed_self, List.mem_append] at hcall
      have hadded := hcall.resolve_left hnew
      by_cases hm : e.out.message = .fullSendPacket
      · rw [hm] at hadded
        exact (ChannelProtocol.mem_handleFullState_iff _).mp hadded
      · rw [ChannelProtocol.receive_fullState _ hm] at hadded
        cases hadded
    · rw [s.receive_owed_of_ne hdst] at hcall
      exact absurd hcall hnew
  · exact absurd hcall hnew
  · exact absurd hcall hnew
  · exact absurd hcall hnew
  · exact absurd hcall hnew

/-- What a step adds to the history of the host was sent on a channel or for the full state. -/
theorem submitted_of_step {order : Envelope ι P → Envelope ι P → Bool} {a : Action ι P}
    (hstep : s.step order a = some t) {entry : Str × Load P} (hentry : entry ∈ t.submitted .host) :
    entry ∈ s.submitted .host ∨ (∃ id offer, a = .send .host id offer ∧ entry.1 = id.string ∧
      entry.2.packet = offer.packet) ∨
    ∃ call rest offer, a = .sendFullState .host (some offer) ∧ s.owed .host = call :: rest ∧
      entry.1 = call.1 ∧ entry.2.packet = offer.packet := by
  rcases s.step_cases hstep with ⟨q, id, offer, rfl, rfl⟩ | ⟨q, call, rest, offer, rfl, howed, rfl⟩ |
    ⟨index, e, -, he, hfree, rfl⟩ | ⟨c, -, -, rfl⟩ | ⟨c, -, hc, hmode, rfl⟩ |
    ⟨q, channel, id, -, rfl⟩ | ⟨q, channel, id, -, rfl⟩
  · refine ((s.submit_adds q id.string offer).2.2 _ _ hentry).imp_right ?_
    rintro ⟨rfl, hid, hpacket⟩
    exact .inl ⟨id, offer, rfl, hid, hpacket⟩
  · cases offer with
    | none => exact .inl hentry
    | some offer =>
      refine (((s.withOwed q rest).submit_adds q call.1 offer).2.2 _ _ hentry).imp_right ?_
      rintro ⟨rfl, hid, hpacket⟩
      exact .inr ⟨call, rest, offer, rfl, howed, hid, hpacket⟩
  · exact .inl hentry
  · exact .inl hentry
  · exact .inl hentry
  · exact .inl hentry
  · exact .inl hentry

omit [DecidableEq ι] in
/-- The host has sent something for an id that appears in its history. -/
theorem mem_submitted_of_sentOn {c : ι} {X : Str} (h : s.sentOn everyLoad (.down c) X ≠ []) :
    ∃ load, (X, load) ∈ s.submitted .host := by
  obtain ⟨load, hload⟩ := List.exists_mem_of_ne_nil _ h
  obtain ⟨⟨id, load'⟩, hentry, hsel⟩ := List.mem_filterMap.mp hload
  simp only [selectFor, Option.ite_none_right_eq_some] at hsel
  exact ⟨load', hsel.1.1 ▸ hentry⟩

/-- A `send` of the host reaches its connection and the history of the id. -/
theorem sentOn_submit_host (hmode : (s.protocol .host).mode = .host) (id : Str) (offer : Offer P)
    (c : ι) : (s.submit .host id offer).sentOn everyLoad (.down c) id =
      s.sentOn everyLoad (.down c) id ++
        [⟨offer.packet, offer.safe, (s.submitted .host).length⟩] := by
  rcases hsend : (s.protocol .host).sendChannelPacket ⟨offer.packet, offer.safe,
    (s.submitted .host).length⟩ offer.safe offer.prio id with ⟨d, _ | out⟩
  · rcases (s.protocol .host).sendChannelPacket_host hmode ⟨offer.packet, offer.safe,
      (s.submitted .host).length⟩ offer.safe offer.prio id with ⟨n, -, -, heq⟩ | ⟨-, heq⟩
    · rw [hsend] at heq
      cases heq
    · rw [hsend] at heq
      cases heq
  · rw [s.submit_of_some hsend, sentOn_commit]
    simp [selectFor, everyLoad, Link.src]

/-- What is coming keeps coming until something is handed over. -/
theorem coming_of_step {E : Str → Prop} {a : Action ι P}
    (hr : (sessionMachine P inOrder members).Reachable s) (hanswers : s.HostAnswers E a)
    (hstep : s.step inOrder a = some t) {c : ι}
    (hmode : (s.protocol (.client c)).mode = .client) {X : Str} (hE : E X)
    (hX : (s.protocol .host).receivers X ≠ []) (hcoming : s.Coming c X)
    (hsame : t.handedOn everyLoad (.down c) X = s.handedOn everyLoad (.down c) X) :
    t.Coming c X := by
  obtain ⟨new, hsent, hqueue⟩ := queueOn_of_step hr hstep hmode X
  have hrest : t.restOn (.down c) X = s.restOn (.down c) X ++ new := by
    rw [queueOn_eq, queueOn_eq, hsame, List.append_assoc] at hqueue
    exact List.append_cancel_left hqueue
  rcases hcoming with hold | hreq | ⟨channel, hcall⟩
  · left
    rw [hrest]
    exact List.append_ne_nil_of_left_ne_nil hold _
  · rcases requested_of_step hstep hreq with hstill | howed
    · exact .inr (.inl hstill)
    · exact .inr (.inr (howed X hX))
  · rcases owed_of_step hstep hcall with hstill | ⟨offer, rest, rfl, howed, rfl⟩
    · exact .inr (.inr ⟨channel, hstill⟩)
    · -- the host makes the call, and its packet joins the queue
      left
      cases offer with
      | none => exact absurd rfl (hanswers _ _ howed hE)
      | some offer =>
        have hnew : new ≠ [] := by
          rintro rfl
          have hhost : ((s.withOwed .host rest).protocol .host).mode = .host :=
            (Agreement.reachable hr).host_mode
          have happended : ((s.withOwed .host rest).submit .host X offer).sentOn everyLoad
              (.down c) X = s.sentOn everyLoad (.down c) X ++ [_] :=
            sentOn_submit_host hhost X offer c
          have hlength := congrArg List.length (happended.symm.trans hsent)
          simp at hlength
        rw [hrest]
        exact List.append_ne_nil_of_right_ne_nil _ hnew

/-- Every step in which the host answers keeps clients supplied. -/
theorem FullState.step {E : Str → Prop} {a : Action ι P} (hfull : s.FullState E)
    (hr : (sessionMachine P inOrder members).Reachable s) (hanswers : s.HostAnswers E a)
    (hstep : s.step inOrder a = some t) : t.FullState E where
  sent X hE load hload := by
    apply registered_of_step hanswers hstep hE
    rcases submitted_of_step hstep hload with hold | ⟨id, offer, rfl, hid, -⟩ |
      ⟨call, rest, offer, -, howed, hid, -⟩
    · exact hfull.sent X hE load hold
    · obtain rfl : X = id.string := hid
      exact hanswers hE
    · obtain rfl : X = call.1 := hid
      exact hfull.owed call (howed ▸ List.mem_cons_self) hE
  owed call hcall hE := by
    apply registered_of_step hanswers hstep hE
    by_cases hold : call ∈ s.owed .host
    · exact hfull.owed call hold hE
    · exact List.ne_nil_of_mem (owed_new_of_step hstep hcall hold)
  supplied c hmode X hE hsent := by
    rcases mode_of_step hstep (.client c) with hsame | ⟨c', hc, -, -, rfl⟩
    · rw [hsame] at hmode
      obtain ⟨new, hnew, hqueue⟩ := queueOn_of_step hr hstep hmode X
      by_cases hhanded : t.handedOn everyLoad (.down c) X = s.handedOn everyLoad (.down c) X
      · by_cases hold : s.sentOn everyLoad (.down c) X = []
        · -- what the step sends is on its way
          right
          left
          rw [queueOn_eq, queueOn_eq, hhanded, List.append_assoc] at hqueue
          rw [List.append_cancel_left hqueue]
          rw [hnew, hold, List.nil_append] at hsent
          exact List.append_ne_nil_of_right_ne_nil _ hsent
        · rcases hfull.supplied c hmode X hE hold with hgot | hcoming
          · left
            rw [hhanded]
            exact hgot
          · obtain ⟨load, hload⟩ := mem_submitted_of_sentOn hold
            exact .inr (coming_of_step hr hanswers hstep hmode hE (hfull.sent X hE load hload)
              hcoming hhanded)
      · left
        rintro hnil
        have hprefix := handedOn_prefix_of_step hstep (.down c) X
        rw [hnil, List.prefix_nil] at hprefix
        exact hhanded (hnil.trans hprefix.symm)
    · cases hc
      have hnet := s.start_network c
      exact .inr (.inr (.inl ⟨_, hnet ▸ List.mem_append_right _ (List.mem_singleton_self _), rfl, rfl,
        rfl⟩))

/-- When nothing is in flight and the host owes nothing, nothing is coming. -/
theorem not_coming {c : ι} (hr : (sessionMachine P inOrder members).Reachable s)
    (hmode : (s.protocol (.client c)).mode = .client) (hnet : s.network = [])
    (howed : s.owed .host = []) (X : Str) : ¬ s.Coming c X := by
  rintro (hrest | ⟨e, he, -⟩ | ⟨channel, hcall⟩)
  · apply hrest
    have hflight : ∀ f, s.flightOn (.down c) f = [] := by simp [flightOn, hnet]
    have hparked : s.parkedOn everyLoad (s.hostNum X) (.down c) = [] :=
      (Ledger.started hr hmode).parkedOn_eq_nil hnet _
    rw [restOn, hflight, hflight, hparked]
    rfl
  · rw [hnet] at he
    cases he
  · rw [howed] at hcall
    cases hcall

/-- When nothing is in flight and the host owes nothing, a client in the session was last handed
what the host last sent for an id it answers for. -/
theorem FullState.last_handed {E : Str → Prop} (hfull : s.FullState E) {c : ι}
    (hr : (sessionMachine P inOrder members).Reachable s)
    (hmode : (s.protocol (.client c)).mode = .client) (hnet : s.network = [])
    (howed : s.owed .host = []) {X : Str} (hE : E X) :
    (s.handedOn everyLoad (.down c) X).getLast? = (s.sentOn everyLoad (.down c) X).getLast? := by
  obtain ⟨before, hbefore⟩ := Trailing.handedOn_suffix hr hmode hnet X
  by_cases hsent : s.sentOn everyLoad (.down c) X = []
  · rw [hsent] at hbefore ⊢
    rw [(List.append_eq_nil_iff.mp hbefore).2]
  · have hgot := (hfull.supplied c hmode X hE hsent).resolve_right
      (not_coming hr hmode hnet howed X)
    rw [← hbefore, List.getLast?_append_of_ne_nil _ hgot]

end Session

end Multicrew.Core
