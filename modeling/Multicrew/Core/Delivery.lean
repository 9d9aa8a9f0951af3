import Multicrew.Core.ChannelNumbers
import Multicrew.Library.Pool
import Mathlib.Algebra.Order.Group.Multiset

/-!
# Exactly-once delivery

Every payload the host sends is, for each client that is in the session from its beginning, in
one of three places: handed to `receiveChannelPacket`, in flight to the client, or parked in its
`todo` map. A parked queue always has a request or a reply for its number under way, so nothing
is parked for ever. Requests and replies carry no payload, which is why any number of them for
one number neither loses nor repeats a packet.
-/

namespace Multicrew.Core

open Std (TreeMap TreeSet)
open Multicrew.Library

/-- The answers of the protocol to a message never carry a payload. -/
theorem ChannelProtocol.payload_receive_sent {P : Type*} (d : ChannelProtocol P) (m : Message P) :
    ∀ out ∈ (d.receive m).sent, out.message.payload = none := by
  cases m with
  | fullSendPacket => simp [receive]
  | channelPacket num packet =>
    simp only [receive, receiveChannel]
    split
    · simp
    · split
      · simp [Message.payload]
      · simp
    · simp
  | idChannelPacket num id packet =>
    simp only [receive, receiveIdChannel]
    split <;> simp [Message.payload]
  | idNumPacket num string =>
    simp only [receive, receiveIdNum]
    split <;> simp [Message.payload]

/-- What `send` gives to the connection carries the packet; nothing is parked by sending. -/
theorem ChannelProtocol.sendChannelPacket_some {P : Type*} {d d' : ChannelProtocol P} {packet : P}
    {safe : Bool} {prio : Priority} {id : Str} {out : Outgoing P}
    (h : d.sendChannelPacket packet safe prio id = (d', some out)) :
    d'.mode = d.mode ∧ d'.todo = d.todo ∧ out.message.payload = some packet := by
  rcases d.sendChannelPacket_cases h with ⟨num, -, rfl, rfl⟩ | ⟨-, hmode, htodo, -, num, hm⟩
  · exact ⟨rfl, rfl, rfl⟩
  · rw [hm]
    exact ⟨hmode, htodo, rfl⟩

namespace Session

variable {ι P : Type*} [DecidableEq ι] {members : List ι}

/-- The payload of a packet on its way to client `c`. -/
def payloadTo (c : ι) (e : Envelope ι P) : Option (Load P) :=
  if e.dst = .client c then e.out.message.payload else none

/-- The payloads in flight to a client. -/
def inFlight (s : Session ι P) (c : ι) : Multiset (Load P) :=
  (s.network.filterMap (payloadTo c) : List (Load P))

/-- The payloads handed to `receiveChannelPacket` on a client. -/
def delivered (s : Session ι P) (c : ι) : Multiset (Load P) :=
  ((s.handed (.client c)).map fun x => x.2.packet : List (Load P))

/-- The payloads waiting in the `todo` map of a client. -/
def parked (s : Session ι P) (c : ι) : Multiset (Load P) :=
  contents (s.protocol (.client c)).todo

/-- The payloads the host sent on all channels. -/
def sentByHost (s : Session ι P) : Multiset (Load P) :=
  ((s.submitted .host).map Prod.snd : List (Load P))

/-- A request of client `c` for the id of `num`, or a reply with it on its way to `c`. -/
def Asks (c : ι) (num : ℕ) (e : Envelope ι P) : Prop :=
  (e.src = .client c ∧ e.dst = .host ∨ e.dst = .client c) ∧
    ∃ string, e.out.message = .idNumPacket num string

/-- The accounts of one client that has started; they balance if it is one of the `members` that
were there from the beginning. -/
structure Ledger (members : List ι) (s : Session ι P) (c : ι) : Prop where
  connected : c ∈ s.connected
  nodup : s.connected.Nodup
  mode : (s.protocol (.client c)).mode = .client
  balance : c ∈ members → s.sentByHost = s.delivered c + s.inFlight c + s.parked c
  asked : ∀ num : ℕ, queueAt (s.protocol (.client c)).todo num ≠ [] → ∃ e ∈ s.network, Asks c num e
  queues : ∀ num : ℕ, (s.protocol (.client c)).todo[num]? ≠ some []

/-- A packet from the host reaches each connected client once. -/
theorem filterMap_payloadTo_copies_host {s : Session ι P} {c : ι} (hc : c ∈ s.connected)
    (hnodup : s.connected.Nodup) (out : Outgoing (Load P)) :
    (s.copies .host out).filterMap (payloadTo c) = out.message.payload.toList := by
  have hother : ∀ e : Envelope ι P, e.dst ≠ .client c → payloadTo c e = none :=
    fun e hdst => if_neg hdst
  have hroute : Party.client c ∈ s.route .host := List.mem_map_of_mem hc
  rw [s.filterMap_copies hnodup hother, if_pos hroute]
  simp [payloadTo]

/-- A packet of a client is no packet to a client. -/
theorem filterMap_payloadTo_copies_client (s : Session ι P) (c c' : ι) (out : Outgoing (Load P)) :
    (s.copies (.client c') out).filterMap (payloadTo c) = [] := by
  simp [copies, route, payloadTo]

/-- Packets without payload add nothing to what is in flight. -/
theorem filterMap_payloadTo_answers (s : Session ι P) (c : ι) (p : Party ι)
    {outs : List (Outgoing (Load P))} (houts : ∀ out ∈ outs, out.message.payload = none) :
    (outs.flatMap (s.copies p)).filterMap (payloadTo c) = [] := by
  rw [List.filterMap_eq_nil_iff]
  intro e he
  obtain ⟨out, hout, hcopy⟩ := List.mem_flatMap.mp he
  obtain ⟨-, heq, -⟩ := s.mem_copies.mp hcopy
  simp [payloadTo, heq, houts out hout]

/-- A step that leaves a client's own state alone keeps its accounts, if what the host adds to
its history it also puts in flight. -/
theorem Ledger.of_same_client {s t : Session ι P} {c : ι} (h : Ledger members s c)
    (hconnected : c ∈ t.connected) (hnodup : t.connected.Nodup)
    (hmode : (t.protocol (.client c)).mode = (s.protocol (.client c)).mode)
    (htodo : (t.protocol (.client c)).todo = (s.protocol (.client c)).todo)
    (hhanded : t.handed (.client c) = s.handed (.client c))
    (hnew : ∃ new : Multiset (Load P),
      t.sentByHost = new + s.sentByHost ∧ t.inFlight c = new + s.inFlight c)
    (hasks : ∀ num, ∀ e ∈ s.network, Asks c num e → ∃ e' ∈ t.network, Asks c num e') :
    Ledger members t c where
  connected := hconnected
  nodup := hnodup
  mode := hmode.trans h.mode
  balance hc := by
    obtain ⟨new, hsent, hflight⟩ := hnew
    have hdelivered : t.delivered c = s.delivered c := by simp [delivered, hhanded]
    have hparked : t.parked c = s.parked c := by simp [parked, htodo]
    rw [hsent, h.balance hc, hdelivered, hflight, hparked]
    ac_rfl
  asked num hq := by
    rw [htodo] at hq
    obtain ⟨e, he, hask⟩ := h.asked num hq
    exact hasks num e he hask
  queues := by rw [htodo]; exact h.queues

/-- A `send` of any party keeps the accounts. -/
theorem Ledger.submit {s : Session ι P} {c : ι} (h : Ledger members s c)
    (p : Party ι) (id : Str) (offer : Offer P) : Ledger members (s.submit p id offer) c := by
  rcases s.submit_cases p id offer with hsame | ⟨d, out, hsend, hsubmit⟩
  · rw [hsame]
    exact h
  · rw [hsubmit]
    obtain ⟨hmode, htodo, hpayload⟩ := ChannelProtocol.sendChannelPacket_some hsend
    refine h.of_same_client h.connected h.nodup (s.withProtocol_congr hmode _)
      (s.withProtocol_congr htodo _) rfl ?_ ?_
    · cases p with
      | host =>
        refine ⟨{⟨offer.packet, offer.safe, (s.submitted .host).length⟩}, ?_, ?_⟩
        · simp [sentByHost, ← Multiset.coe_add, add_comm]
        · simp only [inFlight, commit_network, List.filterMap_append,
            filterMap_payloadTo_copies_host h.connected h.nodup, hpayload, ← Multiset.coe_add]
          simp [add_comm]
      | client c' =>
        refine ⟨0, ?_, ?_⟩
        · simp [sentByHost]
        · simp [inFlight, filterMap_payloadTo_copies_client]
    · intro num e he hask
      exact ⟨e, by simp [he], hask⟩

/-- Another party's delivery keeps the accounts; a delivered request of the client turns into a
reply to it. -/
theorem Ledger.receive_other {s : Session ι P} {c : ι} (h : Ledger members s c) (hs : s.Agreement)
    {index : ℕ} {e : Envelope ι P} (he : s.network[index]? = some e) (hdst : e.dst ≠ .client c) :
    Ledger members (s.receive index e) c := by
  have hpayload : payloadTo c e = none := by simp [payloadTo, hdst]
  refine h.of_same_client h.connected h.nodup ?_ ?_ (by simp [Ne.symm hdst]) ⟨0, ?_, ?_⟩ ?_
  · simp [Ne.symm hdst]
  · simp [Ne.symm hdst]
  · simp [sentByHost]
  · simp only [inFlight, Session.receive, List.filterMap_append,
      filterMap_eraseIdx_of_none he hpayload, filterMap_payloadTo_answers s c e.dst
      ((s.protocol e.dst).payload_receive_sent e.out.message), List.append_nil, zero_add]
  · intro num e' he' hask
    rcases mem_eraseIdx_of_mem he he' with rfl | hkeep
    · -- the host answers with a broadcast that reaches the client
      obtain ⟨hway, string, hm⟩ := hask
      obtain ⟨-, hhost⟩ := hway.resolve_right hdst
      have hmode : (s.protocol e'.dst).mode = .host := by rw [hhost, hs.host_mode]
      let reply := ((s.protocol e'.dst).sendIdNum num ((s.protocol e'.dst).getNumId num)).2
      refine ⟨⟨.host, .client c, reply⟩, ?_, .inr rfl, _, rfl⟩
      simp only [Session.receive, hm, ChannelProtocol.receive_idNumPacket_host _ hmode]
      simp [mem_copies, hhost, route, h.connected, reply]
    · exact ⟨e', by simp [Session.receive, hkeep], hask⟩

/-- The client's own delivery keeps the accounts if the packet's payload and what was parked are
what is handed over and what is parked afterwards. -/
theorem Ledger.of_reaction {s : Session ι P} {c : ι} (h : Ledger members s c) {index : ℕ}
    {e : Envelope ι P} (he : s.network[index]? = some e) (hdst : e.dst = .client c)
    {m : Message (Load P)} (hm : e.out.message = m) {r : Reaction (Load P)}
    (hr : (s.protocol e.dst).receive m = r)
    (hmoves : (m.payload.toList : Multiset (Load P)) + s.parked c =
      (r.handed.map Handover.packet : List (Load P)) + contents r.state.todo)
    (hasked : ∀ num : ℕ, queueAt r.state.todo num ≠ [] →
      ∃ e' ∈ (s.receive index e).network, Asks c num e')
    (hqueues : ∀ num : ℕ, r.state.todo[num]? ≠ some []) : Ledger members (s.receive index e) c := by
  subst hm
  have hself : (s.receive index e).protocol (.client c) = r.state := by
    rw [← hdst, s.receive_protocol_self, hr]
  have hmode : r.state.mode = .client := by
    rw [← hr, ChannelProtocol.receive_mode, hdst, h.mode]
  have hflight : s.inFlight c =
      (e.out.message.payload.toList : Multiset (Load P)) + (s.receive index e).inFlight c := by
    have hanswers := filterMap_payloadTo_answers s c e.dst
      ((s.protocol e.dst).payload_receive_sent e.out.message)
    simp only [inFlight, Session.receive, List.filterMap_append, hanswers, List.append_nil]
    rw [coe_filterMap_eraseIdx (payloadTo c) he]
    simp [payloadTo, hdst]
  have hdelivered : (s.receive index e).delivered c =
      s.delivered c + (r.handed.map Handover.packet : List (Load P)) := by
    simp only [delivered, ← hdst, s.receive_handed_self, hr, List.map_append, List.map_map,
      ← Multiset.coe_add]
    rfl
  have hparked : (s.receive index e).parked c = contents r.state.todo := by
    rw [parked, hself]
  refine ⟨h.connected, h.nodup, by rw [hself, hmode], fun hc => ?_, by rwa [hself], by rwa [hself]⟩
  calc (s.receive index e).sentByHost
      = s.sentByHost := rfl
    _ = s.delivered c + s.inFlight c + s.parked c := h.balance hc
    _ = s.delivered c + (s.receive index e).inFlight c +
          ((e.out.message.payload.toList : Multiset (Load P)) + s.parked c) := by
        rw [hflight]; ac_rfl
    _ = (s.receive index e).delivered c + (s.receive index e).inFlight c +
          (s.receive index e).parked c := by
        rw [hmoves, hdelivered, hparked]; ac_rfl

omit [DecidableEq ι] in
/-- Only a packet with a number and an id asks for a number. -/
theorem not_asks_of_message {c : ι} {num : ℕ} {e : Envelope ι P} {m : Message (Load P)}
    (hm : e.out.message = m) (hne : ∀ string, m ≠ .idNumPacket num string) : ¬ Asks c num e := by
  rintro ⟨-, string, hask⟩
  exact hne string (hm.symm.trans hask)

/-- A request or reply other than the delivered packet is still in flight afterwards. -/
theorem Ledger.asked_receive {s : Session ι P} {c : ι} (h : Ledger members s c) {index : ℕ}
    {e : Envelope ι P} (he : s.network[index]? = some e) (hdst : e.dst = .client c) {num : ℕ}
    (hq : queueAt (s.protocol e.dst).todo num ≠ []) (hnot : ¬ Asks c num e) :
    ∃ e' ∈ (s.receive index e).network, Asks c num e' := by
  obtain ⟨e', he', hask⟩ := h.asked num (hdst ▸ hq)
  rcases mem_eraseIdx_of_mem he he' with rfl | hmem
  · exact absurd hask hnot
  · exact ⟨e', by simp [Session.receive, hmem], hask⟩

/-- A payload under an unknown number is parked, and the client asks for the number. -/
theorem Ledger.receive_unknown {s : Session ι P} {c : ι} (h : Ledger members s c) {index : ℕ}
    {e : Envelope ι P} (he : s.network[index]? = some e) (hdst : e.dst = .client c) {num : ℕ}
    {load : Load P} (hm : e.out.message = .channelPacket num load)
    (hnum : (s.protocol e.dst).numToId[num]? = none) : Ledger members (s.receive index e) c := by
  have hmode : (s.protocol e.dst).mode = .client := by rw [hdst, h.mode]
  have hreceive := ChannelProtocol.receive_channelPacket_unknown _ hmode hnum load
  refine h.of_reaction he hdst hm hreceive ?_ (fun num' hq => ?_) (fun num' => ?_)
  · rw [parked, ← hdst]
    simp [Message.payload, contents_enqueue]
  · simp only [ChannelProtocol.sendIdNum_todo, queueAt_enqueue] at hq
    split at hq
    · rename_i heq
      subst heq
      let d := { s.protocol e.dst with todo := enqueue (s.protocol e.dst).todo num load }
      refine ⟨⟨.client c, .host, (d.sendIdNum num []).2⟩, ?_, .inl ⟨rfl, rfl⟩, [], rfl⟩
      simp only [Session.receive, hm, hreceive]
      refine List.mem_append_right _ (List.mem_flatMap.mpr ⟨_, List.mem_singleton_self _, ?_⟩)
      exact s.mem_copies.mpr ⟨hdst.symm, rfl, by simp [hdst, route]⟩
    · exact h.asked_receive he hdst hq (not_asks_of_message hm (by simp))
  · simp only [ChannelProtocol.sendIdNum_todo, enqueue, TreeMap.getElem?_insert]
    split
    · simp
    · exact hdst ▸ h.queues num'

/-- A reply hands over what was parked under its number. -/
theorem Ledger.receive_reply {s : Session ι P} {c : ι} (h : Ledger members s c) {index : ℕ}
    {e : Envelope ι P} (he : s.network[index]? = some e) (hdst : e.dst = .client c) {num : ℕ}
    {id : Str} (hm : e.out.message = .idNumPacket num id) :
    Ledger members (s.receive index e) c := by
  have hmode : (s.protocol e.dst).mode = .client := by rw [hdst, h.mode]
  refine h.of_reaction he hdst hm (ChannelProtocol.receive_idNumPacket_client _ hmode num id) ?_
    (fun num' hq => ?_) (fun num' => ?_)
  · rw [parked, ← hdst, contents_eq_add_erase _ num]
    simp [Message.payload, ChannelProtocol.receiveChannelPacket, Function.comp_def]
  · rw [queueAt_erase] at hq
    split at hq
    · exact absurd rfl hq
    · rename_i hne
      refine h.asked_receive he hdst hq (not_asks_of_message hm ?_)
      intro string heq
      exact hne (Message.idNumPacket.inj heq).1
  · rw [TreeMap.getElem?_erase]
    split
    · simp
    · exact hdst ▸ h.queues num'

/-- The client's own delivery keeps the accounts: a payload is handed over or parked, and a reply
hands over what was parked under its number. -/
theorem Ledger.receive_self {s : Session ι P} {c : ι} (h : Ledger members s c) (hs : s.Agreement)
    {index : ℕ} {e : Envelope ι P} (he : s.network[index]? = some e) (hdst : e.dst = .client c) :
    Ledger members (s.receive index e) c := by
  have hmode : (s.protocol e.dst).mode = .client := by rw [hdst, h.mode]
  have hparked : s.parked c = contents (s.protocol e.dst).todo := by rw [parked, hdst]
  have hqueues : ∀ num : ℕ, (s.protocol e.dst).todo[num]? ≠ some [] := hdst ▸ h.queues
  cases hm : e.out.message with
  | fullSendPacket =>
    refine h.of_reaction he hdst hm (ChannelProtocol.receive_fullSendPacket _) ?_
      (fun num hq => h.asked_receive he hdst hq (not_asks_of_message hm (by simp))) hqueues
    simp [Message.payload, hparked]
  | channelPacket num load =>
    cases hnum : (s.protocol e.dst).numToId[num]? with
    | none => exact h.receive_unknown he hdst hm hnum
    | some id =>
      have hc := hs.client c h.mode
      rw [← hdst] at hc
      have hid : id ≠ [] :=
        hs.host_table.named id num (hc.table.sub id num ((hc.table.inverse id num).mpr hnum))
      refine h.of_reaction he hdst hm
        (ChannelProtocol.receive_channelPacket_known _ hmode hnum hid load) ?_
        (fun num' hq => h.asked_receive he hdst hq (not_asks_of_message hm (by simp))) hqueues
      simp [Message.payload, hparked, ChannelProtocol.receiveChannelPacket]
  | idChannelPacket num id load =>
    refine h.of_reaction he hdst hm
      (ChannelProtocol.receive_idChannelPacket_client _ hmode num id load) ?_ (fun num' hq => ?_)
      (by simpa using hqueues)
    · simp [Message.payload, hparked, ChannelProtocol.receiveChannelPacket]
    · exact h.asked_receive he hdst (by simpa using hq) (not_asks_of_message hm (by simp))
  | idNumPacket num id => exact h.receive_reply he hdst hm

/-- The accounts of a client of the session hold when the session begins. -/
theorem Ledger.begins {s : Session ι P} (h : Begins members s) {c : ι}
    (hc : c ∈ members) : Ledger members s c := by
  have hmode : (s.protocol (.client c)).mode = .client := by rw [h.client_mode, if_pos hc]
  have htodo : (s.protocol (.client c)).todo = ∅ := h.todo _ (by simp [hmode])
  refine ⟨h.connected ▸ hc, h.connected ▸ h.nodup, hmode, fun _ => ?_, by simp [htodo],
    by simp [htodo]⟩
  have hflight : s.network.filterMap (payloadTo c) = [] := by
    rw [List.filterMap_eq_nil_iff]
    intro e he
    obtain ⟨c', -, -, hdst, -⟩ := h.network e he
    simp [payloadTo, hdst]
  simp [sentByHost, delivered, inFlight, parked, h.submitted, h.handed, hflight, htodo]

/-- Changing the registered channels of a party keeps the accounts. -/
theorem Ledger.withProtocol {s : Session ι P} {c : ι} (h : Ledger members s c) (p : Party ι)
    {d : ChannelProtocol (Load P)} (hmode : d.mode = (s.protocol p).mode)
    (htodo : d.todo = (s.protocol p).todo) : Ledger members (s.withProtocol p d) c := by
  exact h.of_same_client h.connected h.nodup (s.withProtocol_congr hmode _)
    (s.withProtocol_congr htodo _) rfl ⟨0, (zero_add _).symm, (zero_add _).symm⟩
    fun num e he hask => ⟨e, he, hask⟩

/-- Another client's start keeps the accounts. -/
theorem Ledger.start {s : Session ι P} {c c' : ι} (h : Ledger members s c)
    (hidle : (s.protocol (.client c')).mode = .idle) : Ledger members (s.start c') c := by
  have hne : Party.client c ≠ .client c' := by
    intro heq
    have := h.mode
    rw [heq, hidle] at this
    cases this
  refine h.of_same_client h.connected h.nodup (by simp [hne]) (by simp [hne]) rfl
    ⟨0, (zero_add _).symm, ?_⟩ fun num e he hask => ⟨e, by simp [start_network, he], hask⟩
  simp [inFlight, start_network, payloadTo]

/-- Making a `sendFullState` call keeps the accounts. -/
theorem Ledger.withOwed {s : Session ι P} {c : ι} (h : Ledger members s c) (p : Party ι)
    (rest : List (Str × ℕ)) : Ledger members (s.withOwed p rest) c :=
  h.of_same_client h.connected h.nodup rfl rfl rfl ⟨0, (zero_add _).symm, (zero_add _).symm⟩
    fun _ e he hask => ⟨e, he, hask⟩

/-- Every step of a session keeps the accounts. -/
theorem Ledger.step {s t : Session ι P} {c : ι} (h : Ledger members s c) (hs : s.Agreement)
    {order : Envelope ι P → Envelope ι P → Bool} {a : Action ι P}
    (hstep : s.step order a = some t) : Ledger members t c := by
  rcases s.step_cases hstep with ⟨p, id, offer, -, rfl⟩ | ⟨p, call, rest, offer, -, -, rfl⟩ |
    ⟨index, e, -, he, -, rfl⟩ | ⟨c', -, hnew, rfl⟩ | ⟨c', -, -, hidle, rfl⟩ |
    ⟨p, channel, id, -, rfl⟩ | ⟨p, channel, id, -, rfl⟩
  · exact h.submit p id.string offer
  · have h₁ := h.withOwed p rest
    cases offer with
    | none => exact h₁
    | some offer => exact h₁.submit p call.1 offer
  · by_cases hdst : e.dst = .client c
    · exact h.receive_self hs he hdst
    · exact h.receive_other hs he hdst
  · refine h.of_same_client (List.mem_append_left _ h.connected) ?_ rfl rfl rfl
      ⟨0, (zero_add _).symm, (zero_add _).symm⟩ fun num e he hask => ⟨e, he, hask⟩
    exact List.Nodup.append h.nodup (List.nodup_singleton c')
      (List.disjoint_singleton.mpr hnew)
  · exact h.start hidle
  · exact h.withProtocol p rfl rfl
  · exact h.withProtocol p (by simp) (by simp)

/-- The accounts hold in every reachable state, for every client of the session. -/
theorem Ledger.reachable {order : Envelope ι P → Envelope ι P → Bool}
    {s : Session ι P} (h : (sessionMachine P order members).Reachable s) {c : ι}
    (hc : c ∈ members) : Ledger members s c :=
  h.invariant (fun _ hb => Ledger.begins hb hc) fun _ _ _ hr hl hstep =>
    hl.step (Agreement.reachable hr) hstep

/-- A late client starts with nothing parked. -/
theorem Ledger.of_start {s : Session ι P} {c : ι} (hconnected : c ∈ s.connected)
    (hnodup : s.connected.Nodup) (hlate : c ∉ members) : Ledger members (s.start c) c := by
  have htodo : ((s.start c).protocol (.client c)).todo = ∅ := by simp [ChannelProtocol.start]
  refine ⟨hconnected, hnodup, by simp [ChannelProtocol.start], fun hc => absurd hc hlate, ?_, ?_⟩
  · rw [htodo]
    simp
  · rw [htodo]
    simp

/-- For every client in the session from its beginning, over a transport that delivers every
packet once in any order: what the host sent is exactly what was handed over, what is in flight
and what is parked; a parked queue is asked for; and when nothing is in flight nothing is parked
and everything was handed over once. -/
theorem payloads_delivered_once {s : Session ι P}
    (h : (sessionMachine P anyOrder members).Reachable s) {c : ι} (hc : c ∈ members) :
    s.sentByHost = s.delivered c + s.inFlight c + s.parked c ∧
    (∀ num : ℕ, queueAt (s.protocol (.client c)).todo num ≠ [] → ∃ e ∈ s.network, Asks c num e) ∧
    (s.network = [] →
      (s.protocol (.client c)).todo.isEmpty ∧ s.sentByHost = s.delivered c) := by
  have hl := Ledger.reachable h hc
  have hbalance := hl.balance hc
  refine ⟨hbalance, hl.asked, fun hnet => ?_⟩
  have hempty : (s.protocol (.client c)).todo.isEmpty := by
    rw [TreeMap.isEmpty_iff_forall_not_mem]
    intro num hmem
    obtain ⟨q, hq⟩ := Option.isSome_iff_exists.mp (TreeMap.mem_iff_isSome_getElem?.mp hmem)
    have hne : queueAt (s.protocol (.client c)).todo num ≠ [] := by
      intro hnil
      simp only [queueAt, hq, Option.getD_some] at hnil
      exact hl.queues num (hnil ▸ hq)
    obtain ⟨e, he, -⟩ := hl.asked num hne
    simp [hnet] at he
  have hparked : s.parked c = 0 := by
    have : (s.protocol (.client c)).todo.toList = [] := by
      rw [← List.isEmpty_iff, TreeMap.isEmpty_toList, hempty]
    simp [parked, contents, this]
  refine ⟨hempty, ?_⟩
  rw [hbalance, hparked]
  simp [inFlight, hnet]

/-- A packet overtakes the one that names its number, is parked and asked for, and once nothing
is in flight both have been handed over. -/
theorem payloads_delivered_once_parked : ∃ s,
    (sessionMachine ℕ anyOrder [()]).run (opening Unit ℕ [()])
        [.send .host ⟨[65], by simp⟩ ⟨7, true, .high⟩,
          .send .host ⟨[65], by simp⟩ ⟨8, true, .high⟩,
          .deliver 1, .deliver 1, .deliver 1, .deliver 0] = some s ∧
      s.sentByHost = s.delivered () := by
  have hrun : (sessionMachine ℕ anyOrder [()]).run (opening Unit ℕ [()])
    [.send .host ⟨[65], by simp⟩ ⟨7, true, .high⟩, .send .host ⟨[65], by simp⟩ ⟨8, true, .high⟩,
      .deliver 1, .deliver 1, .deliver 1, .deliver 0] = some _ := rfl
  have hs := payloads_delivered_once (reachable_of_opening (List.nodup_singleton ()) hrun)
    (List.mem_singleton_self ())
  exact ⟨_, hrun, (hs.2.2 rfl).2⟩

end Session

end Multicrew.Core
