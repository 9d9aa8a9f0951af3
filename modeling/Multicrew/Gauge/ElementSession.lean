import Multicrew.Core.FullState
import Multicrew.Gauge.Elements

/-!
# The elements of a session

Gauges construct their elements when a panel loads them, on the host and on each client at its own
time, and an element is a channel of the session from then on. The layout says which ids belong to
elements and of which kind; it is the same on all machines. On the host an element sends when its
callback sees a change and when the full state is asked for. Other channels share the session.

A client's element can be right only about what was handed over after its construction. It needs a
packet that is still coming, unless nothing had been handed over before.
-/

namespace Multicrew.Gauge

open Std (TreeMap TreeSet)
open Multicrew.Core Multicrew.Library

/-- The `send` call of an element. -/
def ElementPacket.offer {Q : Type*} (packet : ElementPacket) : Offer (ElementPacket ⊕ Q) where
  packet := .inl packet
  safe := false
  prio := match packet with
    | .needle _ => .medium
    | _ => .high

/-- The session and the elements of each party, by the address of the channel. -/
structure ElementSession (ι Q : Type*) where
  session : Session ι (ElementPacket ⊕ Q)
  elements : Party ι → ℕ → Option (ChannelId × Element)

/-- What happens: elements come and go, panels and the simulator's callbacks reach them, the session
goes on, and other channels are used. -/
inductive ElementAction (ι Q : Type*)
  | construct (p : Party ι) (channel : ℕ) (id : ChannelId) (el : Element)
  | destroy (c : ι) (channel : ℕ)
  | attach (p : Party ι) (channel : ℕ) (elementHeader : Header)
  | detach (p : Party ι) (channel : ℕ)
  | callback (p : Party ι) (channel : ℕ) (reading : Reading)
  | sendFullState (offer : Option (Offer Q))
  | deliver (index : ℕ)
  | connect (c : ι)
  | start (c : ι)
  | send (p : Party ι) (id : ChannelId) (offer : Offer Q)
  | register (p : Party ι) (channel : ℕ) (id : ChannelId)
  | unregister (p : Party ι) (channel : ℕ) (id : ChannelId)

namespace ElementSession

variable {ι Q : Type*} [DecidableEq ι] (kind : Str → Option ElementKind) (s : ElementSession ι Q)

/-- The channels a packet is handed to receive it. -/
def handOver (mode : Mode) (elements : ℕ → Option (ChannelId × Element))
    (h : Handover (Load (ElementPacket ⊕ Q))) : ℕ → Option (ChannelId × Element) := fun channel =>
  if channel ∈ h.receivers then
    (elements channel).map fun x =>
      match h.packet.packet with
      | .inl packet => (x.1, x.2.receive mode packet)
      | .inr _ => x
  else elements channel

/-- The session after a step and an element in its new state. -/
def set (t : Session ι (ElementPacket ⊕ Q)) (p : Party ι) (channel : ℕ)
    (x : Option (ChannelId × Element)) : ElementSession ι Q where
  session := t
  elements := Function.update s.elements p (Function.update (s.elements p) channel x)

/-- A payload of another channel. -/
def other (offer : Offer Q) : Offer (ElementPacket ⊕ Q) :=
  ⟨.inr offer.packet, offer.safe, offer.prio⟩

/-- One step. An element is constructed at an address of its own under an id of its kind; the
elements of the host stay. A channel of another kind keeps to the other ids. -/
def step : ElementAction ι Q → Option (ElementSession ι Q)
  | .construct p channel id el =>
    if kind id.string = some el.kind ∧ (s.session.protocol p).unused channel then
      (s.session.step inOrder (.register p channel id)).map fun t =>
        s.set t p channel (some (id, el))
    else none
  | .destroy c channel =>
    (s.elements (.client c) channel).bind fun (id, _) =>
      (s.session.step inOrder (.unregister (.client c) channel id)).map fun t =>
        s.set t (.client c) channel none
  | .attach p channel elementHeader =>
    (s.elements p channel).bind fun (id, el) =>
      (el.attach elementHeader).map fun el' => s.set s.session p channel (some (id, el'))
  | .detach p channel =>
    (s.elements p channel).map fun (id, el) => s.set s.session p channel (some (id, el.detach))
  | .callback p channel reading =>
    (s.elements p channel).bind fun (id, el) =>
      (el.callback (s.session.protocol p).mode reading).bind fun (el', sent) =>
        ((sessionMachine _ inOrder []).run s.session
          (sent.map fun packet => .send p id packet.offer)).map fun t =>
          s.set t p channel (some (id, el'))
  | .sendFullState offer =>
    match s.session.owed .host with
    | [] => none
    | (id, channel) :: _ =>
      let offer := if kind id = none then offer.map other else
        (s.elements .host channel).bind fun (_, el) =>
          (el.sendFullState .host).head?.map ElementPacket.offer
      (s.session.step inOrder (.sendFullState .host offer)).map fun t => { s with session := t }
  | .deliver index =>
    (s.session.network[index]?).bind fun e =>
      (s.session.step inOrder (.deliver index)).map fun t =>
        { session := t
          elements := Function.update s.elements e.dst
            (((s.session.protocol e.dst).receive e.out.message).handed.foldl
              (handOver (s.session.protocol e.dst).mode) (s.elements e.dst)) }
  | .connect c => (s.session.step inOrder (.connect c)).map fun t => { s with session := t }
  | .start c => (s.session.step inOrder (.start c)).map fun t => { s with session := t }
  | .send p id offer =>
    if kind id.string = none then
      (s.session.step inOrder (.send p id (other offer))).map fun t => { s with session := t }
    else none
  | .register p channel id =>
    if kind id.string = none ∧ (s.session.protocol p).unused channel then
      (s.session.step inOrder (.register p channel id)).map fun t => { s with session := t }
    else none
  | .unregister p channel id =>
    if kind id.string = none then
      (s.session.step inOrder (.unregister p channel id)).map fun t => { s with session := t }
    else none

/-- The elements are those the layout has, each registered under its own id and no other; on the
host the channels of the layout's ids are elements. -/
structure Layout : Prop where
  element : ∀ p channel id el, s.elements p channel = some (id, el) →
    kind id.string = some el.kind ∧
      ∀ X, channel ∈ (s.session.protocol p).receivers X ↔ X = id.string
  host : ∀ channel X, channel ∈ (s.session.protocol .host).receivers X → kind X ≠ none →
    ∃ x, s.elements .host channel = some x
  owed : ∀ call ∈ s.session.owed .host, kind call.1 ≠ none →
    call.2 ∈ (s.session.protocol .host).receivers call.1
  sent : ∀ entry ∈ s.session.submitted .host, ∀ k, kind entry.1 = some k →
    ∃ packet : ElementPacket, entry.2.packet = .inl packet ∧ packet.kind = k

/-- The actions of the session that leave the elements alone: other channels, and the answers for
the full state. -/
def Aside : Action ι (ElementPacket ⊕ Q) → Prop
  | .send _ id _ => kind id.string = none
  | .sendFullState p offer => p = .host ∧
    ∀ call rest, s.session.owed .host = call :: rest → kind call.1 ≠ none →
      ∀ id el, s.elements .host call.2 = some (id, el) →
        ∃ packet : ElementPacket, packet.kind = el.kind ∧ offer = some packet.offer
  | .deliver _ => False
  | .connect _ => True
  | .start _ => True
  | .register p channel id => kind id.string = none ∧ (s.session.protocol p).unused channel
  | .unregister _ _ id => kind id.string = none

/-- The elements of the receiver after the delivery of a packet. -/
def delivered (e : Envelope ι (ElementPacket ⊕ Q)) (t : Session ι (ElementPacket ⊕ Q)) :
    ElementSession ι Q where
  session := t
  elements := Function.update s.elements e.dst
    (((s.session.protocol e.dst).receive e.out.message).handed.foldl
      (handOver (s.session.protocol e.dst).mode) (s.elements e.dst))

/-- The cases of a step: the step of the session under it and the elements it changes. -/
theorem step_cases {t : ElementSession ι Q} {a : ElementAction ι Q} (h : s.step kind a = some t) :
    (∃ p channel id el u, a = .construct p channel id el ∧ kind id.string = some el.kind ∧
      (s.session.protocol p).unused channel ∧
      s.session.step inOrder (.register p channel id) = some u ∧
      t = s.set u p channel (some (id, el))) ∨
    (∃ c channel id el u, s.elements (.client c) channel = some (id, el) ∧
      s.session.step inOrder (.unregister (.client c) channel id) = some u ∧
      t = s.set u (.client c) channel none) ∨
    (∃ p channel id el el' u, s.elements p channel = some (id, el) ∧ el'.kind = el.kind ∧
      ((∃ elementHeader, a = .attach p channel elementHeader ∧
          el.attach elementHeader = some el') ∨
        ((s.session.protocol p).mode = .client → ∀ packet, el'.Holds packet ↔ el.Holds packet)) ∧
      (u = s.session ∨ ∃ packet : ElementPacket, packet.kind = el.kind ∧
        s.session.step inOrder (.send p id packet.offer) = some u) ∧
      t = s.set u p channel (some (id, el'))) ∨
    (∃ index e u, s.session.network[index]? = some e ∧
      s.session.step inOrder (.deliver index) = some u ∧ t = s.delivered e u) ∨
    (∃ b u, s.Aside kind b ∧ s.session.step inOrder b = some u ∧ t = { s with session := u }) := by
  cases a with
  | construct p channel id el =>
    simp only [step, Option.ite_none_right_eq_some] at h
    obtain ⟨⟨hkind, hunused⟩, hmap⟩ := h
    obtain ⟨u, hu, rfl⟩ := Option.map_eq_some_iff.mp hmap
    exact .inl ⟨p, channel, id, el, u, rfl, hkind, hunused, hu, rfl⟩
  | destroy c channel =>
    obtain ⟨⟨id, el⟩, hel, hmap⟩ := Option.bind_eq_some_iff.mp h
    obtain ⟨u, hu, rfl⟩ := Option.map_eq_some_iff.mp hmap
    exact .inr (.inl ⟨c, channel, id, el, u, hel, hu, rfl⟩)
  | attach p channel elementHeader =>
    obtain ⟨⟨id, el⟩, hel, hmap⟩ := Option.bind_eq_some_iff.mp h
    obtain ⟨el', hattach, rfl⟩ := Option.map_eq_some_iff.mp hmap
    exact .inr (.inr (.inl ⟨p, channel, id, el, el', s.session, hel, Element.kind_attach hattach,
      .inl ⟨elementHeader, rfl, hattach⟩, .inl rfl, rfl⟩))
  | detach p channel =>
    obtain ⟨⟨id, el⟩, hel, rfl⟩ := Option.map_eq_some_iff.mp h
    exact .inr (.inr (.inl ⟨p, channel, id, el, el.detach, s.session, hel, el.kind_detach,
      .inr fun _ packet => el.holds_detach packet, .inl rfl, rfl⟩))
  | callback p channel reading =>
    obtain ⟨⟨id, el⟩, hel, hbind⟩ := Option.bind_eq_some_iff.mp h
    obtain ⟨⟨el', sent⟩, hcallback, hmap⟩ := Option.bind_eq_some_iff.mp hbind
    obtain ⟨u, hu, rfl⟩ := Option.map_eq_some_iff.mp hmap
    obtain ⟨hkind, hsent⟩ := Element.callback_sends hcallback
    refine .inr (.inr (.inl ⟨p, channel, id, el, el', u, hel, hkind, .inr fun hclient => ?_, ?_, rfl⟩))
    · rw [hclient] at hcallback
      exact Element.holds_callback hcallback
    · rcases hsent with rfl | ⟨packet, rfl, hpacket⟩
      · exact .inl (Option.some.inj hu).symm
      · obtain ⟨v, hv, hnil⟩ := Option.bind_eq_some_iff.mp hu
        cases hnil
        exact .inr ⟨packet, hpacket, hv⟩
  | sendFullState offer =>
    simp only [step] at h
    split at h
    · cases h
    · rename_i id channel rest howed
      obtain ⟨u, hu, rfl⟩ := Option.map_eq_some_iff.mp h
      refine .inr (.inr (.inr (.inr ⟨.sendFullState .host _, u, ⟨rfl, ?_⟩, hu, rfl⟩)))
      intro call rest' hcall hkind id' el hel
      rw [howed] at hcall
      obtain ⟨rfl, -⟩ := List.cons.inj hcall
      obtain ⟨packet, hpacket, hpk⟩ := el.sendFullState_host
      exact ⟨packet, hpk, by simp [hkind, hel, hpacket]⟩
  | deliver index =>
    obtain ⟨e, he, hmap⟩ := Option.bind_eq_some_iff.mp h
    obtain ⟨u, hu, rfl⟩ := Option.map_eq_some_iff.mp hmap
    exact .inr (.inr (.inr (.inl ⟨index, e, u, he, hu, rfl⟩)))
  | connect c =>
    obtain ⟨u, hu, rfl⟩ := Option.map_eq_some_iff.mp h
    exact .inr (.inr (.inr (.inr ⟨.connect c, u, trivial, hu, rfl⟩)))
  | start c =>
    obtain ⟨u, hu, rfl⟩ := Option.map_eq_some_iff.mp h
    exact .inr (.inr (.inr (.inr ⟨.start c, u, trivial, hu, rfl⟩)))
  | send p id offer =>
    simp only [step, Option.ite_none_right_eq_some] at h
    obtain ⟨hkind, hmap⟩ := h
    obtain ⟨u, hu, rfl⟩ := Option.map_eq_some_iff.mp hmap
    exact .inr (.inr (.inr (.inr ⟨.send p id (other offer), u, hkind, hu, rfl⟩)))
  | register p channel id =>
    simp only [step, Option.ite_none_right_eq_some] at h
    obtain ⟨hguard, hmap⟩ := h
    obtain ⟨u, hu, rfl⟩ := Option.map_eq_some_iff.mp hmap
    exact .inr (.inr (.inr (.inr ⟨.register p channel id, u, hguard, hu, rfl⟩)))
  | unregister p channel id =>
    simp only [step, Option.ite_none_right_eq_some] at h
    obtain ⟨hkind, hmap⟩ := h
    obtain ⟨u, hu, rfl⟩ := Option.map_eq_some_iff.mp hmap
    exact .inr (.inr (.inr (.inr ⟨.unregister p channel id, u, hkind, hu, rfl⟩)))

/-- What the host sends for the id of an element is a packet of its kind. -/
def Fits (u : Session ι (ElementPacket ⊕ Q)) : Action ι (ElementPacket ⊕ Q) → Prop
  | .send .host id offer => ∀ k, kind id.string = some k →
    ∃ packet : ElementPacket, offer.packet = .inl packet ∧ packet.kind = k
  | .sendFullState .host (some offer) => ∀ call rest, u.owed .host = call :: rest →
    ∀ k, kind call.1 = some k →
      ∃ packet : ElementPacket, offer.packet = .inl packet ∧ packet.kind = k
  | _ => True

variable {kind s} {t : ElementSession ι Q} {a : ElementAction ι Q}

/-- A step is at most one step of the session, in which the host answers with packets that fit. -/
theorem Layout.session_of_step (hlayout : s.Layout kind) (h : s.step kind a = some t) :
    t.session = s.session ∨ ∃ b, s.session.step inOrder b = some t.session ∧
      s.session.HostAnswers (kind · ≠ none) b ∧ Fits kind s.session b := by
  rcases step_cases kind s h with ⟨p, channel, id, el, u, -, hkind, hunused, hu, rfl⟩ |
    ⟨c, channel, id, el, u, hel, hu, rfl⟩ | ⟨p, channel, id, el, el', u, hel, hkind, -, hu, rfl⟩ |
    ⟨index, e, u, he, hu, rfl⟩ | ⟨b, u, haside, hu, rfl⟩
  · exact .inr ⟨_, hu, trivial, trivial⟩
  · exact .inr ⟨_, hu, trivial, trivial⟩
  · rcases hu with rfl | ⟨packet, hpacket, hu⟩
    · exact .inl rfl
    · refine .inr ⟨_, hu, ?_⟩
      cases p with
      | host =>
        obtain ⟨hid, hregistered⟩ := hlayout.element _ _ _ _ hel
        refine ⟨fun _ => List.ne_nil_of_mem ((hregistered _).mpr rfl), fun k hk => ?_⟩
        rw [hid] at hk
        exact ⟨packet, rfl, hpacket.trans (Option.some.inj hk)⟩
      | client c => exact ⟨trivial, trivial⟩
  · exact .inr ⟨_, hu, trivial, trivial⟩
  · refine .inr ⟨b, hu, ?_⟩
    cases b with
    | send p id offer =>
      cases p with
      | host => exact ⟨fun hE => absurd haside hE, fun k hk => by rw [haside] at hk; cases hk⟩
      | client c => exact ⟨trivial, trivial⟩
    | sendFullState p offer =>
      obtain ⟨rfl, hanswer⟩ := haside
      -- the call is of a channel that the layout makes an element
      have hoffer : ∀ call rest, s.session.owed .host = call :: rest → ∀ k, kind call.1 = some k →
          ∃ packet : ElementPacket, packet.kind = k ∧ offer = some packet.offer := by
        intro call rest howed k hk
        have hE : kind call.1 ≠ none := by simp [hk]
        have hmem := hlayout.owed call (howed ▸ List.mem_cons_self) hE
        obtain ⟨⟨id, el⟩, hel⟩ := hlayout.host _ _ hmem hE
        obtain ⟨packet, hpacket, hsome⟩ := hanswer call rest howed hE id el hel
        obtain ⟨hid, hregistered⟩ := hlayout.element _ _ _ _ hel
        rw [(hregistered _).mp hmem, hid] at hk
        exact ⟨packet, hpacket.trans (Option.some.inj hk), hsome⟩
      constructor
      · intro call rest howed hE hnone
        obtain ⟨k, hk⟩ := Option.ne_none_iff_exists'.mp hE
        obtain ⟨packet, -, hsome⟩ := hoffer call rest howed k hk
        rw [hnone] at hsome
        cases hsome
      · cases offer with
        | none => trivial
        | some offer =>
          intro call rest howed k hk
          obtain ⟨packet, hpacket, hsome⟩ := hoffer call rest howed k hk
          rw [Option.some.inj hsome]
          exact ⟨packet, rfl, hpacket⟩
    | deliver index => exact haside.elim
    | connect c => exact ⟨trivial, trivial⟩
    | start c => exact ⟨trivial, trivial⟩
    | register p channel id => exact ⟨trivial, trivial⟩
    | unregister p channel id =>
      cases p with
      | host => exact ⟨fun hE => hE haside, trivial⟩
      | client c => exact ⟨trivial, trivial⟩

/-- The calls the host owes for elements stay calls of registered channels. -/
theorem Layout.owed_of_step (hlayout : s.Layout kind) (h : s.step kind a = some t) :
    ∀ call ∈ t.session.owed .host, kind call.1 ≠ none →
      call.2 ∈ (t.session.protocol .host).receivers call.1 := by
  rcases hlayout.session_of_step h with hsame | ⟨b, hb, hanswers, -⟩
  · rw [hsame]
    exact hlayout.owed
  · intro call hcall hE
    have hmem : call.2 ∈ (s.session.protocol .host).receivers call.1 := by
      by_cases hold : call ∈ s.session.owed .host
      · exact hlayout.owed call hold hE
      · exact Session.owed_new_of_step hb hcall hold
    rw [Session.mem_receivers_of_step hb]
    cases b with
    | register q channel' id => exact .inl hmem
    | unregister q channel' id =>
      refine ⟨hmem, ?_⟩
      rintro ⟨rfl, -, hid⟩
      rw [hid] at hE
      exact hanswers hE
    | _ => exact hmem

/-- What the host has sent for elements stays of their kind. -/
theorem Layout.sent_of_step (hlayout : s.Layout kind) (h : s.step kind a = some t) :
    ∀ entry ∈ t.session.submitted .host, ∀ k, kind entry.1 = some k →
      ∃ packet : ElementPacket, entry.2.packet = .inl packet ∧ packet.kind = k := by
  rcases hlayout.session_of_step h with hsame | ⟨b, hb, -, hfits⟩
  · rw [hsame]
    exact hlayout.sent
  · intro entry hentry k hk
    rcases Session.submitted_of_step hb hentry with hold | ⟨id, offer, rfl, hid, hpacket⟩ |
      ⟨call, rest, offer, rfl, howed, hid, hpacket⟩
    · exact hlayout.sent entry hold k hk
    · rw [hpacket]
      exact hfits k (hid ▸ hk)
    · rw [hpacket]
      exact hfits call rest howed k (hid ▸ hk)

/-- A packet that is handed over keeps the ids and the kinds of the elements. -/
theorem handOver_foldl (mode : Mode) (hs : List (Handover (Load (ElementPacket ⊕ Q))))
    (elements : ℕ → Option (ChannelId × Element)) (channel : ℕ) :
    ((hs.foldl (handOver mode) elements) channel).map (fun x => (x.1, x.2.kind)) =
      (elements channel).map fun x => (x.1, x.2.kind) := by
  induction hs generalizing elements with
  | nil => rfl
  | cons h rest ih =>
    rw [List.foldl_cons, ih]
    unfold handOver
    split
    · cases elements channel with
      | none => rfl
      | some x =>
        obtain ⟨id, el⟩ := x
        simp only [Option.map_some]
        split
        · rw [Element.kind_receive]
        · rfl
    · rfl

/-- The channel has the new element. -/
@[simp] theorem set_elements_self (u : Session ι (ElementPacket ⊕ Q)) (p : Party ι) (channel : ℕ)
    (x : Option (ChannelId × Element)) : (s.set u p channel x).elements p channel = x := by
  simp [set]

/-- The other channels keep theirs. -/
@[simp] theorem set_elements_of_ne (u : Session ι (ElementPacket ⊕ Q)) {p q : Party ι}
    {channel channel' : ℕ} (h : ¬ (q = p ∧ channel' = channel))
    (x : Option (ChannelId × Element)) :
    (s.set u p channel x).elements q channel' = s.elements q channel' := by
  by_cases hq : q = p
  · subst hq
    simp [set, Function.update_of_ne fun heq => h ⟨rfl, heq⟩]
  · simp [set, Function.update_of_ne hq]

/-- The elements of a step that adds and removes none stay those of the layout. -/
theorem Layout.of_shape (hlayout : s.Layout kind)
    (hshape : ∀ p channel, (t.elements p channel).map (fun x => (x.1, x.2.kind)) =
      (s.elements p channel).map fun x => (x.1, x.2.kind))
    (hregistered : ∀ p channel X, (kind X ≠ none ∨ ∃ x, s.elements p channel = some x) →
      (channel ∈ (t.session.protocol p).receivers X ↔
        channel ∈ (s.session.protocol p).receivers X))
    (h : s.step kind a = some t) : t.Layout kind where
  element p channel id el hel := by
    have hshape := hshape p channel
    rw [hel, Option.map_some, eq_comm, Option.map_eq_some_iff] at hshape
    obtain ⟨⟨id', el'⟩, hel', heq⟩ := hshape
    obtain ⟨rfl, hkind⟩ := Prod.mk.inj heq
    obtain ⟨hid, hreceivers⟩ := hlayout.element p channel _ _ hel'
    rw [← hkind]
    exact ⟨hid, fun X => (hregistered p channel X (.inr ⟨_, hel'⟩)).trans (hreceivers X)⟩
  host channel X hmem hE := by
    obtain ⟨x, hx⟩ := hlayout.host channel X ((hregistered _ _ _ (.inl hE)).mp hmem) hE
    have hshape := hshape .host channel
    rw [hx, Option.map_some, Option.map_eq_some_iff] at hshape
    obtain ⟨y, hy, -⟩ := hshape
    exact ⟨y, hy⟩
  owed := hlayout.owed_of_step h
  sent := hlayout.sent_of_step h

/-- A new element is registered under its id and no other. -/
theorem Layout.construct (hlayout : s.Layout kind) {p : Party ι} {channel : ℕ} {id : ChannelId}
    {el : Element} {u : Session ι (ElementPacket ⊕ Q)} (hkind : kind id.string = some el.kind)
    (hunused : (s.session.protocol p).unused channel)
    (hu : s.session.step inOrder (.register p channel id) = some u)
    (h : s.step kind a = some (s.set u p channel (some (id, el)))) :
    (s.set u p channel (some (id, el))).Layout kind := by
  refine ⟨fun q channel' id' el' hel' => ?_, fun channel' X hmem hE => ?_,
    hlayout.owed_of_step h, hlayout.sent_of_step h⟩
  · show _ ∧ ∀ X, channel' ∈ (u.protocol q).receivers X ↔ _
    simp only [Session.mem_receivers_of_step hu]
    by_cases hnew : q = p ∧ channel' = channel
    · obtain ⟨rfl, rfl⟩ := hnew
      rw [set_elements_self] at hel'
      cases hel'
      refine ⟨hkind, fun X => ?_⟩
      have hfree := ChannelProtocol.not_mem_receivers_of_unused _ hunused X
      simp [hfree]
    · rw [set_elements_of_ne _ hnew] at hel'
      obtain ⟨hid, hreceivers⟩ := hlayout.element q channel' _ _ hel'
      refine ⟨hid, fun X => ?_⟩
      rw [hreceivers]
      exact or_iff_left fun hboth => hnew ⟨hboth.1, hboth.2.1⟩
  · have hmem : channel' ∈ (u.protocol .host).receivers X := hmem
    simp only [Session.mem_receivers_of_step hu] at hmem
    by_cases hnew : Party.host = p ∧ channel' = channel
    · obtain ⟨rfl, rfl⟩ := hnew
      exact ⟨_, set_elements_self ..⟩
    · rw [set_elements_of_ne _ hnew]
      exact hlayout.host _ _ (hmem.resolve_right fun hboth => hnew ⟨hboth.1, hboth.2.1⟩) hE

/-- An element of a client that is destroyed is unregistered. -/
theorem Layout.destroy (hlayout : s.Layout kind) {c : ι} {channel : ℕ} {id : ChannelId}
    {u : Session ι (ElementPacket ⊕ Q)}
    (hu : s.session.step inOrder (.unregister (.client c) channel id) = some u)
    (h : s.step kind a = some (s.set u (.client c) channel none)) :
    (s.set u (.client c) channel none).Layout kind := by
  refine ⟨fun q channel' id' el' hel' => ?_, fun channel' X hmem hE => ?_,
    hlayout.owed_of_step h, hlayout.sent_of_step h⟩
  · show _ ∧ ∀ X, channel' ∈ (u.protocol q).receivers X ↔ _
    simp only [Session.mem_receivers_of_step hu]
    by_cases hgone : q = .client c ∧ channel' = channel
    · obtain ⟨rfl, rfl⟩ := hgone
      rw [set_elements_self] at hel'
      cases hel'
    · rw [set_elements_of_ne _ hgone] at hel'
      obtain ⟨hid, hreceivers⟩ := hlayout.element q channel' _ _ hel'
      refine ⟨hid, fun X => ?_⟩
      rw [hreceivers]
      exact and_iff_left fun hboth => hgone ⟨hboth.1, hboth.2.1⟩
  · have hmem : channel' ∈ (u.protocol .host).receivers X := hmem
    simp only [Session.mem_receivers_of_step hu] at hmem
    rw [set_elements_of_ne _ (by simp)]
    exact hlayout.host _ _ hmem.1 hE

/-- Every step keeps to the layout. -/
theorem Layout.step (hlayout : s.Layout kind) (h : s.step kind a = some t) : t.Layout kind := by
  rcases step_cases kind s h with ⟨p, channel, id, el, u, -, hkind, hunused, hu, rfl⟩ |
    ⟨c, channel, id, el, u, hel, hu, rfl⟩ | ⟨p, channel, id, el, el', u, hel, hkind, -, hu, rfl⟩ |
    ⟨index, e, u, he, hu, rfl⟩ | ⟨b, u, haside, hu, rfl⟩
  · exact hlayout.construct hkind hunused hu h
  · exact hlayout.destroy hu h
  · refine hlayout.of_shape (fun q channel' => ?_) (fun q channel' X _ => ?_) h
    · by_cases hsame : q = p ∧ channel' = channel
      · obtain ⟨rfl, rfl⟩ := hsame
        rw [set_elements_self, hel]
        simp [hkind]
      · rw [set_elements_of_ne _ hsame]
    · show channel' ∈ (u.protocol q).receivers X ↔ _
      rcases hu with rfl | ⟨packet, -, hu⟩
      · exact Iff.rfl
      · rw [Session.mem_receivers_of_step hu]
  · refine hlayout.of_shape (fun q channel' => ?_) (fun q channel' X _ => ?_) h
    · by_cases hq : q = e.dst
      · subst hq
        simp only [delivered, Function.update_self]
        exact handOver_foldl ..
      · simp only [delivered, Function.update_of_ne hq]
    · exact Session.mem_receivers_of_step hu q channel' X
  · refine hlayout.of_shape (fun q channel' => rfl) (fun q channel' X hX => ?_) h
    show channel' ∈ (u.protocol q).receivers X ↔ _
    rw [Session.mem_receivers_of_step hu]
    cases b with
    | register p channel id =>
      refine or_iff_left ?_
      rintro ⟨rfl, rfl, rfl⟩
      rcases hX with hE | ⟨x, hx⟩
      · exact hE haside.1
      · exact ChannelProtocol.not_mem_receivers_of_unused _ haside.2 _
          (((hlayout.element _ _ _ _ hx).2 _).mpr rfl)
    | unregister p channel id =>
      refine and_iff_left_of_imp ?_
      rintro hmem ⟨rfl, rfl, rfl⟩
      rcases hX with hE | ⟨x, hx⟩
      · exact hE haside
      · obtain ⟨hid, hreceivers⟩ := hlayout.element _ _ _ _ hx
        rw [← (hreceivers _).mp hmem, haside] at hid
        cases hid
    | deliver index => exact haside.elim
    | _ => exact Iff.rfl

end ElementSession

/-- The sessions with elements that begin with the clients `members`. -/
def elementMachine {ι : Type*} (Q : Type*) [DecidableEq ι] (kind : Str → Option ElementKind)
    (members : List ι) : Machine (ElementSession ι Q) (ElementAction ι Q) where
  initial s := s.session.Begins members ∧ s.Layout kind
  step := ElementSession.step kind

namespace ElementSession

variable {ι Q : Type*} [DecidableEq ι] {kind : Str → Option ElementKind} {members : List ι}

/-- A session with elements is a session, keeps to the layout, and its host answers for the full
state. -/
theorem reachable_session {s : ElementSession ι Q}
    (hr : (elementMachine Q kind members).Reachable s) :
    (sessionMachine (ElementPacket ⊕ Q) inOrder members).Reachable s.session ∧ s.Layout kind ∧
      s.session.FullState (kind · ≠ none) := by
  apply hr.invariant
  · rintro s ⟨hbegins, hlayout⟩
    refine ⟨.initial hbegins, hlayout, ?_, fun call hcall hE =>
      List.ne_nil_of_mem (hlayout.owed call hcall hE), ?_⟩
    · intro X _ load hload
      rw [hbegins.submitted] at hload
      cases hload
    · intro c _ X _ hsent
      have hnil : s.session.sentOn everyLoad (.down c) X = [] := by
        simp only [Session.sentOn, hbegins.submitted, List.filterMap_nil]
      exact absurd hnil hsent
  · rintro s a t - ⟨hsession, hlayout, hfull⟩ hstep
    refine ⟨?_, hlayout.step hstep, ?_⟩
    · rcases hlayout.session_of_step hstep with hsame | ⟨b, hb, -, -⟩
      · rw [hsame]
        exact hsession
      · exact hsession.step hb
    · rcases hlayout.session_of_step hstep with hsame | ⟨b, hb, hanswers, -⟩
      · rw [hsame]
        exact hfull
      · exact hfull.step hsession hanswers hb

end ElementSession

end Multicrew.Gauge
