import Multicrew.Library.Machine
import Multicrew.Core.ChannelProtocol
import Mathlib.Logic.Function.Basic

/-!
# One session: a host, its clients and the transport between them

The host's connection broadcasts to every connected client; a client's connection leads to the
host. The network is the list of undelivered packets, oldest first, and a delivery picks one of
them. Which deliveries are allowed is a parameter: `order e' e` says that the transport delivers
the earlier `e'` before `e`. `sendFullState` calls are made one by one after the packet that
causes them, and every `send` may happen between any two steps.

A payload is wrapped in a `Load`, which numbers the `NetworkChannel::send` calls of a party. The
protocol never looks inside, so two equal payloads stay distinguishable in statements.
-/

namespace Multicrew.Core

open Std (TreeMap TreeSet)
open Multicrew.Library

/-- The id a `NetworkChannel` is constructed with: a literal or a string with a `!` in it, so
never the empty string that stands for an unbound number. -/
structure ChannelId where
  string : Str
  nonempty : string ≠ []

/-- The arguments of `NetworkChannel::send`. -/
structure Offer (P : Type*) where
  packet : P
  safe : Bool
  prio : Priority

/-- The packet of one `NetworkChannel::send` call: the `stamp`-th one of its party. -/
structure Load (P : Type*) where
  packet : P
  safe : Bool
  stamp : ℕ
  deriving DecidableEq, Repr

/-- The host and its clients. -/
inductive Party (ι : Type*)
  | host
  | client (i : ι)
  deriving DecidableEq, Repr

/-- One direction between the host and a client. -/
inductive Link (ι : Type*)
  | down (c : ι)
  | up (c : ι)

/-- The sending party of a link. -/
def Link.src {ι : Type*} : Link ι → Party ι
  | .down _ => .host
  | .up c => .client c

/-- The receiving party of a link. -/
def Link.dst {ι : Type*} : Link ι → Party ι
  | .down c => .client c
  | .up _ => .host

/-- A packet on its way. -/
structure Envelope (ι P : Type*) where
  src : Party ι
  dst : Party ι
  out : Outgoing (Load P)

/-- The parties, the connected clients, the network, and the histories of `send` and
`receiveChannelPacket` calls. -/
structure Session (ι P : Type*) where
  protocol : Party ι → ChannelProtocol (Load P)
  connected : List ι
  network : List (Envelope ι P) := []
  owed : Party ι → List (Str × ℕ) := fun _ => []
  submitted : Party ι → List (Str × Load P) := fun _ => []
  handed : Party ι → List (Party ι × Handover (Load P)) := fun _ => []

/-- What happens in a session, whoever does it. -/
inductive Action (ι P : Type*)
  | send (p : Party ι) (id : ChannelId) (offer : Offer P)
  | sendFullState (p : Party ι) (offer : Option (Offer P))
  | deliver (index : ℕ)
  | connect (c : ι)
  | start (c : ι)
  | register (p : Party ι) (channel : ℕ) (id : ChannelId)
  | unregister (p : Party ι) (channel : ℕ) (id : ChannelId)

namespace Session

variable {ι P : Type*} (s : Session ι P)

/-- The parties a packet of `src` goes to. -/
def route : Party ι → List (Party ι)
  | .host => s.connected.map .client
  | .client _ => [.host]

/-- The copies of a packet the transport carries. -/
def copies (src : Party ι) (out : Outgoing (Load P)) : List (Envelope ι P) :=
  (s.route src).map fun dst => ⟨src, dst, out⟩

/-- Every copy of a packet carries its sender and its content. -/
theorem mem_copies {src : Party ι} {out : Outgoing (Load P)} {e : Envelope ι P} :
    e ∈ s.copies src out ↔ e.src = src ∧ e.out = out ∧ e.dst ∈ s.route src := by
  simp only [copies, List.mem_map]
  constructor
  · rintro ⟨dst, hdst, rfl⟩
    exact ⟨rfl, rfl, hdst⟩
  · rintro ⟨rfl, rfl, hdst⟩
    exact ⟨e.dst, hdst, rfl⟩

/-- A copy that only one destination can select is selected once, if it is sent there at all. -/
theorem filterMap_copies {β : Type*} [DecidableEq ι] {src dst : Party ι}
    (hnodup : s.connected.Nodup) {f : Envelope ι P → Option β} (hf : ∀ e, e.dst ≠ dst → f e = none)
    (out : Outgoing (Load P)) :
    (s.copies src out).filterMap f =
      if dst ∈ s.route src then (f ⟨src, dst, out⟩).toList else [] := by
  have hroute : (s.route src).Nodup := by
    cases src with
    | host => exact hnodup.map fun _ _ heq => Party.client.inj heq
    | client c => exact List.nodup_singleton _
  unfold copies
  generalize s.route src = dsts at hroute
  induction dsts with
  | nil => rfl
  | cons dst' rest ih =>
    obtain ⟨hnot, hrest⟩ := List.nodup_cons.mp hroute
    rw [List.map_cons, List.filterMap_cons, ih hrest]
    by_cases heq : dst = dst'
    · subst heq
      simp only [hnot, List.mem_cons_self, if_true, if_false]
      cases f ⟨src, dst, out⟩ <;> rfl
    · simp [hf ⟨src, dst', out⟩ (Ne.symm heq), heq]

/-- Packets travel between the host and a client. -/
def Routed (e : Envelope ι P) : Prop :=
  (e.src = .host ∧ ∃ c, e.dst = .client c) ∨ ((∃ c, e.src = .client c) ∧ e.dst = .host)

/-- Every copy is routed. -/
theorem routed_of_mem_copies {src : Party ι} {out : Outgoing (Load P)} {e : Envelope ι P}
    (h : e ∈ s.copies src out) : Routed e := by
  obtain ⟨hsrc, -, hdst⟩ := s.mem_copies.mp h
  cases src with
  | host =>
    obtain ⟨c, -, hc⟩ := List.mem_map.mp hdst
    exact .inl ⟨hsrc, c, hc.symm⟩
  | client c => exact .inr ⟨⟨c, hsrc⟩, List.mem_singleton.mp hdst⟩

variable [DecidableEq ι]

/-- Replace the protocol state of one party. -/
def withProtocol (p : Party ι) (d : ChannelProtocol (Load P)) : Session ι P :=
  { s with protocol := Function.update s.protocol p d }

/-- Replace the `sendFullState` calls a party still has to make. -/
def withOwed (p : Party ι) (calls : List (Str × ℕ)) : Session ι P :=
  { s with owed := Function.update s.owed p calls }

/-- Party `p` has given a packet to its connection on behalf of a `send` call. -/
def commit (p : Party ι) (d : ChannelProtocol (Load P)) (out : Outgoing (Load P))
    (call : Str × Load P) : Session ι P :=
  { s.withProtocol p d with
    network := s.network ++ s.copies p out
    submitted := Function.update s.submitted p (s.submitted p ++ [call]) }

/-- `NetworkChannel::send` on a channel of party `p`. -/
def submit (p : Party ι) (id : Str) (offer : Offer P) : Session ι P :=
  let load : Load P := ⟨offer.packet, offer.safe, (s.submitted p).length⟩
  match (s.protocol p).sendChannelPacket load offer.safe offer.prio id with
  | (_, none) => s
  | (d, some out) => s.commit p d out (id, load)

/-- `ChannelProtocol::receive` of the packet in `e`, which leaves the network at `index`. -/
def receive (index : ℕ) (e : Envelope ι P) : Session ι P :=
  let r := (s.protocol e.dst).receive e.out.message
  { s.withProtocol e.dst r.state with
    network := s.network.eraseIdx index ++ r.sent.flatMap (s.copies e.dst)
    owed := Function.update s.owed e.dst (s.owed e.dst ++ r.fullState)
    handed := Function.update s.handed e.dst
      (s.handed e.dst ++ r.handed.map fun h => (e.src, h)) }

/-- `ChannelProtocol::start( false, con )` on a client. -/
def start (c : ι) : Session ι P :=
  let r := (s.protocol (.client c)).start false
  { s.withProtocol (.client c) r.state with
    network := s.network ++ r.sent.flatMap (s.copies (.client c)) }

/-- One step. Only the delivery depends on the transport. -/
def step (order : Envelope ι P → Envelope ι P → Bool) (s : Session ι P) :
    Action ι P → Option (Session ι P)
  | .send p id offer => some (s.submit p id.string offer)
  | .sendFullState p offer =>
    match s.owed p with
    | [] => none
    | (id, _) :: rest =>
      let s₁ := s.withOwed p rest
      match offer with
      | none => some s₁
      | some offer => some (s₁.submit p id offer)
  | .deliver index =>
    match s.network[index]? with
    | none => none
    | some e =>
      if (s.network.take index).any fun e' => order e' e then none else some (s.receive index e)
  | .connect c => if c ∈ s.connected then none else some { s with connected := s.connected ++ [c] }
  | .start c =>
    if c ∈ s.connected ∧ (s.protocol (.client c)).mode = .idle then some (s.start c) else none
  | .register p channel id =>
    some (s.withProtocol p ((s.protocol p).registerNetworkChannel channel id.string).1)
  | .unregister p channel id =>
    some (s.withProtocol p ((s.protocol p).unregisterNetworkChannel channel id.string))

/-- The beginning of a session: the host and the clients `members` have just started, the others
are idle and not connected. Channels may have been registered earlier, and the members' requests
for the full state may be on their way. -/
structure Begins (members : List ι) (s : Session ι P) : Prop where
  connected : s.connected = members
  nodup : members.Nodup
  host_mode : (s.protocol .host).mode = .host
  client_mode : ∀ c, (s.protocol (.client c)).mode = if c ∈ members then .client else .idle
  idToNum : ∀ p, (s.protocol p).mode ≠ .idle → (s.protocol p).idToNum = ∅
  numToId : ∀ p, (s.protocol p).mode ≠ .idle → (s.protocol p).numToId = ∅
  todo : ∀ p, (s.protocol p).mode ≠ .idle → (s.protocol p).todo = ∅
  channels : ∀ p id, id ∈ (s.protocol p).channels → id ≠ []
  network : ∀ e ∈ s.network, ∃ c ∈ members,
    e.src = .client c ∧ e.dst = .host ∧ e.out.message = .fullSendPacket
  owed : ∀ p, ∀ call ∈ s.owed p, call.1 ≠ []
  submitted : ∀ p, s.submitted p = []
  handed : ∀ p, s.handed p = []

/-- The beginning at which nothing is registered and every request has been answered. -/
def opening (ι P : Type*) [DecidableEq ι] (members : List ι) : Session ι P where
  protocol
    | .host => { mode := .host }
    | .client c => { mode := if c ∈ members then .client else .idle }
  connected := members

/-- The plain beginning is one. -/
theorem begins_opening (P : Type*) {members : List ι} (h : members.Nodup) :
    Begins members (opening ι P members) where
  connected := rfl
  nodup := h
  host_mode := rfl
  client_mode _ := rfl
  idToNum p _ := by cases p <;> rfl
  numToId p _ := by cases p <;> rfl
  todo p _ := by cases p <;> rfl
  channels p id hid := by cases p <;> simp [opening] at hid
  network e he := by simp [opening] at he
  owed p call hcall := by simp [opening] at hcall
  submitted _ := rfl
  handed _ := rfl

/-- A `send` of an idle party has no effect. -/
theorem submit_of_none {p : Party ι} {id : Str} {offer : Offer P} {d : ChannelProtocol (Load P)}
    (h : (s.protocol p).sendChannelPacket ⟨offer.packet, offer.safe, (s.submitted p).length⟩
      offer.safe offer.prio id = (d, none)) : s.submit p id offer = s := by
  simp only [submit, h]

/-- A `send` that reaches the connection. -/
theorem submit_of_some {p : Party ι} {id : Str} {offer : Offer P} {d : ChannelProtocol (Load P)}
    {out : Outgoing (Load P)}
    (h : (s.protocol p).sendChannelPacket ⟨offer.packet, offer.safe, (s.submitted p).length⟩
      offer.safe offer.prio id = (d, some out)) :
    s.submit p id offer =
      s.commit p d out (id, ⟨offer.packet, offer.safe, (s.submitted p).length⟩) := by
  simp only [submit, h]

/-- A `send` has no effect, or reaches the connection. -/
theorem submit_cases (p : Party ι) (id : Str) (offer : Offer P) :
    s.submit p id offer = s ∨ ∃ d out,
      (s.protocol p).sendChannelPacket ⟨offer.packet, offer.safe, (s.submitted p).length⟩
        offer.safe offer.prio id = (d, some out) ∧
      s.submit p id offer =
        s.commit p d out (id, ⟨offer.packet, offer.safe, (s.submitted p).length⟩) := by
  cases hsend : (s.protocol p).sendChannelPacket
    ⟨offer.packet, offer.safe, (s.submitted p).length⟩ offer.safe offer.prio id with
  | mk d sent => cases sent with
    | none => exact .inl (s.submit_of_none hsend)
    | some out => exact .inr ⟨d, out, rfl, s.submit_of_some hsend⟩

/-- The party has the new table. -/
@[simp] theorem withProtocol_self (p : Party ι) (d : ChannelProtocol (Load P)) :
    (s.withProtocol p d).protocol p = d := Function.update_self ..

/-- The other parties keep theirs. -/
@[simp] theorem withProtocol_of_ne {p q : Party ι} (h : q ≠ p) (d : ChannelProtocol (Load P)) :
    (s.withProtocol p d).protocol q = s.protocol q := Function.update_of_ne h ..

/-- What a new state has in common with the old one, all parties have. -/
theorem withProtocol_congr {β : Type*} {f : ChannelProtocol (Load P) → β} {p : Party ι}
    {d : ChannelProtocol (Load P)} (h : f d = f (s.protocol p)) (q : Party ι) :
    f ((s.withProtocol p d).protocol q) = f (s.protocol q) := by
  by_cases hq : q = p
  · subst hq
    rw [withProtocol_self, h]
  · rw [s.withProtocol_of_ne hq]

/-- The party owes the new calls. -/
@[simp] theorem withOwed_self (p : Party ι) (calls : List (Str × ℕ)) :
    (s.withOwed p calls).owed p = calls := Function.update_self ..

/-- The other parties owe what they owed. -/
@[simp] theorem withOwed_of_ne {p q : Party ι} (h : q ≠ p) (calls : List (Str × ℕ)) :
    (s.withOwed p calls).owed q = s.owed q := Function.update_of_ne h ..

/-- A send changes the table of the sender alone. -/
@[simp] theorem commit_protocol (p : Party ι) (d : ChannelProtocol (Load P))
    (out : Outgoing (Load P)) (call : Str × Load P) :
    (s.commit p d out call).protocol = (s.withProtocol p d).protocol := rfl

/-- It puts the copies of its packet on the network. -/
@[simp] theorem commit_network (p : Party ι) (d : ChannelProtocol (Load P))
    (out : Outgoing (Load P)) (call : Str × Load P) :
    (s.commit p d out call).network = s.network ++ s.copies p out := rfl

/-- It hands nothing over. -/
@[simp] theorem commit_handed (p : Party ι) (d : ChannelProtocol (Load P))
    (out : Outgoing (Load P)) (call : Str × Load P) :
    (s.commit p d out call).handed = s.handed := rfl

/-- It makes no calls of `sendFullState`. -/
@[simp] theorem commit_owed (p : Party ι) (d : ChannelProtocol (Load P))
    (out : Outgoing (Load P)) (call : Str × Load P) :
    (s.commit p d out call).owed = s.owed := rfl

/-- The call is noted for the sender. -/
@[simp] theorem commit_submitted_self (p : Party ι) (d : ChannelProtocol (Load P))
    (out : Outgoing (Load P)) (call : Str × Load P) :
    (s.commit p d out call).submitted p = s.submitted p ++ [call] := by
  simp [commit]

/-- And for no other party. -/
@[simp] theorem commit_submitted_of_ne {p q : Party ι} (h : q ≠ p) (d : ChannelProtocol (Load P))
    (out : Outgoing (Load P)) (call : Str × Load P) :
    (s.commit p d out call).submitted q = s.submitted q := by
  simp [commit, h]

/-- A `send` only appends to the histories. -/
theorem submitted_prefix_commit (p q : Party ι) (d : ChannelProtocol (Load P))
    (out : Outgoing (Load P)) (call : Str × Load P) :
    s.submitted q <+: (s.commit p d out call).submitted q := by
  by_cases h : q = p
  · subst h
    simp
  · simp [h]

/-- Delivering a packet leaves every other packet in the network and adds the answers. -/
theorem mem_receive_network {index : ℕ} {e e' : Envelope ι P}
    (h : e' ∈ (s.receive index e).network) :
    e' ∈ s.network ∨ ∃ out ∈ ((s.protocol e.dst).receive e.out.message).sent,
      e' ∈ s.copies e.dst out := by
  rcases List.mem_append.mp h with hold | hnew
  · exact .inl (List.mem_of_mem_eraseIdx hold)
  · exact .inr (List.mem_flatMap.mp hnew)

/-- A delivery adds what the receiver hands over to the receiver's history. -/
theorem receive_handed_self (index : ℕ) (e : Envelope ι P) :
    (s.receive index e).handed e.dst = s.handed e.dst ++
      ((s.protocol e.dst).receive e.out.message).handed.map fun h => (e.src, h) := by
  simp [receive]

/-- A packet is handed over by the party it was sent to alone. -/
@[simp] theorem receive_handed_of_ne {index : ℕ} {e : Envelope ι P} {p : Party ι}
    (h : p ≠ e.dst) : (s.receive index e).handed p = s.handed p := by
  simp [receive, h]

/-- That party owes the calls of `sendFullState` the packet asks for. -/
theorem receive_owed_self (index : ℕ) (e : Envelope ι P) :
    (s.receive index e).owed e.dst =
      s.owed e.dst ++ ((s.protocol e.dst).receive e.out.message).fullState := by
  simp [receive]

/-- The others owe what they owed. -/
@[simp] theorem receive_owed_of_ne {index : ℕ} {e : Envelope ι P} {p : Party ι}
    (h : p ≠ e.dst) : (s.receive index e).owed p = s.owed p := by
  simp [receive, h]

/-- Its table is the one after the packet. -/
@[simp] theorem receive_protocol_self (index : ℕ) (e : Envelope ι P) :
    (s.receive index e).protocol e.dst = ((s.protocol e.dst).receive e.out.message).state := by
  simp [receive, withProtocol]

/-- The others keep their tables. -/
@[simp] theorem receive_protocol_of_ne {index : ℕ} {e : Envelope ι P} {p : Party ι}
    (h : p ≠ e.dst) : (s.receive index e).protocol p = s.protocol p := by
  simp [receive, withProtocol, h]

/-- Receiving is no call of `send`. -/
@[simp] theorem receive_submitted (index : ℕ) (e : Envelope ι P) :
    (s.receive index e).submitted = s.submitted := rfl

/-- A client that starts has the table of a new client. -/
@[simp] theorem start_protocol_self (c : ι) :
    (s.start c).protocol (.client c) = ((s.protocol (.client c)).start false).state := by
  simp [start, withProtocol]

/-- The other parties keep their tables. -/
@[simp] theorem start_protocol_of_ne {c : ι} {p : Party ι} (h : p ≠ .client c) :
    (s.start c).protocol p = s.protocol p := by
  simp [start, withProtocol, h]

/-- Starting a client adds its request for the full state. -/
theorem start_network (c : ι) : (s.start c).network =
    s.network ++ [⟨.client c, .host, ⟨.fullSendPacket, true, .high,
      (s.protocol (.client c)).reservedChannel.2⟩⟩] := rfl

/-- The cases of a step, with its guards. -/
theorem step_cases {order : Envelope ι P → Envelope ι P → Bool} {t : Session ι P}
    {a : Action ι P} (h : s.step order a = some t) :
    (∃ p id offer, a = .send p id offer ∧ t = s.submit p id.string offer) ∨
    (∃ p call rest offer, a = .sendFullState p offer ∧ s.owed p = call :: rest ∧
      t = match offer with
        | none => s.withOwed p rest
        | some offer => (s.withOwed p rest).submit p call.1 offer) ∨
    (∃ index e, a = .deliver index ∧ s.network[index]? = some e ∧
      (∀ e' ∈ s.network.take index, order e' e = false) ∧ t = s.receive index e) ∨
    (∃ c, a = .connect c ∧ c ∉ s.connected ∧ t = { s with connected := s.connected ++ [c] }) ∨
    (∃ c, a = .start c ∧ c ∈ s.connected ∧ (s.protocol (.client c)).mode = .idle ∧
      t = s.start c) ∨
    (∃ p channel id, a = .register p channel id ∧
      t = s.withProtocol p ((s.protocol p).registerNetworkChannel channel id.string).1) ∨
    (∃ p channel id, a = .unregister p channel id ∧
      t = s.withProtocol p ((s.protocol p).unregisterNetworkChannel channel id.string)) := by
  cases a with
  | send p id offer => exact .inl ⟨p, id, offer, rfl, (Option.some.inj h).symm⟩
  | sendFullState p offer =>
    simp only [step] at h
    split at h
    · cases h
    · rename_i id channel rest howed
      refine .inr (.inl ⟨p, (id, channel), rest, offer, rfl, howed, ?_⟩)
      cases offer <;> exact (Option.some.inj h).symm
  | deliver index =>
    simp only [step] at h
    split at h
    · cases h
    · rename_i e he
      split at h
      · cases h
      · rename_i hfree
        simp only [List.any_eq_true, not_exists, not_and, Bool.not_eq_true] at hfree
        exact .inr (.inr (.inl ⟨index, e, rfl, he, hfree, (Option.some.inj h).symm⟩))
  | connect c =>
    simp only [step] at h
    split at h
    · cases h
    · rename_i hc
      exact .inr (.inr (.inr (.inl ⟨c, rfl, hc, (Option.some.inj h).symm⟩)))
  | start c =>
    simp only [step] at h
    split at h
    · rename_i hc
      exact .inr (.inr (.inr (.inr (.inl ⟨c, rfl, hc.1, hc.2, (Option.some.inj h).symm⟩))))
    · cases h
  | register p channel id =>
    exact .inr (.inr (.inr (.inr (.inr (.inl ⟨p, channel, id, rfl, (Option.some.inj h).symm⟩)))))
  | unregister p channel id =>
    exact .inr (.inr (.inr (.inr (.inr (.inr ⟨p, channel, id, rfl, (Option.some.inj h).symm⟩)))))

/-- A delivery that the transport allows. -/
theorem step_deliver {order : Envelope ι P → Envelope ι P → Bool} {t : Session ι P} {index : ℕ}
    {e : Envelope ι P} (he : s.network[index]? = some e)
    (h : s.step order (.deliver index) = some t) : t = s.receive index e := by
  simp only [step, he, Option.ite_none_left_eq_some, Option.some.injEq] at h
  exact h.2.symm

end Session

/-- The sessions that begin with the clients `members`, over a transport with the given order. -/
def sessionMachine {ι : Type*} (P : Type*) [DecidableEq ι]
    (order : Envelope ι P → Envelope ι P → Bool) (members : List ι) :
    Machine (Session ι P) (Action ι P) where
  initial := Session.Begins members
  step := Session.step order

/-- A transport that may deliver the packets in any order. -/
def anyOrder {ι P : Type*} (_ _ : Envelope ι P) : Bool := false

/-- `RELIABLE_ORDERED`: safe packets keep their order within one ordering channel of one link. -/
def orderedChannels {ι P : Type*} [DecidableEq ι] (e' e : Envelope ι P) : Bool :=
  e'.src = e.src ∧ e'.dst = e.dst ∧ e'.out.safe ∧ e.out.safe ∧ e'.out.channel = e.out.channel

/-- What a list of actions leads to from the plain beginning is reachable. -/
theorem Session.reachable_of_opening {ι P : Type*} [DecidableEq ι]
    {order : Envelope ι P → Envelope ι P → Bool} {members : List ι} (hnodup : members.Nodup)
    {actions : List (Action ι P)} {s : Session ι P}
    (h : (sessionMachine P order members).run (opening ι P members) actions = some s) :
    (sessionMachine P order members).Reachable s :=
  Machine.Reachable.run (.initial (begins_opening P hnodup)) h

end Multicrew.Core
