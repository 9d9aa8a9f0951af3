import Multicrew.Core.LinkQueue

/-!
# Order of the packets of one id

The packets of an id use several transport streams: an `idChannelPacket` goes out on a reserved
ordering channel, a `channelPacket` on the channel of its number, and a client may park packets
in between. The order therefore survives only deliveries that are in turn: nothing is handed
over past an `idChannelPacket` still in flight, or past a parked packet.
-/

namespace Multicrew.Core

open Std (TreeMap TreeSet)
open Multicrew.Library

namespace Session

variable {ι P : Type*} [DecidableEq ι] {s : Session ι P} {keep : Load P → Bool}

/-- The ordering channels keep the order of the safe packets of a number. -/
theorem keepsNumbers_orderedChannels :
    KeepsNumbers (Load.safe : Load P → Bool) (orderedChannels : Envelope ι P → Envelope ι P → Bool) := by
  intro e' e num load' load hsrc hdst _ _ hout' hout hsafe' hsafe
  simp [orderedChannels, hsrc, hdst, hout', hout, hsafe', hsafe]

/-- The queue of every link and id is what was sent; a link to a late client may have lost some. -/
structure InOrder (keep : Load P → Bool) (members : List ι) (s : Session ι P) : Prop where
  sub : ∀ l X, (s.queueOn keep l X).Sublist (s.sentOn keep l X)
  whole : ∀ l X, l.Whole members → s.queueOn keep l X = s.sentOn keep l X

/-- The links of the session reach an end that is not idle. -/
theorem Agreement.route_of_whole (h : s.Agreement) {members : List ι}
    (hledger : ∀ c ∈ members, Ledger members s c) {l : Link ι} (hl : l.Whole members) :
    l.dst ∈ s.route l.src ∧ (s.protocol l.dst).mode ≠ .idle := by
  cases l with
  | down c =>
    refine ⟨List.mem_map_of_mem (hledger c hl).connected, ?_⟩
    rw [Link.dst, (hledger c hl).mode]
    simp
  | up c =>
    refine ⟨List.mem_singleton_self _, ?_⟩
    rw [Link.dst, h.host_mode]
    simp

/-- Every step in turn keeps the queues. -/
theorem InOrder.step {members : List ι} {t : Session ι P} (hin : InOrder keep members s)
    (h : s.Agreement) (hledger : ∀ c ∈ members, Ledger members s c)
    {order : Envelope ι P → Envelope ι P → Bool} (hqueue : ∀ l X, QueueStep keep order s t l X) :
    InOrder keep members t := by
  constructor
  · intro l X
    rcases hqueue l X with ⟨new, hsent, heq | ⟨-, heq⟩⟩ | ⟨c, index, e, rfl, -, -, hdst, hidle, -, rfl⟩
    · rw [hsent, heq]
      exact (hin.sub l X).append (List.Sublist.refl _)
    · rw [hsent, heq]
      exact (hin.sub l X).trans (List.sublist_append_left _ _)
    · exact (queueOn_receive_idle hdst hidle X).trans (hin.sub _ X)
  · intro l X hl
    obtain ⟨hroute, hmode⟩ := h.route_of_whole hledger hl
    rcases hqueue l X with ⟨new, hsent, heq | ⟨hnot, -⟩⟩ | ⟨c, index, e, rfl, -, -, hdst, hidle, -, -⟩
    · rw [hsent, heq, hin.whole l X hl]
    · exact absurd hroute hnot
    · rw [hdst] at hidle
      exact absurd hidle hmode

/-- The queues are in order in every state met by deliveries in turn. -/
theorem InOrder.reachable {order : Envelope ι P → Envelope ι P → Bool}
    (horder : KeepsNumbers keep order) {members : List ι}
    (h : (sessionMachine P order members).ReachableVia (InTurn keep) s) :
    InOrder keep members s := by
  apply h.invariant
  · intro s hs
    constructor
    · intro l X
      rw [(hs.queueOn_eq_nil l X).1]
      exact List.nil_sublist _
    · intro l X _
      rw [(hs.queueOn_eq_nil l X).1, (hs.queueOn_eq_nil l X).2]
  · intro s a t hr hin hturn hstep
    have hs := Agreement.reachable hr.reachable
    exact hin.step hs (fun _ hc => Ledger.reachable hr.reachable hc)
      fun l => queueStep (Streams.reachable hr.reachable) hs horder hstep l
        fun _ _ _ _ _ _ _ _ => hturn

/-- When nothing is in flight nothing is parked. -/
theorem Ledger.parkedOn_eq_nil {members : List ι} {c : ι} (hl : Ledger members s c)
    (hnet : s.network = []) (num : Option ℕ) :
    s.parkedOn keep num (.down c) = [] := by
  rw [parkedOn_down hl.mode]
  cases num with
  | none => rfl
  | some num =>
    have hempty : queueAt (s.protocol (.client c)).todo num = [] := by
      by_contra hq
      obtain ⟨e, he, -⟩ := hl.asked num hq
      rw [hnet] at he
      cases he
    simp [hempty]

/-- A channel object receives a part of what is handed over, in the same order. -/
theorem receivedOn_sublist (s : Session ι P) (l : Link ι) (X : Str) (channel : ℕ) :
    (s.receivedOn keep l X channel).Sublist (s.handedOn keep l X) := by
  unfold receivedOn handedOn
  induction s.handed l.dst with
  | nil => exact List.Sublist.refl _
  | cons x rest ih =>
    by_cases hsrc : x.1 = l.src
    · by_cases hchannel : channel ∈ x.2.receivers
      · cases hsel : selectFor keep X (x.2.id, x.2.packet) with
        | none => simpa [hsrc, hchannel, hsel] using ih
        | some load => simpa [hsrc, hchannel, hsel] using ih
      · cases hsel : selectFor keep X (x.2.id, x.2.packet) with
        | none => simpa [hsrc, hchannel, hsel] using ih
        | some load => simpa [hsrc, hchannel, hsel] using ih.cons load
    · simpa [hsrc] using ih

/-- In every run whose deliveries are in turn, the safe packets of an id are handed over, and
received by each channel object, in the order of their `send` calls. On the links that lose
nothing they are a prefix of what was sent, and all of it when nothing is in flight. -/
theorem packets_in_order {members : List ι} {s : Session ι P}
    (h : (sessionMachine P orderedChannels members).ReachableVia (InTurn Load.safe) s)
    (l : Link ι) (X : Str) :
    (s.handedOn Load.safe l X).Sublist (s.sentOn Load.safe l X) ∧
    (∀ channel, (s.receivedOn Load.safe l X channel).Sublist (s.sentOn Load.safe l X)) ∧
    (l.Whole members → s.handedOn Load.safe l X <+: s.sentOn Load.safe l X ∧
      (s.network = [] → s.handedOn Load.safe l X = s.sentOn Load.safe l X)) := by
  have hin := InOrder.reachable keepsNumbers_orderedChannels h
  have hhead : s.handedOn Load.safe l X <+: s.queueOn Load.safe l X := by
    unfold queueOn
    simp only [List.append_assoc]
    exact List.prefix_append _ _
  have hsub : (s.handedOn Load.safe l X).Sublist (s.sentOn Load.safe l X) :=
    hhead.sublist.trans (hin.sub l X)
  refine ⟨hsub, fun channel => (s.receivedOn_sublist l X channel).trans hsub, fun hl => ⟨?_, ?_⟩⟩
  · rw [← hin.whole l X hl]
    exact hhead
  · intro hnet
    have hflight : ∀ f, s.flightOn l f = [] := by simp [flightOn, hnet]
    have hparked : s.parkedOn Load.safe (s.hostNum X) l = [] := by
      cases l with
      | up c => rfl
      | down c => exact (Ledger.reachable h.reachable hl).parkedOn_eq_nil hnet _
    rw [← hin.whole l X hl, queueOn, hflight, hflight, hparked]
    simp

/-- Delivering the named packet first and the numbered one after it is in turn. -/
theorem packets_in_order_named_first : ∃ s,
    (sessionMachine ℕ orderedChannels [()]).run (opening Unit ℕ [()])
        [.send .host ⟨[65], by simp⟩ ⟨7, true, .high⟩, .send .host ⟨[65], by simp⟩ ⟨8, true, .high⟩,
          .deliver 0, .deliver 0] = some s ∧
      s.handedOn Load.safe (.down ()) [65] = s.sentOn Load.safe (.down ()) [65] := by
  have hrun : (sessionMachine ℕ orderedChannels [()]).run (opening Unit ℕ [()])
    [.send .host ⟨[65], by simp⟩ ⟨7, true, .high⟩, .send .host ⟨[65], by simp⟩ ⟨8, true, .high⟩,
      .deliver 0, .deliver 0] = some _ := rfl
  have hturn : (sessionMachine ℕ orderedChannels [()]).Along (InTurn Load.safe) (opening Unit ℕ [()])
      [.send .host ⟨[65], by simp⟩ ⟨7, true, .high⟩, .send .host ⟨[65], by simp⟩ ⟨8, true, .high⟩,
        .deliver 0, .deliver 0] := by
    refine ⟨trivial, trivial, ?_, ?_, trivial⟩
    · rintro e ⟨⟩ - -
      decide
    · rintro e ⟨⟩ - - id -
      refine ⟨?_, by decide⟩
      rintro e' (_ | ⟨_, ⟨⟩⟩) - -
      rfl
  have hs := packets_in_order (Machine.ReachableVia.run (.initial (begins_opening ℕ
    (List.nodup_singleton ()))) hturn hrun) (.down ()) [65]
  exact ⟨_, hrun, (hs.2.2 (List.mem_singleton_self ())).2 rfl⟩

/-- The numbered packet may overtake the named one: the client parks it, asks for the id, and is
answered on another reserved channel before the named packet arrives. Its channel then receives the
second packet before the first. -/
theorem packets_overtake : ¬ ∀ (members : List Unit) (s : Session Unit ℕ),
    (sessionMachine ℕ orderedChannels members).Reachable s →
      ∀ (l : Link Unit) (X : Str) (channel : ℕ), l.Whole members →
        (s.receivedOn Load.safe l X channel).Sublist (s.sentOn Load.safe l X) := by
  intro h
  have hrun : (sessionMachine ℕ orderedChannels [()]).run (opening Unit ℕ [()])
    [.register (.client ()) 1 ⟨[65], by simp⟩,
      .send .host ⟨[65], by simp⟩ ⟨7, true, .high⟩, .send .host ⟨[65], by simp⟩ ⟨8, true, .high⟩,
      .deliver 1, .deliver 1, .deliver 1, .deliver 0] = some _ := rfl
  have hsublist := h [()] _ (reachable_of_opening (List.nodup_singleton ()) hrun) (.down ()) [65] 1
    (List.mem_singleton_self ())
  revert hsublist
  decide

end Session

end Multicrew.Core
