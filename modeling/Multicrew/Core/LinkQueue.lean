import Multicrew.Core.Delivery

/-!
# The queue of one link and one id

The payloads sent on a link for an id are in one of four places: handed over, in flight with the
id itself, parked, or in flight with the number. Read in this order they form a queue in sending
order. A delivery in turn takes the payload that comes next, so it only moves the boundary
between what is handed over and the rest; every other step appends what it sends.

Which payloads count is a parameter: a transport may keep the order of some packets only.
-/

namespace Multicrew.Core

open Std (TreeMap TreeSet)
open Multicrew.Library

section Messages

variable {P : Type*} (keep : Load P → Bool)

/-- The payload of an `idChannelPacket` for id `X`. -/
def Message.named (X : Str) : Message (Load P) → Option (Load P)
  | .idChannelPacket _ id load => if id = X ∧ keep load then some load else none
  | _ => none

/-- The payload of a `channelPacket` with the given number. -/
def Message.numbered (num : Option ℕ) : Message (Load P) → Option (Load P)
  | .channelPacket num' load => if num = some num' ∧ keep load then some load else none
  | _ => none

/-- The payload of one entry of a history, if it is for id `X`. -/
def selectFor (X : Str) (entry : Str × Load P) : Option (Load P) :=
  if entry.1 = X ∧ keep entry.2 then some entry.2 else none

variable {keep}

/-- A message without payload is neither. -/
theorem Message.named_of_payload {X : Str} {m : Message (Load P)} (h : m.payload = none) :
    m.named keep X = none := by
  cases m <;> first | rfl | cases h

/-- A message without payload is neither. -/
theorem Message.numbered_of_payload {num : Option ℕ} {m : Message (Load P)}
    (h : m.payload = none) : m.numbered keep num = none := by
  cases m <;> first | rfl | cases h

/-- An unbound id has no numbered messages. -/
@[simp] theorem Message.numbered_none (m : Message (Load P)) : m.numbered keep none = none := by
  cases m <;> simp [numbered]

end Messages

variable {ι P : Type*} [DecidableEq ι]

/-- A transport that keeps the order of the kept packets of one number on one link. -/
def KeepsNumbers (keep : Load P → Bool) (order : Envelope ι P → Envelope ι P → Bool) : Prop :=
  ∀ (e' e : Envelope ι P) (num : ℕ) (load' load : Load P), e'.src = e.src → e'.dst = e.dst →
    e'.out.message = .channelPacket num load' → e.out.message = .channelPacket num load →
    e'.out.channel = num ∧ e'.out.safe = load'.safe → e.out.channel = num ∧ e.out.safe = load.safe →
    keep load' → keep load → order e' e = true

/-- Restrict a selection of messages to one link. -/
def Link.carries {β : Type*} (l : Link ι) (f : Message (Load P) → Option β)
    (e : Envelope ι P) : Option β :=
  if e.src = l.src ∧ e.dst = l.dst then f e.out.message else none

/-- The links that lose nothing: all to the host, and those to the clients of the session. -/
def Link.Whole (members : List ι) : Link ι → Prop
  | .down c => c ∈ members
  | .up _ => True

namespace Session

variable (keep : Load P → Bool) (s : Session ι P)

/-- The number the host has bound to an id. -/
def hostNum (X : Str) : Option ℕ := (s.protocol .host).idToNum[X]?

/-- The payloads for `X` sent on a link, in the order of the `send` calls. -/
def sentOn (l : Link ι) (X : Str) : List (Load P) :=
  (s.submitted l.src).filterMap (selectFor keep X)

/-- The payloads for `X` handed over at the end of a link. -/
def handedOn (l : Link ι) (X : Str) : List (Load P) :=
  (s.handed l.dst).filterMap fun x =>
    if x.1 = l.src then selectFor keep X (x.2.id, x.2.packet) else none

/-- Those of them that a registered channel object received. -/
def receivedOn (l : Link ι) (X : Str) (channel : ℕ) : List (Load P) :=
  (s.handed l.dst).filterMap fun x =>
    if x.1 = l.src ∧ channel ∈ x.2.receivers then selectFor keep X (x.2.id, x.2.packet) else none

/-- The payloads of the selected messages in flight on a link. -/
def flightOn (l : Link ι) (f : Message (Load P) → Option (Load P)) : List (Load P) :=
  s.network.filterMap (l.carries f)

/-- The payloads a client in the session has parked under a number. -/
def parkedOn (num : Option ℕ) : Link ι → List (Load P)
  | .down c =>
    match (s.protocol (.client c)).mode, num with
    | .client, some num => (queueAt (s.protocol (.client c)).todo num).filter keep
    | _, _ => []
  | .up _ => []

/-- The queue of a link for id `X`. -/
def queueOn (l : Link ι) (X : Str) : List (Load P) :=
  s.handedOn keep l X ++ s.flightOn l (Message.named keep X) ++ s.parkedOn keep (s.hostNum X) l ++
    s.flightOn l (Message.numbered keep (s.hostNum X))

/-- A delivery that is in turn: a payload is handed over only when no earlier packet of its id is
still in flight with the id itself, nor parked. -/
def InTurn : Action ι P → Prop
  | .deliver index =>
    ∀ e, s.network[index]? = some e → (s.protocol e.dst).mode ≠ .idle →
      match e.out.message with
      | .fullSendPacket => True
      | .idChannelPacket _ id load => keep load →
        ∀ e' ∈ s.network.take index,
          e'.src = e.src → e'.dst = e.dst → e'.out.message.named keep id = none
      | .channelPacket num load => keep load → ∀ id, (s.protocol e.dst).numToId[num]? = some id →
        (∀ e' ∈ s.network, e'.src = e.src → e'.dst = e.dst → e'.out.message.named keep id = none) ∧
          (queueAt (s.protocol e.dst).todo num).filter keep = []
      | .idNumPacket num id => (s.protocol e.dst).mode = .client →
        (queueAt (s.protocol e.dst).todo num).filter keep ≠ [] →
        ∀ e' ∈ s.network, e'.src = e.src → e'.dst = e.dst → e'.out.message.named keep id = none
  | _ => True

/-- What holds of the transport's side: each client is reached once, a numbered packet is sent on
the ordering channel of its number, and a client only uses numbers it knows. -/
structure Streams (s : Session ι P) : Prop where
  nodup : s.connected.Nodup
  channel : ∀ e ∈ s.network, ∀ num load, e.out.message = .channelPacket num load →
    e.out.channel = num ∧ e.out.safe = load.safe
  known : ∀ e ∈ s.network, ∀ c num load, e.src = .client c →
    e.out.message = .channelPacket num load → (s.protocol (.client c)).mode = .client ∧
      ∃ id : Str, (s.protocol (.client c)).idToNum[id]? = some num

/-- A number an id may have after a step: the old one, or one nothing in the session speaks of. -/
def Rebinds (X : Str) (num : Option ℕ) : Prop :=
  num = s.hostNum X ∨ s.hostNum X = none ∧ ∃ n, num = some n ∧ ∀ id, ¬ s.Bound id n

variable {keep s}

/-- A packet that is not selected on its own link is not selected. -/
theorem carries_eq_none {l : Link ι} {f : Message (Load P) → Option (Load P)}
    {e : Envelope ι P} (h : e.src = l.src → e.dst = l.dst → f e.out.message = none) :
    l.carries f e = none := by
  unfold Link.carries
  split
  · rename_i hlink
    exact h hlink.1 hlink.2
  · rfl

/-- Nothing is in flight of a selection that sees no packet on the link. -/
theorem flightOn_eq_nil {l : Link ι} {f : Message (Load P) → Option (Load P)}
    (h : ∀ e ∈ s.network, e.src = l.src → e.dst = l.dst → f e.out.message = none) :
    s.flightOn l f = [] :=
  List.filterMap_eq_nil_iff.mpr fun e he => carries_eq_none (h e he)

/-- What is selected for an id is an entry of the id that is kept. -/
theorem selectFor_eq_some {X : Str} {entry : Str × Load P} {load : Load P}
    (h : selectFor keep X entry = some load) : entry.1 = X ∧ keep entry.2 = true := by
  by_contra hnot
  rw [selectFor, if_neg hnot] at h
  cases h

/-- An unbound id has nothing in flight or parked under a number. -/
theorem numbered_of_unbound (keep : Load P → Bool) (s : Session ι P) (l : Link ι) :
    s.flightOn l (Message.numbered keep none) = [] ∧ s.parkedOn keep none l = [] := by
  constructor
  · exact flightOn_eq_nil fun e _ _ _ => e.out.message.numbered_none
  · cases l with
    | up c => rfl
    | down c => simp [parkedOn]

/-- Nothing is in flight or parked under a number bound later. -/
theorem Agreement.numbered_of_rebinds (h : s.Agreement) {X : Str} {num : Option ℕ}
    (hnum : s.Rebinds X num) (l : Link ι) :
    s.flightOn l (Message.numbered keep num) = s.flightOn l (Message.numbered keep (s.hostNum X)) ∧
      s.parkedOn keep num l = s.parkedOn keep (s.hostNum X) l := by
  rcases hnum with rfl | ⟨hnone, n, rfl, hfresh⟩
  · exact ⟨rfl, rfl⟩
  have hflight : s.flightOn l (Message.numbered keep (some n)) = [] := by
    apply flightOn_eq_nil
    intro e he _ _
    cases hm : e.out.message with
    | channelPacket num load =>
      have hok := h.messages e he
      rw [hm] at hok
      obtain ⟨id, hb, -⟩ := hok
      have hne : n ≠ num := by
        rintro rfl
        exact hfresh id hb
      simp [Message.numbered, hne]
    | _ => rfl
  have hparked : s.parkedOn keep (some n) l = [] := by
    cases l with
    | up c => rfl
    | down c =>
      simp only [parkedOn]
      split
      · rename_i num hmode heq
        cases heq
        apply List.filter_eq_nil_iff.mpr
        intro load hload
        obtain ⟨id, hb, -⟩ := (h.client c hmode).parked n load hload
        exact absurd hb (hfresh id)
      · rfl
  have hnone' := numbered_of_unbound keep s l
  rw [hnone, hflight, hparked, hnone'.1, hnone'.2]
  exact ⟨rfl, rfl⟩

/-- A selection of messages follows a committed `send`. -/
theorem Streams.flightOn_commit (h : s.Streams) (p : Party ι) (d : ChannelProtocol (Load P))
    (out : Outgoing (Load P)) (call : Str × Load P) (l : Link ι)
    (f : Message (Load P) → Option (Load P)) :
    (s.commit p d out call).flightOn l f = s.flightOn l f ++
      if p = l.src ∧ l.dst ∈ s.route p then (f out.message).toList else [] := by
  have hother : ∀ e : Envelope ι P, e.dst ≠ l.dst → l.carries f e = none := by
    intro e hdst
    simp [Link.carries, hdst]
  rw [flightOn, commit_network, List.filterMap_append, s.filterMap_copies h.nodup hother]
  congr 1
  by_cases hp : p = l.src
  · simp [Link.carries, hp]
  · simp [Link.carries, hp]

/-- Sending adds a safe payload to the history of its id. -/
theorem sentOn_commit (p : Party ι) (d : ChannelProtocol (Load P))
    (out : Outgoing (Load P)) (call : Str × Load P) (l : Link ι) (X : Str) :
    (s.commit p d out call).sentOn keep l X =
      s.sentOn keep l X ++ if p = l.src then (selectFor keep X call).toList else [] := by
  by_cases hp : p = l.src
  · subst hp
    rw [sentOn, commit_submitted_self, List.filterMap_append, if_pos rfl]
    cases hsel : selectFor keep X call <;> simp [sentOn, hsel]
  · rw [sentOn, s.commit_submitted_of_ne (Ne.symm hp), if_neg hp, List.append_nil]
    rfl

/-- Sending parks nothing. -/
theorem parkedOn_commit {p : Party ι} {d : ChannelProtocol (Load P)}
    (hmode : d.mode = (s.protocol p).mode) (htodo : d.todo = (s.protocol p).todo)
    (out : Outgoing (Load P)) (call : Str × Load P) (num : Option ℕ) (l : Link ι) :
    (s.commit p d out call).parkedOn keep num l = s.parkedOn keep num l := by
  cases l with
  | up c => rfl
  | down c =>
    by_cases hp : Party.client c = p
    · subst hp
      simp [parkedOn, hmode, htodo]
    · simp [parkedOn, hp]

/-- The number of an id after the host has handled a `send`. -/
theorem Agreement.rebinds_send (h : s.Agreement) {p : Party ι} {d : ChannelProtocol (Load P)}
    {load : Load P} {safe : Bool} {prio : Priority} {id : Str} {out : Outgoing (Load P)}
    (hsend : (s.protocol p).sendChannelPacket load safe prio id = (d, some out))
    (call : Str × Load P) (X : Str) : s.Rebinds X ((s.commit p d out call).hostNum X) := by
  unfold Rebinds hostNum
  by_cases hp : p = .host
  · subst hp
    rw [commit_protocol, withProtocol_self]
    rcases (s.protocol .host).sendChannelPacket_cases hsend with
      ⟨num, -, rfl, -⟩ | ⟨-, -, -, hnum, -⟩
    · exact .inl rfl
    · simp only [h.host_mode] at hnum
      rw [hnum]
      exact h.host_table.createIdNum_fresh id X
  · left
    rw [commit_protocol, withProtocol_of_ne _ (Ne.symm hp)]

/-- While a sender has no number for an id, nothing on its links is in flight or parked under the
host's number for it. -/
theorem Streams.numbered_of_unknown (hst : s.Streams) (keep : Load P → Bool) (h : s.Agreement)
    {l : Link ι} {X : Str} (hX : (s.protocol l.src).getIdNum X = 0) :
    s.flightOn l (Message.numbered keep (s.hostNum X)) = [] ∧
      s.parkedOn keep (s.hostNum X) l = [] := by
  cases l with
  | down c =>
    have hnone : s.hostNum X = none := h.host_table.getIdNum_eq_zero.mp hX
    rw [hnone]
    exact numbered_of_unbound keep s (.down c)
  | up c =>
    refine ⟨?_, rfl⟩
    apply flightOn_eq_nil
    intro e he hsrc _
    cases hm : e.out.message with
    | channelPacket num load =>
      obtain ⟨hmode, id, hid⟩ := hst.known e he c num load hsrc hm
      have hb : s.Bound id num := h.bound_of_known (by simp [hmode]) hid
      have hne : ¬ s.hostNum X = some num := by
        intro hnum
        have heq := h.bound_injective hnum hb
        have hpos := h.host_table.num_pos hb
        rw [heq, Link.src, (s.protocol (.client c)).getIdNum_of_bound hid] at hX
        rw [hX] at hpos
        exact absurd hpos (by decide)
      simp [Message.numbered, hne]
    | _ => rfl

/-- A `send` appends its safe payload to the queue of every link it goes out on. -/
theorem Streams.queueOn_commit (hst : s.Streams) (h : s.Agreement) {p : Party ι}
    {d : ChannelProtocol (Load P)} {load : Load P} {safe : Bool} {prio : Priority} {id : Str}
    {out : Outgoing (Load P)} (hmode : (s.protocol p).mode ≠ .idle)
    (hsend : (s.protocol p).sendChannelPacket load safe prio id = (d, some out))
    (l : Link ι) (X : Str) :
    (s.commit p d out (id, load)).queueOn keep l X = s.queueOn keep l X ++
      if p = l.src ∧ l.dst ∈ s.route p then (selectFor keep X (id, load)).toList else [] := by
  have hreb := h.rebinds_send hsend (id, load) X
  obtain ⟨hflight, hparked⟩ := h.numbered_of_rebinds hreb l
  obtain ⟨hdmode, hdtodo, -⟩ := ChannelProtocol.sendChannelPacket_some hsend
  unfold queueOn
  rw [hst.flightOn_commit, hst.flightOn_commit, parkedOn_commit hdmode hdtodo, hflight, hparked]
  rcases (s.protocol p).sendChannelPacket_cases hsend with
    ⟨num, hnum, rfl, rfl⟩ | ⟨hunknown, -, -, -, num, hm⟩
  · -- on the number: the payload joins the end of the numbered packets
    have hb := h.bound_of_known hmode hnum
    have hhost : (s.commit p (s.protocol p) ⟨.channelPacket num load, safe, prio, num⟩
        (id, load)).hostNum X = s.hostNum X := by
      by_cases hp : p = .host
      · subst hp
        simp [hostNum]
      · simp [hostNum, Ne.symm hp]
    have hsel : (Message.channelPacket num load).numbered keep (s.hostNum X) =
        selectFor keep X (id, load) := by
      have hiff : s.hostNum X = some num ↔ id = X := by
        constructor
        · intro hX
          exact h.bound_injective hb hX
        · rintro rfl
          exact hb
      simp [Message.numbered, selectFor, hiff]
    have hnamed : (Message.channelPacket num load).named keep X = none := rfl
    simp only [hhost, hsel, hnamed, Option.toList_none, ite_self, List.append_nil]
    simp [handedOn, List.append_assoc]
  · -- with the id: nothing of it is parked or in flight under a number
    have hnumbered :
        out.message.numbered keep ((s.commit p d out (id, load)).hostNum X) = none := by
      rw [hm]
      rfl
    have hsel : out.message.named keep X = selectFor keep X (id, load) := by
      rw [hm]
      rfl
    rw [hnumbered, hsel]
    split
    · rename_i hlink
      by_cases hX : id = X
      · rw [hlink.1, hX] at hunknown
        have hnil := hst.numbered_of_unknown keep h hunknown
        simp [hnil.1, hnil.2, handedOn]
      · have hnot : selectFor keep X (id, load) = none := by simp [selectFor, hX]
        simp [hnot, handedOn]
    · simp [handedOn]

/-- What a delivery hands over on a link. -/
theorem handedOn_receive (s : Session ι P) (index : ℕ) (e : Envelope ι P) (l : Link ι) (X : Str) :
    (s.receive index e).handedOn keep l X = s.handedOn keep l X ++
      if e.src = l.src ∧ e.dst = l.dst then
        ((s.protocol e.dst).receive e.out.message).handed.filterMap fun h =>
          selectFor keep X (h.id, h.packet)
      else [] := by
  by_cases hdst : l.dst = e.dst
  · unfold handedOn
    rw [hdst, s.receive_handed_self, List.filterMap_append, List.filterMap_map]
    congr 1
    by_cases hsrc : e.src = l.src
    · simp [hsrc]
    · simp [hsrc]
  · unfold handedOn
    rw [s.receive_handed_of_ne hdst, if_neg fun hlink => hdst hlink.2.symm, List.append_nil]

/-- The answers to a delivery add nothing to a selection of payloads. -/
theorem flightOn_receive (s : Session ι P) (index : ℕ) (e : Envelope ι P) (l : Link ι)
    {f : Message (Load P) → Option (Load P)} (hf : ∀ m, m.payload = none → f m = none) :
    (s.receive index e).flightOn l f = (s.network.eraseIdx index).filterMap (l.carries f) := by
  have hanswers : (((s.protocol e.dst).receive e.out.message).sent.flatMap
      (s.copies e.dst)).filterMap (l.carries f) = [] := by
    apply List.filterMap_eq_nil_iff.mpr
    intro e' he'
    obtain ⟨out, hout, hcopy⟩ := List.mem_flatMap.mp he'
    obtain ⟨-, heq, -⟩ := s.mem_copies.mp hcopy
    have hnone := hf _ ((s.protocol e.dst).payload_receive_sent e.out.message out hout)
    simp [Link.carries, heq, hnone]
  rw [flightOn, Session.receive, List.filterMap_append, hanswers, List.append_nil]

/-- A selection that does not see the delivered packet is unchanged. -/
theorem flightOn_receive_of_none {s : Session ι P} {index : ℕ} {e : Envelope ι P}
    (he : s.network[index]? = some e) {l : Link ι} {f : Message (Load P) → Option (Load P)}
    (hf : ∀ m, m.payload = none → f m = none) (hnone : l.carries f e = none) :
    (s.receive index e).flightOn l f = s.flightOn l f := by
  rw [flightOn_receive s index e l hf, filterMap_eraseIdx_of_none he hnone]
  rfl

/-- The oldest selected packet leaves from the front of the selection. -/
theorem flightOn_receive_of_first {s : Session ι P} {index : ℕ} {e : Envelope ι P}
    (he : s.network[index]? = some e) {l : Link ι} {f : Message (Load P) → Option (Load P)}
    (hf : ∀ m, m.payload = none → f m = none) {load : Load P} (hsome : l.carries f e = some load)
    (hfirst : ∀ e' ∈ s.network.take index, l.carries f e' = none) :
    s.flightOn l f = load :: (s.receive index e).flightOn l f := by
  rw [flightOn_receive s index e l hf, flightOn, filterMap_eraseIdx_of_first he hsome hfirst]

/-- A delivery takes packets away from a selection, and adds none. -/
theorem flightOn_receive_sublist (s : Session ι P) (index : ℕ) (e : Envelope ι P) (l : Link ι)
    (f : Message (Load P) → Option (Load P)) (hf : ∀ m, m.payload = none → f m = none) :
    ((s.receive index e).flightOn l f).Sublist (s.flightOn l f) := by
  rw [flightOn_receive s index e l hf]
  exact (List.eraseIdx_sublist ..).filterMap _

/-- Kept packets of one number leave a link in order. -/
theorem Streams.numbered_first (h : s.Streams) {order : Envelope ι P → Envelope ι P → Bool}
    (horder : KeepsNumbers keep order) {index : ℕ} {e : Envelope ι P}
    (he : s.network[index]? = some e)
    (hfree : ∀ e' ∈ s.network.take index, order e' e = false) (l : Link ι)
    (hsrc : e.src = l.src) (hdst : e.dst = l.dst) {num : ℕ} {load : Load P}
    (hm : e.out.message = .channelPacket num load) (hkeep : keep load) :
    ∀ e' ∈ s.network.take index, l.carries (Message.numbered keep (some num)) e' = none := by
  intro e' he'
  have hnot := hfree e' he'
  have hout := h.channel e (List.mem_of_getElem? he) num load hm
  unfold Link.carries
  split
  · rename_i hlink
    cases hm' : e'.out.message with
    | channelPacket num' load' =>
      have hout' := h.channel e' (List.mem_of_mem_take he') num' load' hm'
      by_contra hsel
      have hsame : num = num' ∧ keep load' = true := by
        by_contra hne
        rw [Message.numbered, if_neg (by simpa using hne)] at hsel
        exact hsel rfl
      obtain ⟨rfl, hkeep'⟩ := hsame
      rw [horder e' e num load' load (hlink.1.trans hsrc.symm) (hlink.2.trans hdst.symm) hm' hm
        hout' hout hkeep' hkeep] at hnot
      cases hnot
    | _ => rfl
  · rfl

/-- The number of an id after a delivery. -/
theorem Agreement.rebinds_receive (h : s.Agreement) (index : ℕ) (e : Envelope ι P) (X : Str) :
    s.Rebinds X ((s.receive index e).hostNum X) := by
  unfold Rebinds hostNum
  by_cases hdst : e.dst = .host
  · have hmode : (s.protocol e.dst).mode = .host := by rw [hdst, h.host_mode]
    rw [← hdst, receive_protocol_self]
    cases hm : e.out.message with
    | fullSendPacket => exact .inl rfl
    | channelPacket num load =>
      rw [ChannelProtocol.receive_channelPacket_host _ hmode]
      exact .inl rfl
    | idNumPacket num string =>
      rw [ChannelProtocol.receive_idNumPacket_host _ hmode]
      exact .inl rfl
    | idChannelPacket num id load =>
      rw [ChannelProtocol.receive_idChannelPacket_host _ hmode]
      have hfresh := h.host_table.createIdNum_fresh id X
      rw [← hdst] at hfresh
      unfold Bound
      rw [← hdst]
      exact hfresh
  · left
    rw [receive_protocol_of_ne _ (Ne.symm hdst)]

/-- A delivery to a client leaves the host's numbers alone. -/
theorem hostNum_receive_client (s : Session ι P) (index : ℕ) {e : Envelope ι P} {c : ι}
    (hdst : e.dst = .client c) (X : Str) : (s.receive index e).hostNum X = s.hostNum X := by
  have hne : Party.host ≠ e.dst := by simp [hdst]
  rw [hostNum, receive_protocol_of_ne _ hne, hostNum]

/-- A delivery on one link leaves the queues of the others alone. -/
theorem Agreement.queueOn_receive_other (h : s.Agreement) {index : ℕ} {e : Envelope ι P}
    (he : s.network[index]? = some e) {l : Link ι} (hlink : ¬ (e.src = l.src ∧ e.dst = l.dst))
    (X : Str) : (s.receive index e).queueOn keep l X = s.queueOn keep l X := by
  obtain ⟨hflight, hparked⟩ := h.numbered_of_rebinds (h.rebinds_receive index e X) l
  have hnone : ∀ f : Message (Load P) → Option (Load P), l.carries f e = none :=
    fun f => if_neg hlink
  have hsame : ∀ num, (s.receive index e).parkedOn keep num l = s.parkedOn keep num l := by
    intro num
    cases l with
    | up c => rfl
    | down c =>
      have hdst : Party.client c ≠ e.dst := by
        intro heq
        rcases h.routed e (List.mem_of_getElem? he) with ⟨hsrc, -⟩ | ⟨-, hhost⟩
        · exact hlink ⟨hsrc, heq.symm⟩
        · rw [hhost] at heq
          cases heq
      simp [parkedOn, hdst]
  rw [queueOn, queueOn, handedOn_receive, if_neg hlink, List.append_nil, hsame, hparked,
    flightOn_receive_of_none he (fun _ => Message.named_of_payload) (hnone _),
    flightOn_receive_of_none he (fun _ => Message.numbered_of_payload) (hnone _), hflight]

/-- Handing over the payload of an `idChannelPacket` in turn keeps the queue. -/
theorem Agreement.queueOn_receive_named (h : s.Agreement) {index : ℕ} {e : Envelope ι P}
    (he : s.network[index]? = some e) (l : Link ι) (hsrc : e.src = l.src) (hdst : e.dst = l.dst)
    {num : ℕ} {id : Str} {load : Load P} (hm : e.out.message = .idChannelPacket num id load)
    {X : Str}
    (hhanded : ((s.protocol e.dst).receive e.out.message).handed.filterMap
      (fun h => selectFor keep X (h.id, h.packet)) = (selectFor keep X (id, load)).toList)
    (hparked : ∀ n, (s.receive index e).parkedOn keep n l = s.parkedOn keep n l)
    (hturn : keep load → ∀ e' ∈ s.network.take index,
      e'.src = e.src → e'.dst = e.dst → e'.out.message.named keep id = none) :
    (s.receive index e).queueOn keep l X = s.queueOn keep l X := by
  obtain ⟨hflight, hpark⟩ := h.numbered_of_rebinds (h.rebinds_receive index e X) l
  have hnumbered : ∀ n, l.carries (Message.numbered keep n) e = none := by
    intro n
    simp [Link.carries, hm, Message.numbered]
  have hcarries : l.carries (Message.named keep X) e = selectFor keep X (id, load) := by
    rw [Link.carries, if_pos ⟨hsrc, hdst⟩, hm]
    rfl
  rw [queueOn, queueOn, handedOn_receive, if_pos ⟨hsrc, hdst⟩, hhanded, hparked, hpark,
    flightOn_receive_of_none he (fun _ => Message.numbered_of_payload) (hnumbered _), hflight]
  cases hsel : selectFor keep X (id, load) with
  | none =>
    rw [hsel] at hcarries
    simp [flightOn_receive_of_none he (fun _ => Message.named_of_payload) hcarries]
  | some load' =>
    have hX := selectFor_eq_some hsel
    rw [hsel] at hcarries
    rw [flightOn_receive_of_first he (fun _ => Message.named_of_payload) hcarries]
    · simp
    · intro e' he'
      apply carries_eq_none
      intro hsrc' hdst'
      rw [← hX.1]
      exact hturn hX.2 e' he' (hsrc'.trans hsrc.symm) (hdst'.trans hdst.symm)

/-- Handing over the payload of a `channelPacket` in turn keeps the queue. -/
theorem Streams.queueOn_receive_numbered (hst : s.Streams) (h : s.Agreement) {index : ℕ}
    {e : Envelope ι P} (he : s.network[index]? = some e)
    {order : Envelope ι P → Envelope ι P → Bool}
    (horder : KeepsNumbers keep order)
    (hfree : ∀ e' ∈ s.network.take index, order e' e = false) (l : Link ι)
    (hsrc : e.src = l.src) (hdst : e.dst = l.dst) {num : ℕ} {id : Str} {load : Load P}
    (hb : s.Bound id num) (hm : e.out.message = .channelPacket num load) {X : Str}
    (hhanded : ((s.protocol e.dst).receive e.out.message).handed.filterMap
      (fun h => selectFor keep X (h.id, h.packet)) = (selectFor keep X (id, load)).toList)
    (hhost : (s.receive index e).hostNum X = s.hostNum X)
    (hparked : ∀ n, (s.receive index e).parkedOn keep n l = s.parkedOn keep n l)
    (hturn : keep load → (∀ e' ∈ s.network,
      e'.src = e.src → e'.dst = e.dst → e'.out.message.named keep id = none) ∧
      s.parkedOn keep (some num) l = []) :
    (s.receive index e).queueOn keep l X = s.queueOn keep l X := by
  have hnamed : l.carries (Message.named keep X) e = none := by
    simp [Link.carries, hm, Message.named]
  have hiff : s.hostNum X = some num ↔ id = X := by
    constructor
    · intro hX
      exact h.bound_injective hb hX
    · rintro rfl
      exact hb
  have hcarries :
      l.carries (Message.numbered keep (s.hostNum X)) e = selectFor keep X (id, load) := by
    rw [Link.carries, if_pos ⟨hsrc, hdst⟩, hm]
    simp [Message.numbered, selectFor, hiff]
  rw [queueOn, queueOn, handedOn_receive, if_pos ⟨hsrc, hdst⟩, hhanded, hparked, hhost,
    flightOn_receive_of_none he (fun _ => Message.named_of_payload) hnamed]
  cases hsel : selectFor keep X (id, load) with
  | none =>
    rw [hsel] at hcarries
    simp [flightOn_receive_of_none he (fun _ => Message.numbered_of_payload) hcarries]
  | some load' =>
    have hX := selectFor_eq_some hsel
    obtain ⟨hclear, hempty⟩ := hturn hX.2
    have hflight : s.flightOn l (Message.named keep X) = [] := by
      apply flightOn_eq_nil
      intro e' he' hsrc' hdst'
      rw [← hX.1]
      exact hclear e' he' (hsrc'.trans hsrc.symm) (hdst'.trans hdst.symm)
    rw [hsel, hiff.mpr hX.1] at hcarries
    rw [hflight, hiff.mpr hX.1, hempty,
      flightOn_receive_of_first he (fun _ => Message.numbered_of_payload) hcarries
        (hst.numbered_first horder he hfree l hsrc hdst hm hX.2)]
    simp

/-- A message without payload that hands nothing over keeps the queue. -/
theorem Agreement.queueOn_receive_silent (h : s.Agreement) {index : ℕ} {e : Envelope ι P}
    (he : s.network[index]? = some e) (l : Link ι) (hm : e.out.message.payload = none) (X : Str)
    (hhanded : ((s.protocol e.dst).receive e.out.message).handed = [])
    (hparked : ∀ n, (s.receive index e).parkedOn keep n l = s.parkedOn keep n l) :
    (s.receive index e).queueOn keep l X = s.queueOn keep l X := by
  obtain ⟨hflight, hpark⟩ := h.numbered_of_rebinds (h.rebinds_receive index e X) l
  have hnamed : l.carries (Message.named keep X) e = none := by
    simp [Link.carries, Message.named_of_payload hm]
  have hnumbered : ∀ n, l.carries (Message.numbered keep n) e = none := by
    intro n
    simp [Link.carries, Message.numbered_of_payload hm]
  rw [queueOn, queueOn, handedOn_receive, hhanded, List.filterMap_nil, ite_self, List.append_nil,
    hparked, hpark, flightOn_receive_of_none he (fun _ => Message.named_of_payload) hnamed,
    flightOn_receive_of_none he (fun _ => Message.numbered_of_payload) (hnumbered _), hflight]

/-- A delivery to the host in turn keeps the queue of the link. -/
theorem Streams.queueOn_receive_up (hst : s.Streams) (h : s.Agreement) {index : ℕ}
    {e : Envelope ι P} (he : s.network[index]? = some e)
    {order : Envelope ι P → Envelope ι P → Bool}
    (horder : KeepsNumbers keep order) (hfree : ∀ e' ∈ s.network.take index, order e' e = false)
    (hturn : s.InTurn keep (.deliver index)) {c : ι} (hsrc : e.src = .client c)
    (hdst : e.dst = .host) (X : Str) :
    (s.receive index e).queueOn keep (.up c) X = s.queueOn keep (.up c) X := by
  have hmode : (s.protocol e.dst).mode = .host := by rw [hdst, h.host_mode]
  have hturn' := hturn e he (by simp [hmode])
  have hok := h.messages e (List.mem_of_getElem? he)
  cases hm : e.out.message with
  | fullSendPacket =>
    apply h.queueOn_receive_silent he
    · rw [hm]
      rfl
    · rw [hm]
      rfl
    · exact fun _ => rfl
  | idNumPacket num string =>
    apply h.queueOn_receive_silent he
    · rw [hm]
      rfl
    · rw [hm, ChannelProtocol.receive_idNumPacket_host _ hmode]
    · exact fun _ => rfl
  | channelPacket num load =>
    rw [hm] at hok hturn'
    obtain ⟨id, hb, -⟩ := hok
    have hnum : (s.protocol e.dst).getNumId num = id := by
      rw [hdst]
      exact h.getNumId_eq hb
    apply hst.queueOn_receive_numbered h he horder hfree (.up c) hsrc hdst hb hm
    · rw [hm, ChannelProtocol.receive_channelPacket_host _ hmode, hnum]
      rfl
    · rw [hostNum, ← hdst, receive_protocol_self, hm,
        ChannelProtocol.receive_channelPacket_host _ hmode, hdst]
      rfl
    · exact fun _ => rfl
    · intro hsafe
      refine ⟨(hturn' hsafe id ?_).1, rfl⟩
      rw [hdst]
      exact (h.host_table.inverse id num).mp hb
  | idChannelPacket num id load =>
    rw [hm] at hturn'
    apply h.queueOn_receive_named he (.up c) hsrc hdst hm
    · rw [hm, ChannelProtocol.receive_idChannelPacket_host _ hmode]
      rfl
    · exact fun _ => rfl
    · exact hturn'

omit [DecidableEq ι] in
/-- What a client in the session has parked. -/
theorem parkedOn_down {c : ι} (hmode : (s.protocol (.client c)).mode = .client) (num : Option ℕ) :
    s.parkedOn keep num (.down c) =
      match num with
      | none => []
      | some num => (queueAt (s.protocol (.client c)).todo num).filter keep := by
  simp only [parkedOn, hmode]
  cases num <;> rfl

/-- What a client has parked after a delivery to it. -/
theorem parkedOn_receive_down {index : ℕ} {e : Envelope ι P} {c : ι} (hdst : e.dst = .client c)
    (hmode : (s.protocol e.dst).mode = .client) (num : Option ℕ) :
    (s.receive index e).parkedOn keep num (.down c) =
      match num with
      | none => []
      | some num => (queueAt ((s.protocol e.dst).receive e.out.message).state.todo num).filter
          keep := by
  have hself : (s.receive index e).protocol (.client c) =
      ((s.protocol e.dst).receive e.out.message).state := by
    rw [← hdst, receive_protocol_self]
  have hmode' : ((s.receive index e).protocol (.client c)).mode = .client := by
    rw [hself, ChannelProtocol.receive_mode, hmode]
  rw [parkedOn_down hmode', hself]

/-- Parking a `channelPacket` moves its payload to the end of what is parked. -/
theorem Streams.queueOn_receive_parked (hst : s.Streams) {index : ℕ}
    {e : Envelope ι P} (he : s.network[index]? = some e)
    {order : Envelope ι P → Envelope ι P → Bool}
    (horder : KeepsNumbers keep order)
    (hfree : ∀ e' ∈ s.network.take index, order e' e = false) {c : ι}
    (hsrc : e.src = .host) (hdst : e.dst = .client c)
    (hmode : (s.protocol e.dst).mode = .client) {num : ℕ} {load : Load P}
    (hm : e.out.message = .channelPacket num load)
    (hnum : (s.protocol e.dst).numToId[num]? = none) (X : Str) :
    (s.receive index e).queueOn keep (.down c) X = s.queueOn keep (.down c) X := by
  have hreact := ChannelProtocol.receive_channelPacket_unknown _ hmode hnum load
  have hhost := hostNum_receive_client s index hdst X
  have hnamed : (Link.down c).carries (Message.named keep X) e = none := by
    simp [Link.carries, hm, Message.named]
  have hhanded : ((s.protocol e.dst).receive e.out.message).handed = [] := by rw [hm, hreact]
  have htodo : ((s.protocol e.dst).receive e.out.message).state.todo =
      enqueue (s.protocol e.dst).todo num load := by
    rw [hm, hreact, ChannelProtocol.sendIdNum_todo]
  rw [queueOn, queueOn, handedOn_receive, hhanded, List.filterMap_nil, ite_self, List.append_nil,
    flightOn_receive_of_none he (fun _ => Message.named_of_payload) hnamed, hhost,
    parkedOn_receive_down hdst hmode, parkedOn_down (hdst ▸ hmode), htodo]
  by_cases hX : s.hostNum X = some num ∧ keep load
  · have hcarries : (Link.down c).carries (Message.numbered keep (s.hostNum X)) e = some load := by
      rw [Link.carries, if_pos ⟨hsrc, hdst⟩, hm, Message.numbered, if_pos hX]
    rw [hX.1] at hcarries ⊢
    have hfirst := hst.numbered_first horder he hfree (.down c) hsrc hdst hm hX.2
    rw [flightOn_receive_of_first he (fun _ => Message.numbered_of_payload) hcarries hfirst]
    simp [queueAt_enqueue, hX.2, hdst]
  · have hcarries : (Link.down c).carries (Message.numbered keep (s.hostNum X)) e = none := by
      rw [Link.carries, if_pos ⟨hsrc, hdst⟩, hm, Message.numbered, if_neg hX]
    rw [flightOn_receive_of_none he (fun _ => Message.numbered_of_payload) hcarries]
    cases hn : s.hostNum X with
    | none => rfl
    | some n =>
      by_cases hnn : num = n
      · subst hnn
        have hdrop : keep load = false := by simpa [hn] using hX
        simp [queueAt_enqueue, hdrop, hdst]
      · simp [queueAt_enqueue, hnn, hdst]

/-- Flushing in turn moves what is parked to what is handed over. -/
theorem Agreement.queueOn_receive_flush (h : s.Agreement) {index : ℕ} {e : Envelope ι P}
    (he : s.network[index]? = some e) {c : ι} (hsrc : e.src = .host) (hdst : e.dst = .client c)
    (hmode : (s.protocol e.dst).mode = .client) {num : ℕ} {id : Str} (hb : s.Bound id num)
    (hm : e.out.message = .idNumPacket num id)
    (hturn : (queueAt (s.protocol e.dst).todo num).filter keep ≠ [] →
      ∀ e' ∈ s.network, e'.src = e.src → e'.dst = e.dst → e'.out.message.named keep id = none)
    (X : Str) :
    (s.receive index e).queueOn keep (.down c) X = s.queueOn keep (.down c) X := by
  have hreact := ChannelProtocol.receive_idNumPacket_client _ hmode num id
  have hhost := hostNum_receive_client s index hdst X
  have hpayload : e.out.message.payload = none := by
    rw [hm]
    rfl
  have hnamed : (Link.down c).carries (Message.named keep X) e = none := by
    simp [Link.carries, Message.named_of_payload hpayload]
  have hnumbered : (Link.down c).carries (Message.numbered keep (s.hostNum X)) e = none := by
    simp [Link.carries, Message.numbered_of_payload hpayload]
  have htodo : ((s.protocol e.dst).receive e.out.message).state.todo =
      (s.protocol e.dst).todo.erase num := by rw [hm, hreact]
  have hhanded : ((s.protocol e.dst).receive e.out.message).handed.filterMap
      (fun h => selectFor keep X (h.id, h.packet)) =
        if id = X then (queueAt (s.protocol e.dst).todo num).filter keep else [] := by
    rw [hm, hreact, List.filterMap_map]
    by_cases hX : id = X
    · simp [selectFor, ChannelProtocol.receiveChannelPacket, hX, ← List.filterMap_eq_filter,
        Option.guard]
    · simp [selectFor, ChannelProtocol.receiveChannelPacket, hX]
  rw [queueOn, queueOn, handedOn_receive, if_pos ⟨hsrc, hdst⟩, hhanded, hhost,
    flightOn_receive_of_none he (fun _ => Message.named_of_payload) hnamed,
    flightOn_receive_of_none he (fun _ => Message.numbered_of_payload) hnumbered,
    parkedOn_receive_down hdst hmode, parkedOn_down (hdst ▸ hmode), htodo]
  by_cases hX : id = X
  · subst hX
    have hnum : s.hostNum id = some num := hb
    rw [hnum, if_pos rfl]
    by_cases hempty : (queueAt (s.protocol e.dst).todo num).filter keep = []
    · have hempty' := hempty
      rw [hdst] at hempty'
      simp [queueAt_erase, hempty, hempty']
    · have hflight : s.flightOn (.down c) (Message.named keep id) = [] := by
        apply flightOn_eq_nil
        intro e' he' hsrc' hdst'
        exact hturn hempty e' he' (hsrc'.trans hsrc.symm) (hdst'.trans hdst.symm)
      simp [queueAt_erase, hflight, hdst]
  · rw [if_neg hX, List.append_nil]
    cases hn : s.hostNum X with
    | none => rfl
    | some n =>
      have hne : ¬ num = n := by
        rintro rfl
        exact hX (h.bound_injective hb hn)
      simp [queueAt_erase, hne, hdst]

/-- A delivery in turn to a client in the session keeps the queue of the link. -/
theorem Streams.queueOn_receive_down (hst : s.Streams) (h : s.Agreement) {index : ℕ}
    {e : Envelope ι P} (he : s.network[index]? = some e)
    {order : Envelope ι P → Envelope ι P → Bool}
    (horder : KeepsNumbers keep order) (hfree : ∀ e' ∈ s.network.take index, order e' e = false)
    (hturn : s.InTurn keep (.deliver index)) {c : ι} (hsrc : e.src = .host)
    (hdst : e.dst = .client c) (hmode : (s.protocol e.dst).mode = .client) (X : Str) :
    (s.receive index e).queueOn keep (.down c) X = s.queueOn keep (.down c) X := by
  have hturn' := hturn e he (by simp [hmode])
  have hok := h.messages e (List.mem_of_getElem? he)
  have hmodec : (s.protocol (.client c)).mode = .client := hdst ▸ hmode
  have htable := (h.client c hmodec).table
  rw [← hdst] at htable
  -- what is parked is unchanged when the parked packets are
  have hkept : ((s.protocol e.dst).receive e.out.message).state.todo = (s.protocol e.dst).todo →
      ∀ n, (s.receive index e).parkedOn keep n (.down c) = s.parkedOn keep n (.down c) := by
    intro htodo n
    rw [parkedOn_receive_down hdst hmode, parkedOn_down hmodec, htodo, hdst]
  cases hm : e.out.message with
  | fullSendPacket =>
    apply h.queueOn_receive_silent he
    · rw [hm]
      rfl
    · rw [hm]
      rfl
    · apply hkept
      rw [hm]
      rfl
  | idNumPacket num id =>
    rw [hm] at hok hturn'
    exact h.queueOn_receive_flush he hsrc hdst hmode (hok.1 hsrc) hm (hturn' hmode) X
  | idChannelPacket num id load =>
    rw [hm] at hturn'
    apply h.queueOn_receive_named he (.down c) hsrc hdst hm
    · rw [hm, ChannelProtocol.receive_idChannelPacket_client _ hmode]
      rfl
    · apply hkept
      rw [hm, ChannelProtocol.receive_idChannelPacket_client _ hmode, ChannelProtocol.setIdNum_todo]
    · exact hturn'
  | channelPacket num load =>
    rw [hm] at hok hturn'
    obtain ⟨id, hb, -⟩ := hok
    cases hnum : (s.protocol e.dst).numToId[num]? with
    | none => exact hst.queueOn_receive_parked he horder hfree hsrc hdst hmode hm hnum X
    | some id' =>
      have hid : id' = id :=
        h.bound_injective (htable.sub id' num ((htable.inverse id' num).mpr hnum)) hb
      subst hid
      have hreact := ChannelProtocol.receive_channelPacket_known _ hmode hnum
        (h.host_table.named id' num hb) load
      apply hst.queueOn_receive_numbered h he horder hfree (.down c) hsrc hdst hb hm
      · rw [hm, hreact]
        rfl
      · exact hostNum_receive_client s index hdst X
      · apply hkept
        rw [hm, hreact]
      · intro hsafe
        obtain ⟨hclear, hempty⟩ := hturn' hsafe id' hnum
        rw [parkedOn_down hmodec, ← hdst]
        exact ⟨hclear, hempty⟩

/-- An idle client loses what is delivered to it. -/
theorem queueOn_receive_idle {index : ℕ} {e : Envelope ι P} {c : ι}
    (hdst : e.dst = .client c) (hmode : (s.protocol e.dst).mode = .idle) (X : Str) :
    ((s.receive index e).queueOn keep (.down c) X).Sublist (s.queueOn keep (.down c) X) := by
  have hhanded : ((s.protocol e.dst).receive e.out.message).handed = [] := by
    by_cases hm : e.out.message = .fullSendPacket
    · rw [hm]
      rfl
    · rw [ChannelProtocol.receive_idle _ hmode hm]
  have hhost := hostNum_receive_client s index hdst X
  have hparked : (s.receive index e).parkedOn keep (s.hostNum X) (.down c) =
      s.parkedOn keep (s.hostNum X) (.down c) := by
    have hafter : ((s.receive index e).protocol (.client c)).mode = .idle := by
      rw [← hdst, receive_protocol_self, ChannelProtocol.receive_mode, hmode]
    have hbefore : (s.protocol (.client c)).mode = .idle := hdst ▸ hmode
    simp [parkedOn, hafter, hbefore]
  rw [queueOn, queueOn, handedOn_receive, hhanded, List.filterMap_nil, ite_self, List.append_nil,
    hhost, hparked]
  have hnamed := flightOn_receive_sublist s index e (.down c) (Message.named keep X)
    fun _ => Message.named_of_payload
  have hnumbered := flightOn_receive_sublist s index e (.down c)
    (Message.numbered keep (s.hostNum X)) fun _ => Message.numbered_of_payload
  exact (((List.Sublist.refl _).append hnamed).append (List.Sublist.refl _)).append hnumbered

omit [DecidableEq ι] in
/-- To keep the transport's side it is enough to account for the packets a step adds. -/
theorem Streams.advance {t : Session ι P} (hst : s.Streams) (hnodup : t.connected.Nodup)
    (hkeep : ∀ c, (s.protocol (.client c)).mode = .client →
      (t.protocol (.client c)).mode = .client ∧ ∀ (id : Str) (num : ℕ),
        (s.protocol (.client c)).idToNum[id]? = some num →
          (t.protocol (.client c)).idToNum[id]? = some num)
    (hnet : ∀ e ∈ t.network, e ∈ s.network ∨ ∀ num load, e.out.message = .channelPacket num load →
      e.out.channel = num ∧ e.out.safe = load.safe ∧ ∀ c, e.src = .client c →
        (t.protocol (.client c)).mode = .client ∧
          ∃ id : Str, (t.protocol (.client c)).idToNum[id]? = some num) : t.Streams where
  nodup := hnodup
  channel e he num load hm := by
    rcases hnet e he with hold | hnew
    · exact hst.channel e hold num load hm
    · exact ⟨(hnew num load hm).1, (hnew num load hm).2.1⟩
  known e he c num load hsrc hm := by
    rcases hnet e he with hold | hnew
    · obtain ⟨hmode, id, hid⟩ := hst.known e hold c num load hsrc hm
      exact ⟨(hkeep c hmode).1, id, (hkeep c hmode).2 id num hid⟩
    · exact (hnew num load hm).2.2 c hsrc

/-- A change of one party's tables keeps what a client knows if it keeps that party's numbers. -/
theorem withProtocol_keeps (s : Session ι P) (p : Party ι) {d : ChannelProtocol (Load P)}
    (hmode : d.mode = (s.protocol p).mode)
    (hid : ∀ c, p = .client c → d.idToNum = (s.protocol p).idToNum) (c : ι)
    (hc : (s.protocol (.client c)).mode = .client) :
    ((s.withProtocol p d).protocol (.client c)).mode = .client ∧ ∀ (id : Str) (num : ℕ),
      (s.protocol (.client c)).idToNum[id]? = some num →
        ((s.withProtocol p d).protocol (.client c)).idToNum[id]? = some num := by
  by_cases hp : Party.client c = p
  · subst hp
    rw [withProtocol_self, hmode, hid c rfl]
    exact ⟨hc, fun _ _ hid => hid⟩
  · rw [withProtocol_of_ne _ hp]
    exact ⟨hc, fun _ _ hid => hid⟩

/-- A `send` uses the ordering channel of the number, and a number the sender knows. -/
theorem Streams.submit (hst : s.Streams) (h : s.Agreement) (p : Party ι) (id : Str)
    (offer : Offer P) : (s.submit p id offer).Streams := by
  rcases s.submit_cases p id offer with hsame | ⟨d, out, hsend, hsubmit⟩
  · rw [hsame]
    exact hst
  · rw [hsubmit]
    have hmode := (s.protocol p).mode_ne_idle_of_sends hsend
    have hcases := (s.protocol p).sendChannelPacket_cases hsend
    obtain ⟨hdmode, -, -⟩ := ChannelProtocol.sendChannelPacket_some hsend
    -- a client's own tables are not changed by its sends
    have hd : ∀ c, p = .client c → d.idToNum = (s.protocol p).idToNum := by
      rintro c rfl
      rcases hcases with ⟨num, -, rfl, -⟩ | ⟨-, -, -, hnum, -⟩
      · rfl
      · cases hm : (s.protocol (.client c)).mode with
        | host => exact absurd hm (h.client_mode c)
        | idle => exact absurd hm hmode
        | client => simpa [hm] using hnum
    refine hst.advance ?_ ?_ ?_
    · exact hst.nodup
    · intro c hc
      rw [commit_protocol]
      exact s.withProtocol_keeps p hdmode hd c hc
    · intro e he
      rw [commit_network, List.mem_append] at he
      refine he.imp (·) fun hcopy num load hm => ?_
      obtain ⟨hsrc, hout, -⟩ := s.mem_copies.mp hcopy
      rw [hout] at hm ⊢
      rcases hcases with ⟨num', hnum, rfl, rfl⟩ | ⟨-, -, -, -, num', hm'⟩
      · cases hm
        refine ⟨rfl, rfl, fun c hc => ?_⟩
        have hp : p = .client c := hsrc ▸ hc
        subst hp
        rw [commit_protocol, withProtocol_self]
        refine ⟨?_, id, hnum⟩
        cases hmc : (s.protocol (.client c)).mode with
        | host => exact absurd hmc (h.client_mode c)
        | idle => exact absurd hmc hmode
        | client => rfl
      · rw [hm'] at hm
        cases hm

/-- A delivery adds no numbered packets. -/
theorem Streams.receive (hst : s.Streams) (index : ℕ) (e : Envelope ι P) :
    (s.receive index e).Streams := by
  refine hst.advance ?_ ?_ ?_
  · exact hst.nodup
  · intro c hc
    by_cases hdst : Party.client c = e.dst
    · rw [hdst] at hc ⊢
      rw [receive_protocol_self, ChannelProtocol.receive_mode]
      exact ⟨hc, fun _ _ hid => ChannelProtocol.receive_keeps _ _ hid⟩
    · rw [receive_protocol_of_ne _ hdst]
      exact ⟨hc, fun _ _ hid => hid⟩
  · intro e' he'
    refine (s.mem_receive_network he').imp (·) ?_
    rintro ⟨out, hout, hcopy⟩ num load hm
    obtain ⟨-, heq, -⟩ := s.mem_copies.mp hcopy
    have hnone := (s.protocol e.dst).payload_receive_sent e.out.message out hout
    rw [← heq, hm] at hnone
    cases hnone

/-- Registering channels keeps the transport's side. -/
theorem Streams.withProtocol (hst : s.Streams) (p : Party ι) {d : ChannelProtocol (Load P)}
    (hmode : d.mode = (s.protocol p).mode) (hid : d.idToNum = (s.protocol p).idToNum) :
    (s.withProtocol p d).Streams := by
  refine hst.advance ?_ ?_ ?_
  · exact hst.nodup
  · exact s.withProtocol_keeps p hmode fun _ _ => hid
  · exact fun e he => .inl he

/-- Every step keeps the transport's side. -/
theorem Streams.step {order : Envelope ι P → Envelope ι P → Bool} {t : Session ι P}
    {a : Action ι P} (hst : s.Streams) (h : s.Agreement) (hstep : s.step order a = some t) :
    t.Streams := by
  rcases s.step_cases hstep with ⟨p, id, offer, -, rfl⟩ | ⟨p, call, rest, offer, -, howed, rfl⟩ |
    ⟨index, e, -, -, -, rfl⟩ | ⟨c, -, hc, rfl⟩ | ⟨c, -, -, hidle, rfl⟩ | ⟨p, channel, id, -, rfl⟩ |
    ⟨p, channel, id, -, rfl⟩
  · exact hst.submit h p id.string offer
  · have hst₁ : (s.withOwed p rest).Streams := ⟨hst.nodup, hst.channel, hst.known⟩
    cases offer with
    | none => exact hst₁
    | some offer => exact hst₁.submit (h.withOwed howed) p call.1 offer
  · exact hst.receive index e
  · refine ⟨?_, hst.channel, hst.known⟩
    exact List.Nodup.append hst.nodup (List.nodup_singleton c) (List.disjoint_singleton.mpr hc)
  · refine hst.advance ?_ ?_ ?_
    · exact hst.nodup
    · intro c' hc'
      have hne : Party.client c' ≠ Party.client c := by
        intro heq
        rw [heq, hidle] at hc'
        cases hc'
      rw [start_protocol_of_ne _ hne]
      exact ⟨hc', fun _ _ hid => hid⟩
    · intro e he
      rw [start_network, List.mem_append, List.mem_singleton] at he
      refine he.imp (·) fun heq num load hm => ?_
      rw [heq] at hm
      cases hm
  · exact hst.withProtocol p rfl rfl
  · exact hst.withProtocol p (by simp) (by simp)

/-- The transport's side is in order when a session begins. -/
theorem Streams.begins {members : List ι} (h : Begins members s) : s.Streams where
  nodup := h.connected ▸ h.nodup
  channel e he num load hm := by
    obtain ⟨c, -, -, -, hreq⟩ := h.network e he
    rw [hreq] at hm
    cases hm
  known e he c num load hsrc hm := by
    obtain ⟨c, -, -, -, hreq⟩ := h.network e he
    rw [hreq] at hm
    cases hm

/-- The transport's side is in order in every reachable state. -/
theorem Streams.reachable {order : Envelope ι P → Envelope ι P → Bool} {members : List ι}
    (h : (sessionMachine P order members).Reachable s) : s.Streams :=
  h.invariant (fun _ => Streams.begins) fun _ _ _ hr hst hstep =>
    hst.step (Agreement.reachable hr) hstep

/-- A step appends what it sends to the queue of a link, unless the link does not lead anywhere
yet. -/
def QueueAppends (keep : Load P → Bool) (s t : Session ι P) (l : Link ι) (X : Str) : Prop :=
  ∃ new, t.sentOn keep l X = s.sentOn keep l X ++ new ∧
    (t.queueOn keep l X = s.queueOn keep l X ++ new ∨
      l.dst ∉ s.route l.src ∧ t.queueOn keep l X = s.queueOn keep l X)

/-- What a step does to the queue of a link: it appends what it sends, or delivers to a client that
is idle. -/
def QueueStep (keep : Load P → Bool) (order : Envelope ι P → Envelope ι P → Bool)
    (s t : Session ι P) (l : Link ι) (X : Str) : Prop :=
  QueueAppends keep s t l X ∨
  ∃ c index e, l = .down c ∧ s.network[index]? = some e ∧ e.src = .host ∧ e.dst = .client c ∧
    (s.protocol e.dst).mode = .idle ∧ (∀ e' ∈ s.network.take index, order e' e = false) ∧
    t = s.receive index e

/-- A step that sends nothing and loses nothing. -/
theorem QueueAppends.of_eq {t : Session ι P} {l : Link ι} {X : Str}
    (hsent : t.sentOn keep l X = s.sentOn keep l X)
    (hqueue : t.queueOn keep l X = s.queueOn keep l X) : QueueAppends keep s t l X :=
  ⟨[], by simp [hsent], .inl (by simp [hqueue])⟩

/-- A `send` of any party. -/
theorem Streams.queueAppends_submit (hst : s.Streams) (h : s.Agreement) (p : Party ι) (id : Str)
    (offer : Offer P) (l : Link ι) (X : Str) : QueueAppends keep s (s.submit p id offer) l X := by
  rcases s.submit_cases p id offer with hsame | ⟨d, out, hsend, hsubmit⟩
  · rw [hsame]
    exact .of_eq rfl rfl
  · rw [hsubmit]
    have hmode := (s.protocol p).mode_ne_idle_of_sends hsend
    refine ⟨_, sentOn_commit p d out _ l X, ?_⟩
    rw [hst.queueOn_commit h hmode hsend]
    by_cases hp : p = l.src
    · by_cases hdst : l.dst ∈ s.route p
      · left
        rw [if_pos ⟨hp, hdst⟩, if_pos hp]
      · right
        rw [if_neg fun hlink => hdst hlink.2, List.append_nil]
        exact ⟨hp ▸ hdst, rfl⟩
    · left
      rw [if_neg fun hlink => hp hlink.1, if_neg hp]

/-- A delivery in turn. -/
theorem Streams.queueStep_receive (hst : s.Streams) (h : s.Agreement) {index : ℕ}
    {e : Envelope ι P} (he : s.network[index]? = some e)
    {order : Envelope ι P → Envelope ι P → Bool} (horder : KeepsNumbers keep order)
    (hfree : ∀ e' ∈ s.network.take index, order e' e = false) (l : Link ι)
    (hturn : e.src = l.src → e.dst = l.dst → (s.protocol l.dst).mode ≠ .idle →
      s.InTurn keep (.deliver index)) (X : Str) :
    QueueStep keep order s (s.receive index e) l X := by
  by_cases hlink : e.src = l.src ∧ e.dst = l.dst
  · have hturn' := hturn hlink.1 hlink.2
    rw [← hlink.2] at hturn'
    cases l with
    | up c =>
      have hmode : (s.protocol e.dst).mode ≠ .idle := by
        rw [hlink.2, Link.dst, h.host_mode]
        simp
      exact .inl (.of_eq rfl
        (hst.queueOn_receive_up h he horder hfree (hturn' hmode) hlink.1 hlink.2 X))
    | down c =>
      cases hmode : (s.protocol e.dst).mode with
      | client =>
        exact .inl (.of_eq rfl (hst.queueOn_receive_down h he horder hfree
          (hturn' (by simp [hmode])) hlink.1 hlink.2 hmode X))
      | host =>
        rw [hlink.2] at hmode
        exact absurd hmode (h.client_mode c)
      | idle => exact .inr ⟨c, index, e, rfl, he, hlink.1, hlink.2, hmode, hfree, rfl⟩
  · exact .inl (.of_eq rfl (h.queueOn_receive_other he hlink X))

/-- Steps that move no payload keep the queues. -/
theorem QueueAppends.of_quiet {t : Session ι P}
    (hhost : ∀ X, t.hostNum X = s.hostNum X) (hsubmitted : t.submitted = s.submitted)
    (hhanded : t.handed = s.handed)
    (hflight : ∀ l f, (∀ m, m.payload = none → f m = none) → t.flightOn l f = s.flightOn l f)
    (hparked : ∀ num l, t.parkedOn keep num l = s.parkedOn keep num l) (l : Link ι) (X : Str) :
    QueueAppends keep s t l X := by
  apply QueueAppends.of_eq
  · simp [sentOn, hsubmitted]
  · rw [queueOn, queueOn, hhost, hparked, hflight l _ fun _ => Message.named_of_payload,
      hflight l _ fun _ => Message.numbered_of_payload]
    simp [handedOn, hhanded]

/-- Registering channels keeps the queues. -/
theorem QueueAppends.withProtocol (p : Party ι) {d : ChannelProtocol (Load P)}
    (hmode : d.mode = (s.protocol p).mode) (hid : d.idToNum = (s.protocol p).idToNum)
    (htodo : d.todo = (s.protocol p).todo)
    (l : Link ι) (X : Str) : QueueAppends keep s (s.withProtocol p d) l X := by
  refine QueueAppends.of_quiet ?_ ?_ ?_ ?_ ?_ l X
  · exact fun X => by rw [hostNum, s.withProtocol_congr hid, hostNum]
  · rfl
  · rfl
  · exact fun _ _ _ => rfl
  · intro num l
    cases l with
    | up c => rfl
    | down c =>
      simp only [parkedOn, s.withProtocol_congr hmode, s.withProtocol_congr htodo]

/-- A client that starts has parked nothing. -/
theorem QueueAppends.start {c : ι} (hidle : (s.protocol (.client c)).mode = .idle) (l : Link ι)
    (X : Str) : QueueAppends keep s (s.start c) l X := by
  refine QueueAppends.of_quiet ?_ ?_ ?_ ?_ ?_ l X
  · exact fun X => by simp [hostNum]
  · rfl
  · rfl
  · intro l f hf
    rw [flightOn, start_network, List.filterMap_append]
    have hnone := hf .fullSendPacket rfl
    simp [flightOn, Link.carries, hnone]
  · intro num l
    cases l with
    | up c' => rfl
    | down c' =>
      by_cases hc : Party.client c' = .client c
      · rw [Party.client.inj hc]
        cases num <;> simp [parkedOn, ChannelProtocol.start, hidle]
      · simp only [parkedOn, start_protocol_of_ne _ hc]

/-- Every step, in turn where it is a delivery on the link, over a transport that keeps the order of
the numbers. -/
theorem queueStep {t : Session ι P} {a : Action ι P} (hst : s.Streams) (h : s.Agreement)
    {order : Envelope ι P → Envelope ι P → Bool} (horder : KeepsNumbers keep order)
    (hstep : s.step order a = some t) (l : Link ι)
    (hturn : ∀ index e, a = .deliver index → s.network[index]? = some e → e.src = l.src →
      e.dst = l.dst → (s.protocol l.dst).mode ≠ .idle →
      (∀ e' ∈ s.network.take index, order e' e = false) → s.InTurn keep a) (X : Str) :
    QueueStep keep order s t l X := by
  rcases s.step_cases hstep with ⟨p, id, offer, -, rfl⟩ | ⟨p, call, rest, offer, -, howed, rfl⟩ |
    ⟨index, e, ha, he, hfree, rfl⟩ | ⟨c, -, -, rfl⟩ | ⟨c, -, -, hidle, rfl⟩ |
    ⟨p, channel, id, -, rfl⟩ | ⟨p, channel, id, -, rfl⟩
  · exact .inl (hst.queueAppends_submit h p id.string offer l X)
  · have hst₁ : (s.withOwed p rest).Streams := ⟨hst.nodup, hst.channel, hst.known⟩
    cases offer with
    | none => exact .inl (.of_eq rfl rfl)
    | some offer => exact .inl (hst₁.queueAppends_submit (h.withOwed howed) p call.1 offer l X)
  · subst ha
    exact hst.queueStep_receive h he horder hfree l
      (fun hsrc hdst hmode => hturn index e rfl he hsrc hdst hmode hfree) X
  · exact .inl (.of_eq rfl rfl)
  · exact .inl (.start hidle l X)
  · exact .inl (.withProtocol p (by rfl) (by rfl) (by rfl) l X)
  · exact .inl (.withProtocol p (by simp) (by simp) (by simp) l X)

/-- The queues are empty when a session begins. -/
theorem Begins.queueOn_eq_nil {members : List ι} (h : Begins members s) (l : Link ι) (X : Str) :
    s.queueOn keep l X = [] ∧ s.sentOn keep l X = [] := by
  have hflight : ∀ f : Message (Load P) → Option (Load P), (∀ m, m.payload = none → f m = none) →
      s.flightOn l f = [] := by
    intro f hf
    apply flightOn_eq_nil
    intro e he _ _
    obtain ⟨c, -, -, -, hreq⟩ := h.network e he
    rw [hreq]
    exact hf .fullSendPacket rfl
  have hne : (s.protocol .host).mode ≠ .idle := by simp [h.host_mode]
  have hhost : s.hostNum X = none := by simp [hostNum, h.idToNum .host hne]
  rw [queueOn, hhost, hflight _ fun _ => Message.named_of_payload,
    hflight _ fun _ => Message.numbered_of_payload, (numbered_of_unbound keep s l).2]
  simp [handedOn, sentOn, h.handed, h.submitted]

end Session

end Multicrew.Core
