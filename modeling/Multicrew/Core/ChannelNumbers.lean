import Multicrew.Core.Session

/-!
# Agreement on channel numbers

The host alone invents numbers, consecutively from `RESERVED_CHANNELS`; a client only repeats
pairs it was told. So the host's table grows, every message in flight speaks of pairs of that
table, and a client's tables are a part of it. The packets of an id therefore reach the channels
of that id and no others, whatever the order of delivery.
-/

namespace Multicrew.Core

open Std (TreeMap TreeSet)
open Multicrew.Library

section Tables

variable {P : Type*}

/-- The tables of the host: inverse to each other, consecutively numbered, no empty id. -/
structure HostTable (d : ChannelProtocol P) : Prop where
  inverse : Inverse d.idToNum d.numToId
  numbered : Numbered reservedChannels d.idToNum
  named : ∀ (id : Str) (num : ℕ), d.idToNum[id]? = some num → id ≠ []

/-- The tables of a client, relative to the pairs the host has bound. -/
structure ClientTable (bound : Str → ℕ → Prop) (d : ChannelProtocol P) : Prop where
  inverse : Inverse d.idToNum d.numToId
  sub : ∀ (id : Str) (num : ℕ), d.idToNum[id]? = some num → bound id num

/-- Cleared tables are host tables. -/
theorem HostTable.of_empty {d : ChannelProtocol P} (hid : d.idToNum = ∅) (hnum : d.numToId = ∅) :
    HostTable d where
  inverse := by rw [hid, hnum]; exact Inverse.empty
  numbered := by rw [hid]; exact Numbered.empty _
  named := by simp [hid]

/-- Cleared tables agree with any host. -/
theorem ClientTable.of_empty {bound : Str → ℕ → Prop} {d : ChannelProtocol P}
    (hid : d.idToNum = ∅) (hnum : d.numToId = ∅) : ClientTable bound d where
  inverse := by rw [hid, hnum]; exact Inverse.empty
  sub := by simp [hid]

/-- A client table stays one when the host binds more pairs. -/
theorem ClientTable.mono {bound bound' : Str → ℕ → Prop} {d : ChannelProtocol P}
    (h : ClientTable bound d) (hmono : ∀ id num, bound id num → bound' id num) :
    ClientTable bound' d :=
  ⟨h.inverse, fun id num hb => hmono id num (h.sub id num hb)⟩

/-- Only the tables matter. -/
theorem HostTable.congr {d d' : ChannelProtocol P} (h : HostTable d)
    (hid : d'.idToNum = d.idToNum) (hnum : d'.numToId = d.numToId) : HostTable d' where
  inverse := by rw [hid, hnum]; exact h.inverse
  numbered := by rw [hid]; exact h.numbered
  named := by rw [hid]; exact h.named

/-- Only the tables matter. -/
theorem ClientTable.congr {bound : Str → ℕ → Prop} {d d' : ChannelProtocol P}
    (h : ClientTable bound d) (hid : d'.idToNum = d.idToNum) (hnum : d'.numToId = d.numToId) :
    ClientTable bound d' where
  inverse := by rw [hid, hnum]; exact h.inverse
  sub := by rw [hid]; exact h.sub

/-- A number of the host is never 0, the code for an unbound id. -/
theorem HostTable.num_pos {d : ChannelProtocol P} (h : HostTable d) {id : Str} {num : ℕ}
    (hb : d.idToNum[id]? = some num) : reservedChannels ≤ num :=
  ((h.numbered num).mp ⟨id, hb⟩).1

/-- `getIdNum` is 0 exactly on the ids the host has not bound. -/
theorem HostTable.getIdNum_eq_zero {d : ChannelProtocol P} (h : HostTable d) {id : Str} :
    d.getIdNum id = 0 ↔ d.idToNum[id]? = none := by
  cases hid : d.idToNum[id]? with
  | none => simp [ChannelProtocol.getIdNum, hid]
  | some num =>
    have hpos := h.num_pos hid
    have hne : num ≠ 0 := by
      unfold reservedChannels at hpos
      omega
    simp [ChannelProtocol.getIdNum, hid, hne]

/-- `createIdNum` keeps the host's tables and every earlier pair. -/
theorem HostTable.createIdNum {d : ChannelProtocol P} (h : HostTable d) {id : Str} (hid : id ≠ []) :
    HostTable (d.createIdNum id).1 ∧
      ∀ (id' : Str) (num : ℕ), d.idToNum[id']? = some num →
        (d.createIdNum id).1.idToNum[id']? = some num := by
  unfold ChannelProtocol.createIdNum
  split
  · rename_i hnone
    have hfree : d.numToId[d.idToNum.size + reservedChannels]? = none := by
      apply h.inverse.getElem?_eq_none
      intro a
      rw [Nat.add_comm]
      exact h.numbered.next_fresh a
    simp only [ChannelProtocol.setIdNum, hnone]
    refine ⟨⟨h.inverse.insert hnone hfree, ?_, ?_⟩, ?_⟩
    · rw [Nat.add_comm]
      exact h.numbered.insert hnone
    · intro id' num hb
      rw [TreeMap.getElem?_insert] at hb
      split at hb
      · rename_i heq
        exact Std.LawfulEqOrd.eq_of_compare heq ▸ hid
      · exact h.named id' num hb
    · intro id' num hb
      have hne : id ≠ id' := by
        rintro rfl
        rw [hnone] at hb
        cases hb
      rw [TreeMap.getElem?_insert, if_neg (by simpa using hne)]
      exact hb
  · exact ⟨h, fun _ _ hb => hb⟩

/-- A number that `createIdNum` binds was bound to no id before. -/
theorem HostTable.createIdNum_fresh {d : ChannelProtocol P} (h : HostTable d) (id X : Str) :
    (d.createIdNum id).1.idToNum[X]? = d.idToNum[X]? ∨
      d.idToNum[X]? = none ∧ ∃ num, (d.createIdNum id).1.idToNum[X]? = some num ∧
        ∀ id' : Str, d.idToNum[id']? ≠ some num := by
  unfold ChannelProtocol.createIdNum
  split
  · rename_i hnone
    simp only [ChannelProtocol.setIdNum, hnone]
    by_cases hX : id = X
    · subst hX
      refine .inr ⟨hnone, _, TreeMap.getElem?_insert_self, fun id' => ?_⟩
      rw [Nat.add_comm]
      exact h.numbered.next_fresh id'
    · left
      rw [TreeMap.getElem?_insert, if_neg (by simpa using hX)]
  · exact .inl rfl

/-- A client that learns a pair of the host keeps agreeing with it. -/
theorem ClientTable.setIdNum {host d : ChannelProtocol P} (hhost : HostTable host)
    (h : ClientTable (fun id num => host.idToNum[id]? = some num) d) {id : Str} {num : ℕ}
    (hb : host.idToNum[id]? = some num) :
    ClientTable (fun id num => host.idToNum[id]? = some num) (d.setIdNum id num) := by
  unfold ChannelProtocol.setIdNum
  split
  · rename_i hnone
    have hfree : d.numToId[num]? = none := by
      apply h.inverse.getElem?_eq_none
      intro a ha
      have := hhost.inverse.injective (h.sub a num ha) hb
      rw [this, hnone] at ha
      cases ha
    refine ⟨h.inverse.insert hnone hfree, ?_⟩
    intro id' num' hb'
    rw [TreeMap.getElem?_insert] at hb'
    split at hb'
    · rename_i heq
      rw [← Std.LawfulEqOrd.eq_of_compare heq, ← Option.some.inj hb']
      exact hb
    · exact h.sub id' num' hb'
  · exact h

end Tables

namespace Session

variable {ι P : Type*}

/-- The pairs of the host's table. -/
def Bound (s : Session ι P) (id : Str) (num : ℕ) : Prop :=
  (s.protocol .host).idToNum[id]? = some num

/-- The payload occurrence `load` was passed to `send` of a channel with this id. -/
def Submitted (s : Session ι P) (src : Party ι) (id : Str) (load : Load P) : Prop :=
  (s.submitted src)[load.stamp]? = some (id, load)

/-- A message from `src` speaks of bound pairs and carries submitted payloads. -/
def MessageOk (s : Session ι P) (src : Party ι) : Message (Load P) → Prop
  | .fullSendPacket => True
  | .channelPacket num load => ∃ id, s.Bound id num ∧ s.Submitted src id load
  | .idChannelPacket num id load =>
    id ≠ [] ∧ s.Submitted src id load ∧ (src = .host → s.Bound id num)
  | .idNumPacket num id => (src = .host → s.Bound id num) ∧ ∃ id', s.Bound id' num

/-- What a client in the session has learnt and parked agrees with the host. -/
structure ClientOk (s : Session ι P) (d : ChannelProtocol (Load P)) : Prop where
  table : ClientTable s.Bound d
  parked : ∀ num, ∀ load ∈ queueAt d.todo num, ∃ id, s.Bound id num ∧ s.Submitted .host id load

/-- The invariant of a session, over all tables, all messages in flight and all deliveries. -/
structure Agreement (s : Session ι P) : Prop where
  host_mode : (s.protocol .host).mode = .host
  host_table : HostTable (s.protocol .host)
  client_mode : ∀ c, (s.protocol (.client c)).mode ≠ .host
  client : ∀ c, (s.protocol (.client c)).mode = .client → s.ClientOk (s.protocol (.client c))
  routed : ∀ e ∈ s.network, Routed e
  messages : ∀ e ∈ s.network, s.MessageOk e.src e.out.message
  handed : ∀ p, ∀ x ∈ s.handed p, s.Submitted x.1 x.2.id x.2.packet
  channels : ∀ p id, id ∈ (s.protocol p).channels → id ≠ []
  owed : ∀ p, ∀ call ∈ s.owed p, call.1 ≠ []

/-- Nothing bound or submitted is ever forgotten. -/
structure Grows (s t : Session ι P) : Prop where
  bound : ∀ id num, s.Bound id num → t.Bound id num
  submitted : ∀ src id load, s.Submitted src id load → t.Submitted src id load

/-- Messages stay in order while the tables and the histories grow. -/
theorem MessageOk.mono {s t : Session ι P} (hg : s.Grows t) {src : Party ι} :
    ∀ {m : Message (Load P)}, s.MessageOk src m → t.MessageOk src m
  | .fullSendPacket, _ => trivial
  | .channelPacket _ _, ⟨id, hb, hs⟩ => ⟨id, hg.bound _ _ hb, hg.submitted _ _ _ hs⟩
  | .idChannelPacket _ _ _, ⟨hid, hs, hb⟩ =>
    ⟨hid, hg.submitted _ _ _ hs, fun h => hg.bound _ _ (hb h)⟩
  | .idNumPacket _ _, ⟨hb, id, hid⟩ => ⟨fun h => hg.bound _ _ (hb h), id, hg.bound _ _ hid⟩

/-- What a client knows stays in agreement while the tables and the histories grow. -/
theorem ClientOk.mono {s t : Session ι P} (hg : s.Grows t) {d : ChannelProtocol (Load P)}
    (h : s.ClientOk d) : t.ClientOk d where
  table := h.table.mono hg.bound
  parked num load hload := by
    obtain ⟨id, hb, hs⟩ := h.parked num load hload
    exact ⟨id, hg.bound _ _ hb, hg.submitted _ _ _ hs⟩

/-- Only the tables and the parked packets matter. -/
theorem ClientOk.congr {s : Session ι P} {d d' : ChannelProtocol (Load P)} (h : s.ClientOk d)
    (hid : d'.idToNum = d.idToNum) (hnum : d'.numToId = d.numToId) (htodo : d'.todo = d.todo) :
    s.ClientOk d' where
  table := h.table.congr hid hnum
  parked := by rw [htodo]; exact h.parked

/-- To keep the invariant it is enough to account for what a step adds. -/
theorem Agreement.advance {s t : Session ι P} (h : s.Agreement) (hg : s.Grows t)
    (hmode : (t.protocol .host).mode = .host) (htable : HostTable (t.protocol .host))
    (hclient : ∀ c, t.protocol (.client c) = s.protocol (.client c) ∨
      (t.protocol (.client c)).mode ≠ .host ∧
        ((t.protocol (.client c)).mode = .client → t.ClientOk (t.protocol (.client c))))
    (hnet : ∀ e ∈ t.network, e ∈ s.network ∨ Routed e ∧ t.MessageOk e.src e.out.message)
    (hhanded : ∀ p, ∀ x ∈ t.handed p, x ∈ s.handed p ∨ t.Submitted x.1 x.2.id x.2.packet)
    (hchannels : ∀ p id, id ∈ (t.protocol p).channels → id ∈ (s.protocol p).channels ∨ id ≠ [])
    (howed : ∀ p, ∀ call ∈ t.owed p, call ∈ s.owed p ∨ call.1 ≠ []) : t.Agreement where
  host_mode := hmode
  host_table := htable
  client_mode c := (hclient c).elim (fun heq => heq ▸ h.client_mode c) And.left
  client c := (hclient c).elim (fun heq => heq ▸ fun hm => (h.client c hm).mono hg) And.right
  routed e he := (hnet e he).elim (h.routed e) And.left
  messages e he := (hnet e he).elim (fun hs => (h.messages e hs).mono hg) And.right
  handed p x hx := (hhanded p x hx).elim (fun hs => hg.submitted _ _ _ (h.handed p x hs)) id
  channels p id hid := (hchannels p id hid).elim (h.channels p id) (·)
  owed p call hc := (howed p call hc).elim (h.owed p call) id

/-- Appending to the histories and binding more pairs is growth. -/
theorem Grows.of_prefix {s t : Session ι P} (hbound : ∀ id num, s.Bound id num → t.Bound id num)
    (hsub : ∀ src, s.submitted src <+: t.submitted src) : s.Grows t where
  bound := hbound
  submitted src id load h := by
    obtain ⟨rest, hrest⟩ := hsub src
    have hlt := (List.getElem?_eq_some_iff.mp h).1
    unfold Submitted
    rw [← hrest, List.getElem?_append_left hlt]
    exact h

/-- The packet just appended to the history of its sender has been submitted. -/
theorem submitted_append {t : Session ι P} {src : Party ι} {l : List (Str × Load P)} {id : Str}
    {packet : P} {safe : Bool}
    (h : t.submitted src = l ++ [(id, ⟨packet, safe, l.length⟩)]) :
    t.Submitted src id ⟨packet, safe, l.length⟩ := by
  simp [Submitted, h]

/-- The host can name every number a message speaks of. -/
theorem Agreement.getNumId_eq {s : Session ι P} (h : s.Agreement) {id : Str} {num : ℕ}
    (hb : s.Bound id num) : (s.protocol .host).getNumId num = id :=
  (s.protocol .host).getNumId_of_bound ((h.host_table.inverse id num).mp hb)

/-- No two ids of the host share a number. -/
theorem Agreement.bound_injective {s : Session ι P} (h : s.Agreement) {id id' : Str} {num : ℕ}
    (hb : s.Bound id num) (hb' : s.Bound id' num) : id = id' :=
  h.host_table.inverse.injective hb hb'

/-- A number that a party has for an id is the host's. -/
theorem Agreement.bound_of_known {s : Session ι P} (h : s.Agreement) {p : Party ι}
    (hmode : (s.protocol p).mode ≠ .idle) {id : Str} {num : ℕ}
    (hb : (s.protocol p).idToNum[id]? = some num) : s.Bound id num := by
  cases p with
  | host => exact hb
  | client c =>
    cases hm : (s.protocol (.client c)).mode with
    | idle => exact absurd hm hmode
    | host => exact absurd hm (h.client_mode c)
    | client => exact (h.client c hm).table.sub id num hb

variable [DecidableEq ι]

/-- A committed `send` keeps the invariant if the sender's tables do and its message is in order. -/
theorem Agreement.commit {s : Session ι P} (h : s.Agreement) (p : Party ι)
    {d : ChannelProtocol (Load P)} {out : Outgoing (Load P)} {call : Str × Load P}
    (hmode : d.mode = (s.protocol p).mode) (hchannels : d.channels = (s.protocol p).channels)
    (hhost : p = .host → HostTable d ∧ ∀ id num, s.Bound id num → d.idToNum[id]? = some num)
    (hclient : p ≠ .host → d.idToNum = (s.protocol p).idToNum ∧
      d.numToId = (s.protocol p).numToId ∧ d.todo = (s.protocol p).todo)
    (hmsg : (s.commit p d out call).MessageOk p out.message) :
    (s.commit p d out call).Agreement := by
  have hg : s.Grows (s.commit p d out call) := by
    refine Grows.of_prefix (fun id num hb => ?_) fun src =>
      s.submitted_prefix_commit p src d out call
    by_cases hp : p = .host
    · subst hp
      simpa [Bound] using (hhost rfl).2 id num hb
    · simpa [Bound, Ne.symm hp] using hb
  refine h.advance hg ((s.withProtocol_congr hmode _).trans h.host_mode) ?_ (fun c => ?_)
    (fun e he => ?_) (fun _ _ hx => .inl hx) (fun q id hid => .inl ?_) (fun _ _ hc => .inl hc)
  · by_cases hp : p = .host
    · subst hp
      simpa using (hhost rfl).1
    · simpa [Ne.symm hp] using h.host_table
  · by_cases hp : Party.client c = p
    · subst hp
      obtain ⟨hid, hnum, htodo⟩ := hclient (by simp)
      right
      simp only [commit_protocol, withProtocol_self, hmode]
      exact ⟨h.client_mode c, fun hm => ((h.client c hm).congr hid hnum htodo).mono hg⟩
    · left
      simp [hp]
  · rw [commit_network, List.mem_append] at he
    refine he.imp (·) fun hcopy => ⟨s.routed_of_mem_copies hcopy, ?_⟩
    obtain ⟨hsrc, hout, -⟩ := s.mem_copies.mp hcopy
    rw [hsrc, hout]
    exact hmsg
  · rw [commit_protocol, s.withProtocol_congr hchannels] at hid
    exact hid

/-- `NetworkChannel::send` keeps the invariant. -/
theorem Agreement.submit {s : Session ι P} (h : s.Agreement) (p : Party ι) {id : Str}
    (hid : id ≠ []) (offer : Offer P) : (s.submit p id offer).Agreement := by
  cases p with
  | host =>
    rcases (s.protocol .host).sendChannelPacket_host h.host_mode _ offer.safe offer.prio id with
      ⟨num, hb, -, hsend⟩ | ⟨-, hsend⟩
    · rw [s.submit_of_some hsend]
      refine h.commit .host rfl rfl (fun _ => ⟨h.host_table, fun _ _ hb => hb⟩)
        (fun hne => absurd rfl hne) ?_
      exact ⟨id, by simpa [Bound] using hb, submitted_append (by simp)⟩
    · rw [s.submit_of_some hsend]
      obtain ⟨htable, hgrow⟩ := h.host_table.createIdNum hid
      refine h.commit .host (by simp) (by simp)
        (fun _ => ⟨htable.congr (by simp) (by simp), fun id num hb => ?_⟩)
        (fun hne => absurd rfl hne) ?_
      · simpa using hgrow id num hb
      · refine ⟨hid, submitted_append (by simp), fun _ => ?_⟩
        simpa [Bound] using (s.protocol .host).createIdNum_bound id
  | client c =>
    cases hmode : (s.protocol (.client c)).mode with
    | idle =>
      rw [s.submit_of_none ((s.protocol (.client c)).sendChannelPacket_idle hmode ..)]
      exact h
    | host => exact absurd hmode (h.client_mode c)
    | client =>
      rcases (s.protocol (.client c)).sendChannelPacket_client hmode _ offer.safe offer.prio id with
        ⟨num, hb, -, hsend⟩ | ⟨-, hsend⟩
      · rw [s.submit_of_some hsend]
        refine h.commit _ rfl rfl (by simp) (fun _ => ⟨rfl, rfl, rfl⟩) ?_
        have hbound := (h.client c hmode).table.sub id num hb
        exact ⟨id, by simpa [Bound] using hbound, submitted_append (by simp)⟩
      · rw [s.submit_of_some hsend]
        refine h.commit _ (by simp) (by simp) (by simp) (fun _ => ⟨rfl, rfl, rfl⟩) ?_
        exact ⟨hid, submitted_append (by simp), by simp⟩

/-- A delivery keeps what was bound, if the host's reaction does. -/
theorem grows_receive {s : Session ι P} (index : ℕ) {e : Envelope ι P} {r : Reaction (Load P)}
    (hr : (s.protocol e.dst).receive e.out.message = r)
    (hhost : e.dst = .host → ∀ id num, s.Bound id num → r.state.idToNum[id]? = some num) :
    s.Grows (s.receive index e) := by
  have hself : (s.receive index e).protocol e.dst = r.state := by rw [s.receive_protocol_self, hr]
  refine Grows.of_prefix (fun id num hb => ?_) fun src => by simp
  by_cases hp : e.dst = .host
  · have hbound := hhost hp id num hb
    rw [← hself, hp] at hbound
    exact hbound
  · simpa [Bound, Ne.symm hp] using hb

/-- A delivery keeps the invariant if the receiver's reaction is in order. -/
theorem Agreement.receive_of {s : Session ι P} (h : s.Agreement) (index : ℕ) {e : Envelope ι P}
    {m : Message (Load P)} (hm : e.out.message = m) {r : Reaction (Load P)}
    (hr : (s.protocol e.dst).receive m = r)
    (hhost : e.dst = .host →
      HostTable r.state ∧ ∀ id num, s.Bound id num → r.state.idToNum[id]? = some num)
    (hclient : e.dst ≠ .host → r.state.mode = .client → s.ClientOk r.state)
    (hsent : ∀ t : Session ι P, s.Grows t → (e.dst = .host → t.protocol .host = r.state) →
      ∀ out ∈ r.sent, t.MessageOk e.dst out.message)
    (hhanded : ∀ x ∈ r.handed, s.Submitted e.src x.id x.packet) :
    (s.receive index e).Agreement := by
  subst hm
  have hmode : r.state.mode = (s.protocol e.dst).mode := hr ▸ ChannelProtocol.receive_mode ..
  have hchannels : r.state.channels = (s.protocol e.dst).channels :=
    hr ▸ ChannelProtocol.receive_channels ..
  have hself : (s.receive index e).protocol e.dst = r.state := by rw [s.receive_protocol_self, hr]
  have hg : s.Grows (s.receive index e) := grows_receive index hr fun hp => (hhost hp).2
  refine h.advance hg ?_ ?_ (fun c => ?_) (fun e' he => ?_) (fun q x hx => ?_)
    (fun q id hid => .inl ?_) (fun q call hc => ?_)
  · by_cases hp : e.dst = .host
    · rw [← hp, hself, hmode, hp]
      exact h.host_mode
    · simpa [Ne.symm hp] using h.host_mode
  · by_cases hp : e.dst = .host
    · rw [← hp, hself]
      exact (hhost hp).1
    · simpa [Ne.symm hp] using h.host_table
  · by_cases hp : Party.client c = e.dst
    · right
      have hne : e.dst ≠ .host := by simp [← hp]
      rw [hp, hself]
      refine ⟨?_, fun hm => (hclient hne hm).mono hg⟩
      rw [hmode, ← hp]
      exact h.client_mode c
    · left
      simp [hp]
  · refine (s.mem_receive_network he).imp (·) ?_
    rintro ⟨out, hout, hcopy⟩
    rw [hr] at hout
    refine ⟨s.routed_of_mem_copies hcopy, ?_⟩
    obtain ⟨hsrc, heq, -⟩ := s.mem_copies.mp hcopy
    rw [hsrc, heq]
    exact hsent _ hg (fun hp => hp ▸ hself) out hout
  · by_cases hp : q = e.dst
    · subst hp
      rw [s.receive_handed_self, List.mem_append, hr, List.mem_map] at hx
      refine hx.imp (·) ?_
      rintro ⟨y, hy, rfl⟩
      exact hg.submitted _ _ _ (hhanded y hy)
    · left
      simpa [hp] using hx
  · by_cases hp : q = e.dst
    · subst hp
      rw [hself, hchannels] at hid
      exact hid
    · simpa [hp] using hid
  · by_cases hp : q = e.dst
    · subst hp
      rw [s.receive_owed_self, List.mem_append] at hc
      exact hc.imp (·) fun hcall =>
        h.channels _ _ ((s.protocol e.dst).mem_channels_of_receive_fullState hcall)
    · left
      simpa [hp] using hc

/-- The host handles every message from a client within the invariant. -/
theorem Agreement.receive_host {s : Session ι P} (h : s.Agreement) (index : ℕ) {e : Envelope ι P}
    (hdst : e.dst = .host) (hok : s.MessageOk e.src e.out.message) :
    (s.receive index e).Agreement := by
  have hmode := h.host_mode
  have hmode' : (s.protocol e.dst).mode = .host := by rw [hdst, hmode]
  have hstay : e.dst = .host → HostTable (s.protocol e.dst) ∧
      ∀ id num, s.Bound id num → (s.protocol e.dst).idToNum[id]? = some num := by
    intro _
    rw [hdst]
    exact ⟨h.host_table, fun _ _ hb => hb⟩
  cases hm : e.out.message with
  | fullSendPacket =>
    exact h.receive_of index hm (ChannelProtocol.receive_fullSendPacket _) hstay (by simp [hdst])
      (by simp) (by simp)
  | channelPacket num load =>
    rw [hm] at hok
    obtain ⟨id, hb, hs⟩ := hok
    refine h.receive_of index hm (ChannelProtocol.receive_channelPacket_host _ hmode' num load)
      hstay (by simp [hdst]) (by simp) ?_
    simp only [List.mem_singleton, forall_eq, ChannelProtocol.receiveChannelPacket, hdst,
      h.getNumId_eq hb]
    exact hs
  | idChannelPacket num id load =>
    rw [hm] at hok
    obtain ⟨hid, hs, -⟩ := hok
    refine h.receive_of index hm
      (ChannelProtocol.receive_idChannelPacket_host _ hmode' num id load) (fun hd => ?_)
      (by simp [hdst]) ?_ ?_
    · obtain ⟨htable, hgrow⟩ := (hstay hd).1.createIdNum hid
      exact ⟨htable.congr rfl rfl, fun id num hb => hgrow id num ((hstay hd).2 id num hb)⟩
    · intro t hg ht
      have hb : t.Bound id ((s.protocol e.dst).createIdNum id).2 := by
        rw [Bound, ht hdst]
        exact (s.protocol e.dst).createIdNum_bound id
      simp only [List.mem_singleton, forall_eq, ChannelProtocol.sendIdNum_message]
      exact ⟨fun _ => hb, id, hb⟩
    · simpa [ChannelProtocol.receiveChannelPacket] using hs
  | idNumPacket num string =>
    rw [hm] at hok
    obtain ⟨-, id, hb⟩ := hok
    refine h.receive_of index hm (ChannelProtocol.receive_idNumPacket_host _ hmode' num string)
      (fun hd => ⟨(hstay hd).1.congr rfl rfl, (hstay hd).2⟩) (by simp [hdst]) ?_ (by simp)
    intro t hg ht
    simp only [List.mem_singleton, forall_eq, ChannelProtocol.sendIdNum_message]
    rw [hdst, h.getNumId_eq hb]
    exact ⟨fun _ => hg.bound _ _ hb, id, hg.bound _ _ hb⟩

/-- A client in the session handles a payload under a number it does not know within the
invariant. -/
theorem Agreement.receive_unknown {s : Session ι P} (h : s.Agreement) (index : ℕ)
    {e : Envelope ι P} {c : ι} (hdst : e.dst = .client c)
    (hmode : (s.protocol e.dst).mode = .client) {num : ℕ} {load : Load P}
    (hm : e.out.message = .channelPacket num load)
    (hnum : (s.protocol e.dst).numToId[num]? = none) {id : Str} (hb : s.Bound id num)
    (hs : s.Submitted .host id load) : (s.receive index e).Agreement := by
  have hne : e.dst ≠ .host := by simp [hdst]
  have hc : s.ClientOk (s.protocol e.dst) := by
    rw [hdst] at hmode ⊢
    exact h.client c hmode
  refine h.receive_of index hm (ChannelProtocol.receive_channelPacket_unknown _ hmode hnum load)
    (fun hd => absurd hd hne) (fun _ _ => ⟨hc.table.congr rfl rfl, ?_⟩) ?_ (by simp)
  · intro num' load' hload'
    rw [ChannelProtocol.sendIdNum_todo, queueAt_enqueue] at hload'
    split at hload'
    · rename_i heq
      subst heq
      rcases List.mem_append.mp hload' with hold | hnew
      · exact hc.parked _ _ hold
      · rw [List.mem_singleton.mp hnew]
        exact ⟨id, hb, hs⟩
    · exact hc.parked _ _ hload'
  · intro t hg _
    simp only [List.mem_singleton, forall_eq, ChannelProtocol.sendIdNum_message]
    exact ⟨fun hd => absurd hd hne, id, hg.bound _ _ hb⟩

/-- A client in the session handles every message from the host within the invariant. -/
theorem Agreement.receive_client {s : Session ι P} (h : s.Agreement) (index : ℕ)
    {e : Envelope ι P} {c : ι} (hdst : e.dst = .client c) (hsrc : e.src = .host)
    (hmode : (s.protocol e.dst).mode = .client) (hok : s.MessageOk e.src e.out.message) :
    (s.receive index e).Agreement := by
  have hne : e.dst ≠ .host := by simp [hdst]
  have hc : s.ClientOk (s.protocol e.dst) := by
    rw [hdst] at hmode ⊢
    exact h.client c hmode
  have hhost : HostTable (s.protocol .host) := h.host_table
  cases hm : e.out.message with
  | fullSendPacket =>
    exact h.receive_of index hm (ChannelProtocol.receive_fullSendPacket _)
      (fun hd => absurd hd hne) (fun _ _ => hc) (by simp) (by simp)
  | channelPacket num load =>
    rw [hm] at hok
    obtain ⟨id, hb, hs⟩ := hok
    rw [hsrc] at hs
    cases hnum : (s.protocol e.dst).numToId[num]? with
    | none => exact h.receive_unknown index hdst hmode hm hnum hb hs
    | some id' =>
      have hid : id' = id :=
        h.bound_injective (hc.table.sub id' num ((hc.table.inverse id' num).mpr hnum)) hb
      subst hid
      refine h.receive_of index hm
        (ChannelProtocol.receive_channelPacket_known _ hmode hnum (hhost.named id' num hb) load)
        (fun hd => absurd hd hne) (fun _ _ => hc) (by simp) ?_
      simpa [ChannelProtocol.receiveChannelPacket, hsrc] using hs
  | idChannelPacket num id load =>
    rw [hm] at hok
    obtain ⟨hid, hs, hb⟩ := hok
    refine h.receive_of index hm
      (ChannelProtocol.receive_idChannelPacket_client _ hmode num id load)
      (fun hd => absurd hd hne) (fun _ _ => ⟨hc.table.setIdNum hhost (hb hsrc), ?_⟩) (by simp) ?_
    · rw [ChannelProtocol.setIdNum_todo]
      exact hc.parked
    · simpa [ChannelProtocol.receiveChannelPacket] using hs
  | idNumPacket num id =>
    rw [hm] at hok
    have hb := hok.1 hsrc
    refine h.receive_of index hm (ChannelProtocol.receive_idNumPacket_client _ hmode num id)
      (fun hd => absurd hd hne) (fun _ _ => ⟨(hc.table.setIdNum hhost hb).congr rfl rfl, ?_⟩)
      (by simp) ?_
    · intro num' load hload
      rw [queueAt_erase] at hload
      split at hload
      · cases hload
      · exact hc.parked _ _ hload
    · -- what waited for the number was sent for the id the host now names
      intro x hx
      obtain ⟨load, hload, rfl⟩ := List.mem_map.mp hx
      obtain ⟨id', hb', hs⟩ := hc.parked num load hload
      rw [h.bound_injective hb hb', hsrc]
      exact hs

/-- Every delivery keeps the invariant. -/
theorem Agreement.receive {s : Session ι P} (h : s.Agreement) (index : ℕ) {e : Envelope ι P}
    (hmem : e ∈ s.network) : (s.receive index e).Agreement := by
  have hok := h.messages e hmem
  rcases h.routed e hmem with ⟨hsrc, c, hdst⟩ | ⟨-, hdst⟩
  · cases hmode : (s.protocol (.client c)).mode with
    | idle =>
      have hne : e.dst ≠ .host := by simp [hdst]
      rw [← hdst] at hmode
      by_cases hm : e.out.message = .fullSendPacket
      · exact h.receive_of index hm (ChannelProtocol.receive_fullSendPacket _)
          (fun hd => absurd hd hne) (fun _ hcm => by simp [hmode] at hcm) (by simp) (by simp)
      · exact h.receive_of index rfl (ChannelProtocol.receive_idle _ hmode hm)
          (fun hd => absurd hd hne) (fun _ hcm => by simp [hmode] at hcm) (by simp) (by simp)
    | host => exact absurd hmode (h.client_mode c)
    | client => exact h.receive_client index hdst hsrc (by rw [hdst, hmode]) hok
  · exact h.receive_host index hdst hok

/-- Changing the registered channels of one party keeps the invariant. -/
theorem Agreement.withProtocol {s : Session ι P} (h : s.Agreement) (p : Party ι)
    {d : ChannelProtocol (Load P)} (hmode : d.mode = (s.protocol p).mode)
    (hid : d.idToNum = (s.protocol p).idToNum) (hnum : d.numToId = (s.protocol p).numToId)
    (htodo : d.todo = (s.protocol p).todo)
    (hchannels : ∀ id, id ∈ d.channels → id ∈ (s.protocol p).channels ∨ id ≠ []) :
    (s.withProtocol p d).Agreement := by
  have hbound : ∀ id num, s.Bound id num → (s.withProtocol p d).Bound id num := by
    intro id num hb
    rw [Bound, s.withProtocol_congr hid]
    exact hb
  have hg : s.Grows (s.withProtocol p d) := Grows.of_prefix hbound fun _ => List.prefix_rfl
  refine h.advance hg ((s.withProtocol_congr hmode _).trans h.host_mode)
    (h.host_table.congr (s.withProtocol_congr hid _) (s.withProtocol_congr hnum _))
    (fun c => .inr ?_) (fun _ he => .inl he) (fun _ _ hx => .inl hx) (fun q id hmem => ?_)
    (fun _ _ hc => .inl hc)
  · rw [s.withProtocol_congr hmode]
    refine ⟨h.client_mode c, fun hm => ((h.client c hm).congr ?_ ?_ ?_).mono hg⟩
    · exact s.withProtocol_congr hid _
    · exact s.withProtocol_congr hnum _
    · exact s.withProtocol_congr htodo _
  · by_cases hp : q = p
    · subst hp
      rw [withProtocol_self] at hmem
      exact hchannels id hmem
    · left
      simpa [hp] using hmem

/-- A client that starts knows nothing yet. -/
theorem Agreement.start {s : Session ι P} (h : s.Agreement) (c : ι) : (s.start c).Agreement := by
  have hg : s.Grows (s.start c) :=
    Grows.of_prefix (fun id num hb => by simpa [Bound] using hb) fun src => List.prefix_rfl
  refine h.advance hg (by simpa using h.host_mode) (by simpa using h.host_table) (fun c' => ?_)
    (fun e he => ?_) (fun _ _ hx => .inl hx) (fun q id hid => .inl ?_) (fun _ _ hc => .inl hc)
  · by_cases hc : c' = c
    · subst hc
      right
      rw [start_protocol_self]
      exact ⟨by simp [ChannelProtocol.start], fun _ => ⟨ClientTable.of_empty rfl rfl,
        fun num load hload => by simp [ChannelProtocol.start] at hload⟩⟩
    · left
      simp [hc]
  · rw [start_network, List.mem_append, List.mem_singleton] at he
    refine he.imp (·) fun heq => ?_
    subst heq
    exact ⟨.inr ⟨⟨c, rfl⟩, rfl⟩, trivial⟩
  · by_cases hq : q = .client c
    · subst hq
      rw [start_protocol_self] at hid
      exact hid
    · simpa [hq] using hid

/-- The invariant holds when a session begins. -/
theorem Agreement.begins {members : List ι} {s : Session ι P} (h : Begins members s) :
    s.Agreement where
  host_mode := h.host_mode
  host_table := by
    have hne : (s.protocol .host).mode ≠ .idle := by simp [h.host_mode]
    exact HostTable.of_empty (h.idToNum _ hne) (h.numToId _ hne)
  client_mode c := by
    rw [h.client_mode c]
    split <;> simp
  client c hm := by
    have hne : (s.protocol (.client c)).mode ≠ .idle := by simp [hm]
    refine ⟨ClientTable.of_empty (h.idToNum _ hne) (h.numToId _ hne), fun num load hload => ?_⟩
    simp [h.todo _ hne] at hload
  routed e he := by
    obtain ⟨c, -, hsrc, hdst, -⟩ := h.network e he
    exact .inr ⟨⟨c, hsrc⟩, hdst⟩
  messages e he := by
    obtain ⟨c, -, -, -, hm⟩ := h.network e he
    rw [hm]
    trivial
  handed p x hx := by simp [h.handed p] at hx
  channels := h.channels
  owed := h.owed

/-- Making a `sendFullState` call keeps the invariant. -/
theorem Agreement.withOwed {s : Session ι P} (h : s.Agreement) {p : Party ι} {call : Str × ℕ}
    {rest : List (Str × ℕ)} (howed : s.owed p = call :: rest) : (s.withOwed p rest).Agreement := by
  refine h.advance ⟨fun _ _ hb => hb, fun _ _ _ hs => hs⟩ h.host_mode h.host_table
    (fun _ => .inl rfl) (fun _ he => .inl he) (fun _ _ hx => .inl hx) (fun _ _ hid => .inl hid)
    fun q call' hc => .inl ?_
  by_cases hq : q = p
  · subst hq
    rw [withOwed_self] at hc
    exact howed ▸ List.mem_cons_of_mem _ hc
  · rwa [s.withOwed_of_ne hq] at hc

/-- Every step of a session keeps the invariant. -/
theorem Agreement.step {s t : Session ι P} (h : s.Agreement)
    {order : Envelope ι P → Envelope ι P → Bool} {a : Action ι P}
    (hstep : s.step order a = some t) : t.Agreement := by
  rcases s.step_cases hstep with ⟨p, id, offer, -, rfl⟩ | ⟨p, call, rest, offer, -, howed, rfl⟩ |
    ⟨index, e, -, he, -, rfl⟩ | ⟨c, -, -, rfl⟩ | ⟨c, -, -, -, rfl⟩ | ⟨p, channel, id, -, rfl⟩ |
    ⟨p, channel, id, -, rfl⟩
  · exact h.submit p id.nonempty offer
  · have hcall : call.1 ≠ [] := h.owed p call (howed ▸ List.mem_cons_self)
    have h₁ := h.withOwed howed
    cases offer with
    | none => exact h₁
    | some offer => exact h₁.submit p hcall offer
  · exact h.receive index (List.mem_of_getElem? he)
  · exact h.advance ⟨fun _ _ hb => hb, fun _ _ _ hs => hs⟩ h.host_mode h.host_table
      (fun _ => .inl rfl) (fun _ he => .inl he) (fun _ _ hx => .inl hx) (fun _ _ hid => .inl hid)
      fun _ _ hc => .inl hc
  · exact h.start c
  · refine h.withProtocol p rfl rfl rfl rfl fun id' hid => ?_
    refine (ChannelProtocol.mem_channels_registerNetworkChannel _ hid).imp (·) fun heq => ?_
    rw [heq]
    exact id.nonempty
  · exact h.withProtocol p (by simp) (by simp) (by simp) (by simp) fun id' hid =>
      .inl (ChannelProtocol.mem_channels_unregisterNetworkChannel _ hid)

/-- The invariant holds in every reachable state, over any transport. -/
theorem Agreement.reachable {order : Envelope ι P → Envelope ι P → Bool} {members : List ι}
    {s : Session ι P} (h : (sessionMachine P order members).Reachable s) : s.Agreement :=
  h.invariant (fun _ => Agreement.begins) fun _ _ _ _ hs hstep => hs.step hstep

/-- In every reachable state of a session the host's tables are mutually inverse and number the
bound ids consecutively from `RESERVED_CHANNELS`, the tables of every client in the session are
mutually inverse parts of the host's without the empty id, and whatever was handed to
`receiveChannelPacket` for an id had been sent by its sender for that very id. -/
theorem channelNumbers_agree {order : Envelope ι P → Envelope ι P → Bool} {members : List ι}
    {s : Session ι P} (h : (sessionMachine P order members).Reachable s) :
    (Inverse (s.protocol .host).idToNum (s.protocol .host).numToId ∧
      ∀ num, (∃ id : Str, (s.protocol .host).idToNum[id]? = some num) ↔
        reservedChannels ≤ num ∧ num < reservedChannels + (s.protocol .host).idToNum.size) ∧
    (∀ c, (s.protocol (.client c)).mode = .client →
      Inverse (s.protocol (.client c)).idToNum (s.protocol (.client c)).numToId ∧
      ∀ (id : Str) (num : ℕ), (s.protocol (.client c)).idToNum[id]? = some num ∨
          (s.protocol (.client c)).numToId[num]? = some id →
        (s.protocol .host).idToNum[id]? = some num ∧
          (s.protocol .host).numToId[num]? = some id ∧ id ≠ []) ∧
    ∀ p src x, (src, x) ∈ s.handed p →
      (s.submitted src)[x.packet.stamp]? = some (x.id, x.packet) := by
  have hs := Agreement.reachable h
  refine ⟨⟨hs.host_table.inverse, hs.host_table.numbered⟩, fun c hm => ?_, fun p src x hx => ?_⟩
  · have hc := (hs.client c hm).table
    refine ⟨hc.inverse, fun id num hb => ?_⟩
    have hclient : (s.protocol (.client c)).idToNum[id]? = some num :=
      hb.elim (·) (hc.inverse id num).mpr
    have hhost := hc.sub id num hclient
    exact ⟨hhost, (hs.host_table.inverse id num).mp hhost, hs.host_table.named id num hhost⟩
  · exact hs.handed p (src, x) hx

/-- After the host's first packet for an id, the client's pair for it is the host's. -/
theorem channelNumbers_agree_firstPacket : ∃ s,
    (sessionMachine ℕ anyOrder [()]).run (opening Unit ℕ [()])
        [.send .host ⟨[65], by simp⟩ ⟨7, true, .high⟩, .deliver 0] = some s ∧
      (s.protocol .host).idToNum[([65] : Str)]? = some 16 ∧
      (s.submitted .host)[0]? = some ([65], ⟨7, true, 0⟩) := by
  have hrun : (sessionMachine ℕ anyOrder [()]).run (opening Unit ℕ [()])
    [.send .host ⟨[65], by simp⟩ ⟨7, true, .high⟩, .deliver 0] = some _ := rfl
  have hs := channelNumbers_agree (reachable_of_opening (List.nodup_singleton ()) hrun)
  exact ⟨_, hrun, ((hs.2.1 () (by decide)).2 [65] 16 (.inl (by decide))).1,
    hs.2.2 (.client ()) .host ⟨[65], ⟨7, true, 0⟩, []⟩ (by decide)⟩

end Session

end Multicrew.Core
