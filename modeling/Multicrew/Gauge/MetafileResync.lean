import Multicrew.Gauge.MetafileStream
import Multicrew.Library.Pool

/-!
# Resynchronisation of several clients

In a synchronous round the host sends one data packet, every client reads it, and all answers
arrive before the next round. A client in step moves on with the host; a client out of step falls
back to 0 and takes the host with it. So once some clients are in step and others are not, the
two groups take turns for ever: the packet with counter 0 is rejected by those that accepted the
one before.
-/

namespace Multicrew.Gauge

open Multicrew.Library

/-- A new client is not part of a round. -/
def MetafileAction.isJoin {ι : Type*} : MetafileAction ι → Bool
  | .join _ _ => true
  | _ => false

/-- The counter of a client with counter `k` after a packet with counter `h`. -/
def advance (h k : UInt32) : UInt32 := if k = h then h + 1 else 0

namespace MetafileStream

variable {ι : Type*}

/-- The counter of a client. -/
def clientCounter (s : MetafileStream ι) (i : ι) : Option UInt32 :=
  (s.clients i).map fun c => c.decompressor.metafileCounter

/-- Nothing is on its way: no answer is pending and every client has read the whole stream. -/
structure Quiet (s : MetafileStream ι) : Prop where
  replies : s.replies = []
  read : ∀ i c, s.clients i = some c → c.position = s.sent.length

/-- Every client has the counter of the compressor. -/
def InStep (s : MetafileStream ι) : Prop :=
  ∀ i k, s.clientCounter i = some k → k = s.compressor.metafileCounter

/-- No client has the counter of the compressor. -/
def Apart (s : MetafileStream ι) : Prop :=
  ∀ i k, s.clientCounter i = some k → k ≠ s.compressor.metafileCounter

/-- Some clients are in step and others are not, and the next counter is not 0. -/
structure Split (s : MetafileStream ι) : Prop where
  ahead : ∃ i, s.clientCounter i = some s.compressor.metafileCounter
  behind : ∃ i k, s.clientCounter i = some k ∧ k ≠ s.compressor.metafileCounter
  next : s.compressor.metafileCounter + 1 ≠ 0

/-- In the step from `s` to `t` one packet was sent, with the counter of every client. -/
def Accepted (s t : MetafileStream ι) : Prop :=
  ∃ p, t.sent = s.sent ++ [p] ∧ ∀ i k, s.clientCounter i = some k → k = p.packet.counter

/-- A stream that is not split is wholly in step, wholly apart, or about to wrap. -/
theorem not_split_iff (s : MetafileStream ι) :
    ¬ s.Split ↔ s.InStep ∨ s.Apart ∨ s.compressor.metafileCounter + 1 = 0 := by
  constructor
  · intro hnot
    by_contra hcond
    simp only [not_or, InStep, Apart, not_forall] at hcond
    obtain ⟨⟨i, k, hk, hne⟩, ⟨i', k', hk', heq⟩, hnext⟩ := hcond
    rw [not_not] at heq
    exact hnot ⟨⟨i', heq ▸ hk'⟩, ⟨i, k, hk, hne⟩, hnext⟩
  · rintro hcond ⟨⟨i, hi⟩, ⟨i', k, hk, hne⟩, hnext⟩
    rcases hcond with hin | hapart | hwrap
    · exact hne (hin i' k hk)
    · exact hapart i _ hi rfl
    · exact hnext hwrap

variable [DecidableEq ι]

/-- One synchronous round: between two quiet states exactly one data packet was sent, read and
answered, in any order of the steps. -/
structure Round (z : Zdelta) (s t : MetafileStream ι) : Prop where
  quiet_before : s.Quiet
  quiet_after : t.Quiet
  run : ∃ actions : List (MetafileAction ι), actions.all (fun a => !a.isJoin) ∧
    (metafileMachine ι z).run s actions = some t
  one : t.sent.length = s.sent.length + 1

/-- A number of rounds in sequence. -/
inductive Rounds (z : Zdelta) : ℕ → MetafileStream ι → MetafileStream ι → Prop
  | zero (s : MetafileStream ι) : Rounds z 0 s s
  | succ {n : ℕ} {s t u : MetafileStream ι} : Rounds z n s t → Round z t u → Rounds z (n + 1) s u

/-- A client that has not read the packet of the round, or what became of one that has. -/
def Reads (s₀ t : MetafileStream ι) (i : ι) : Prop :=
  t.clients i = s₀.clients i ∨ ∃ c d, s₀.clients i = some c ∧
    t.clients i = some ⟨d, s₀.sent.length + 1⟩ ∧
    d.metafileCounter = advance s₀.compressor.metafileCounter c.decompressor.metafileCounter

/-- The states of a round that begins in `s₀` before its packet is sent. -/
structure BeforeSend (s₀ t : MetafileStream ι) : Prop where
  sent : t.sent = s₀.sent
  counter : t.compressor.metafileCounter = s₀.compressor.metafileCounter
  clients : t.clients = s₀.clients
  replies : t.replies = []

/-- The states of a round that begins in `s₀` after its packet is sent. A reset that is pending
or has been handled comes from a client out of step, and each such client has caused one. -/
structure AfterSend (s₀ t : MetafileStream ι) : Prop where
  sent : ∃ p, t.sent = s₀.sent ++ [p] ∧ p.packet.counter = s₀.compressor.metafileCounter
  clients : ∀ i, Reads s₀ t i
  counter : t.compressor.metafileCounter = 0 ∨
    t.compressor.metafileCounter = s₀.compressor.metafileCounter + 1
  reset : ∀ i k, s₀.clientCounter i = some k → k ≠ s₀.compressor.metafileCounter →
    t.clients i = s₀.clients i ∨ t.compressor.metafileCounter = 0 ∨ .resetPacket ∈ t.replies
  cause : t.compressor.metafileCounter ≠ s₀.compressor.metafileCounter + 1 ∨
      .resetPacket ∈ t.replies →
    ∃ i k, s₀.clientCounter i = some k ∧ k ≠ s₀.compressor.metafileCounter

variable {z : Zdelta} {s₀ s t : MetafileStream ι}

/-- Where a round can be: its packet is not sent yet, or sent, or a second one is. -/
def InRound (s₀ t : MetafileStream ι) : Prop :=
  BeforeSend s₀ t ∨ AfterSend s₀ t ∨ s₀.sent.length + 2 ≤ t.sent.length

omit [DecidableEq ι] in
/-- A quiet state begins a round. -/
theorem Quiet.beforeSend (h : s₀.Quiet) : BeforeSend s₀ s₀ :=
  ⟨rfl, rfl, rfl, h.replies⟩

/-- Until the packet is sent only the host is active. -/
theorem BeforeSend.step (h : BeforeSend s₀ s) (hquiet : s₀.Quiet) {a : MetafileAction ι}
    (ha : a.isJoin = false) (hstep : s.step z a = some t) :
    BeforeSend s₀ t ∨ AfterSend s₀ t := by
  rcases step_cases hstep with ⟨metafile, -, -, rfl⟩ | ⟨d, -, hd, rfl⟩ | ⟨work, -, -, rfl⟩ |
    ⟨i, position, rfl, -, -⟩ | ⟨i, c, p, result, -, hc, hp, -, -⟩ | ⟨index, reply, -, hreply, -⟩
  · left
    exact ⟨h.sent, by simp [MetafileStream.close, h.counter], h.clients, h.replies⟩
  · left
    exact ⟨h.sent, (MetafileCompressor.wake_metafileCounter hd).trans h.counter, h.clients, h.replies⟩
  · rcases finish_cases z s work with heq | ⟨delta, -, -, heq⟩
    · left
      rw [heq]
      exact ⟨h.sent, h.counter, h.clients, h.replies⟩
    · right
      rw [heq]
      refine ⟨⟨_, by rw [h.sent], h.counter⟩, ?_, .inr (by rw [h.counter]), ?_, ?_⟩
      · intro i
        left
        rw [h.clients]
      · intro i k _ _
        left
        rw [h.clients]
      · intro hcause
        rw [h.counter, h.replies] at hcause
        simp at hcause
  · cases ha
  · -- every client has read what there is
    rw [h.clients] at hc
    rw [h.sent, hquiet.read i c hc, List.getElem?_eq_none (le_refl _)] at hp
    cases hp
  · rw [h.replies] at hreply
    cases hreply

/-- A client reads the packet of the round: in step it moves on, out of step it asks for a reset. -/
theorem AfterSend.deliver (h : AfterSend s₀ s) {i : ι} {c : StreamClient}
    (hc : s₀.clients i = some c) (hposition : c.position = s₀.sent.length)
    {result : MetafileDecompressor × MetafileReply}
    (hcounter : result.1.metafileCounter =
      advance s₀.compressor.metafileCounter c.decompressor.metafileCounter)
    (hreset : result.2 = .resetPacket ↔
      c.decompressor.metafileCounter ≠ s₀.compressor.metafileCounter) :
    AfterSend s₀ (s.deliver i c.position result) := by
  have hclient : s₀.clientCounter i = some c.decompressor.metafileCounter := by
    simp [clientCounter, hc]
  refine ⟨h.sent, fun i' => ?_, h.counter, fun i' k hk hne => ?_, fun hcause => ?_⟩
  · by_cases hi : i' = i
    · subst hi
      exact .inr ⟨c, result.1, hc, by simp [MetafileStream.deliver, hposition], hcounter⟩
    · simpa [Reads, MetafileStream.deliver, hi] using h.clients i'
  · by_cases hi : i' = i
    · subst hi
      rw [hclient] at hk
      obtain rfl := Option.some.inj hk
      have hr := hreset.mpr hne
      exact .inr (.inr (List.mem_append_right _ (hr ▸ List.mem_singleton_self _)))
    · rcases h.reset i' k hk hne with hold | hzero | hmem
      · exact .inl (by simpa [MetafileStream.deliver, hi] using hold)
      · exact .inr (.inl hzero)
      · exact .inr (.inr (List.mem_append_left _ hmem))
  · rcases hcause with hne | hmem
    · exact h.cause (.inl hne)
    · rcases List.mem_append.mp hmem with hold | hnew
      · exact h.cause (.inr hold)
      · exact ⟨i, _, hclient, hreset.mp (List.mem_singleton.mp hnew).symm⟩

omit [DecidableEq ι] in
/-- An answer reaches the compressor: a reset takes its counter back to 0. -/
theorem AfterSend.reply (h : AfterSend s₀ s) {index : ℕ} {reply : MetafileReply}
    (hreply : s.replies[index]? = some reply) :
    AfterSend s₀ { s with
      compressor := s.compressor.receive reply, replies := s.replies.eraseIdx index } := by
  cases reply with
  | resetPacket =>
    refine ⟨h.sent, h.clients, .inl rfl, fun _ _ _ _ => .inr (.inl rfl), fun _ => ?_⟩
    exact h.cause (.inr (List.mem_of_getElem? hreply))
  | ackPacket =>
    refine ⟨h.sent, h.clients, h.counter, fun i k hk hne => ?_, fun hcause => ?_⟩
    · refine (h.reset i k hk hne).imp_right (Or.imp_right fun hmem => ?_)
      exact (mem_eraseIdx_of_mem hreply hmem).resolve_left (by simp)
    · exact h.cause (hcause.imp_right List.mem_of_mem_eraseIdx)

omit [DecidableEq ι] in
/-- Closing a metafile and waking the thread touch nothing of it. -/
theorem AfterSend.congr (h : AfterSend s₀ s) (hsent : t.sent = s.sent)
    (hclients : t.clients = s.clients) (hreplies : t.replies = s.replies)
    (hcounter : t.compressor.metafileCounter = s.compressor.metafileCounter) : AfterSend s₀ t where
  sent := hsent ▸ h.sent
  clients i := by
    have hreads := h.clients i
    unfold Reads at hreads ⊢
    rw [hclients]
    exact hreads
  counter := hcounter ▸ h.counter
  reset i k hk hne := by
    rw [hclients, hcounter, hreplies]
    exact h.reset i k hk hne
  cause hcause := by
    rw [hcounter, hreplies] at hcause
    exact h.cause hcause

/-- Once the packet is sent, each client reads it once and every answer is accounted for. -/
theorem AfterSend.step (h : AfterSend s₀ s) (hquiet : s₀.Quiet) (hs : Aligned z s)
    (hz : z.Lossless) {a : MetafileAction ι} (ha : a.isJoin = false)
    (hstep : s.step z a = some t) :
    AfterSend s₀ t ∨ s₀.sent.length + 2 ≤ t.sent.length := by
  obtain ⟨p₀, hsent, hcounter⟩ := h.sent
  rcases step_cases hstep with ⟨metafile, -, -, rfl⟩ | ⟨d, -, hd, rfl⟩ | ⟨work, -, -, rfl⟩ |
    ⟨i, position, rfl, -, -⟩ | ⟨i, c, p, result, -, hc, hp, hresult, rfl⟩ |
    ⟨index, reply, -, hreply, rfl⟩
  · left
    refine h.congr rfl rfl rfl ?_
    simp [MetafileStream.close]
  · left
    exact h.congr rfl rfl rfl (MetafileCompressor.wake_metafileCounter hd)
  · rcases finish_cases z s work with heq | ⟨delta, -, -, heq⟩
    · left
      rw [heq]
      exact ⟨h.sent, h.clients, h.counter, h.reset, h.cause⟩
    · right
      rw [heq]
      simp [hsent]
  · cases ha
  · left
    rcases h.clients i with hold | ⟨c₀, d, -, hread, -⟩
    · rw [hold] at hc
      have hposition := hquiet.read i c hc
      have hpacket : p = p₀ := by
        rw [hsent, hposition, List.getElem?_append_right (le_refl _)] at hp
        simpa using hp.symm
      subst hpacket
      rw [hs.receive_eq hz (hold.trans hc) hp, hcounter] at hresult
      by_cases hin : c.decompressor.metafileCounter = s₀.compressor.metafileCounter
      · rw [if_pos hin] at hresult
        obtain rfl := Option.some.inj hresult
        exact h.deliver hc hposition (by simp [advance, hin]) (by simp [hin])
      · rw [if_neg hin] at hresult
        obtain rfl := Option.some.inj hresult
        exact h.deliver hc hposition (by simp [advance, hin]) (by simp [hin])
    · -- a client that has read the packet has nothing more to read
      rw [hread] at hc
      obtain rfl := Option.some.inj hc
      rw [hsent, List.getElem?_eq_none (by simp)] at hp
      cases hp
  · exact .inl (h.reply hreply)

/-- The stream only grows. -/
theorem sent_prefix_step {a : MetafileAction ι} (h : s.step z a = some t) : s.sent <+: t.sent := by
  rcases step_cases h with ⟨metafile, -, -, rfl⟩ | ⟨d, -, -, rfl⟩ | ⟨work, -, -, rfl⟩ |
    ⟨i, position, -, -, rfl⟩ | ⟨i, c, p, result, -, -, -, -, rfl⟩ | ⟨index, reply, -, -, rfl⟩
  · exact List.prefix_rfl
  · exact List.prefix_rfl
  · exact List.prefix_append _ _
  · exact List.prefix_rfl
  · exact List.prefix_rfl
  · exact List.prefix_rfl

/-- A run without joins stays within the round until a second packet is sent. -/
theorem InRound.run (hquiet : s₀.Quiet) (hz : z.Lossless) {actions : List (MetafileAction ι)}
    (hactions : actions.all (fun a => !a.isJoin)) (hs : Aligned z s) (h : InRound s₀ s)
    (hrun : (metafileMachine ι z).run s actions = some t) : InRound s₀ t := by
  induction actions generalizing s with
  | nil => exact Option.some.inj hrun ▸ h
  | cons a rest ih =>
    obtain ⟨u, hu, hrest⟩ := Option.bind_eq_some_iff.mp hrun
    simp only [List.all_cons, Bool.and_eq_true, Bool.not_eq_true'] at hactions
    refine ih hactions.2 (hs.step hz hu) ?_ hrest
    rcases h with hbefore | hafter | hmore
    · exact (hbefore.step hquiet hactions.1 hu).imp_right .inl
    · exact .inr (hafter.step hquiet hs hz hactions.1 hu)
    · exact .inr (.inr (hmore.trans (sent_prefix_step hu).length_le))

/-- What a round does: the packet carries the compressor's counter, every client advances by its
own counter, and the compressor moves on exactly if every client was in step. -/
theorem Round.effect (h : Round z s t) (hz : z.Lossless) (hs : Aligned z s) :
    (∃ p, t.sent = s.sent ++ [p] ∧ p.packet.counter = s.compressor.metafileCounter) ∧
    (∀ i, t.clientCounter i = (s.clientCounter i).map (advance s.compressor.metafileCounter)) ∧
    (s.InStep → t.compressor.metafileCounter = s.compressor.metafileCounter + 1) ∧
    (∀ i k, s.clientCounter i = some k → k ≠ s.compressor.metafileCounter →
      t.compressor.metafileCounter = 0) ∧
    (t.compressor.metafileCounter = 0 ∨
      t.compressor.metafileCounter = s.compressor.metafileCounter + 1) := by
  obtain ⟨actions, hactions, hrun⟩ := h.run
  have hone := h.one
  have hround := InRound.run h.quiet_before hz hactions hs (.inl h.quiet_before.beforeSend) hrun
  have hafter : AfterSend s t := by
    rcases hround with hbefore | hafter | hmore
    · rw [hbefore.sent] at hone
      omega
    · exact hafter
    · omega
  have hunread : ∀ i c, s.clients i = some c → t.clients i ≠ s.clients i := by
    intro i c hc heq
    have hposition := h.quiet_after.read i c (heq.trans hc)
    rw [h.quiet_before.read i c hc, hone] at hposition
    omega
  refine ⟨hafter.sent, fun i => ?_, fun hin => ?_, fun i k hk hne => ?_, hafter.counter⟩
  · rcases hafter.clients i with heq | ⟨c, d, hc, hread, hcounter⟩
    · cases hc : s.clients i with
      | none => simp [clientCounter, heq, hc]
      | some c => exact absurd heq (hunread i c hc)
    · simp [clientCounter, hc, hread, hcounter]
  · by_contra hne
    obtain ⟨i, k, hk, hout⟩ := hafter.cause (.inl hne)
    exact hout (hin i k hk)
  · rcases hafter.reset i k hk hne with heq | hzero | hmem
    · obtain ⟨c, hc, -⟩ := Option.map_eq_some_iff.mp hk
      exact absurd heq (hunread i c hc)
    · exact hzero
    · rw [h.quiet_after.replies] at hmem
      cases hmem

/-- A stream in step stays in step, and everyone accepts. -/
theorem Round.inStep (h : Round z s t) (hz : z.Lossless) (hs : Aligned z s) (hin : s.InStep) :
    Accepted s t ∧ t.InStep := by
  obtain ⟨⟨p, hsent, hp⟩, hclients, hmoves, -, -⟩ := h.effect hz hs
  refine ⟨⟨p, hsent, fun i k hk => (hin i k hk).trans hp.symm⟩, fun i k hk => ?_⟩
  rw [hclients i] at hk
  obtain ⟨k₀, hk₀, rfl⟩ := Option.map_eq_some_iff.mp hk
  rw [hin i k₀ hk₀, hmoves hin, advance, if_pos rfl]

/-- A stream that is not split is in step after one round. -/
theorem Round.inStep_of_not_split (h : Round z s t) (hz : z.Lossless) (hs : Aligned z s)
    (hnot : ¬ s.Split) : t.InStep := by
  obtain ⟨-, hclients, -, hreset, hcounter⟩ := h.effect hz hs
  rcases (not_split_iff s).mp hnot with hin | hapart | hwrap
  · exact (h.inStep hz hs hin).2
  · intro i k hk
    rw [hclients i] at hk
    obtain ⟨k₀, hk₀, rfl⟩ := Option.map_eq_some_iff.mp hk
    rw [hreset i k₀ hk₀ (hapart i k₀ hk₀), advance, if_neg (hapart i k₀ hk₀)]
  · have hzero : t.compressor.metafileCounter = 0 := hcounter.elim (·) (·.trans hwrap)
    intro i k hk
    rw [hclients i] at hk
    obtain ⟨k₀, -, rfl⟩ := Option.map_eq_some_iff.mp hk
    rw [hzero, advance, hwrap, ite_self]

/-- A split stream stays split: the two groups have changed places. -/
theorem Round.split (h : Round z s t) (hz : z.Lossless) (hs : Aligned z s) (hsplit : s.Split) :
    t.Split := by
  obtain ⟨-, hclients, -, hreset, -⟩ := h.effect hz hs
  obtain ⟨⟨i, hi⟩, ⟨i', k, hk, hne⟩, hnext⟩ := hsplit
  have hzero := hreset i' k hk hne
  refine ⟨⟨i', ?_⟩, ⟨i, s.compressor.metafileCounter + 1, ?_, ?_⟩, ?_⟩
  · rw [hclients i', hk, hzero, Option.map_some, advance, if_neg hne]
  · rw [hclients i, hi, Option.map_some, advance, if_pos rfl]
  · rw [hzero]
    exact hnext
  · rw [hzero]
    decide

omit [DecidableEq ι] in
/-- A split stream is not in step. -/
theorem Split.not_inStep (h : s.Split) : ¬ s.InStep := by
  obtain ⟨i, k, hk, hne⟩ := h.behind
  exact fun hin => hne (hin i k hk)

/-- A round is a run. -/
theorem Round.reachable (h : Round z s t) (hs : (metafileMachine ι z).Reachable s) :
    (metafileMachine ι z).Reachable t := by
  obtain ⟨actions, -, hrun⟩ := h.run
  exact hs.run hrun

/-- Rounds keep a stream reachable, and split if it was. -/
theorem Rounds.reachable {n : ℕ} (h : Rounds z n s t) (hs : (metafileMachine ι z).Reachable s)
    (hz : z.Lossless) : (metafileMachine ι z).Reachable t ∧ (s.Split → t.Split) := by
  induction h with
  | zero => exact ⟨hs, fun hsplit => hsplit⟩
  | succ hrounds hround ih =>
    obtain ⟨hreach, hkeep⟩ := ih hs
    exact ⟨hround.reachable hreach, fun hsplit =>
      hround.split hz (Aligned.reachable hz hreach) (hkeep hsplit)⟩

/-- After any positive number of rounds a stream that was not split is in step. -/
theorem Rounds.inStep_of_not_split {n : ℕ} (h : Rounds z (n + 1) s t)
    (hs : (metafileMachine ι z).Reachable s) (hz : z.Lossless) (hnot : ¬ s.Split) : t.InStep := by
  induction n generalizing t with
  | zero =>
    cases h with
    | succ hzero hround =>
      cases hzero
      exact hround.inStep_of_not_split hz (Aligned.reachable hz hs) hnot
  | succ n ih =>
    cases h with
    | succ hrounds hround =>
      exact (hround.inStep hz (Aligned.reachable hz (hrounds.reachable hs hz).1) (ih hrounds)).2

/-- From any reachable state, after two or more synchronous rounds with any number of clients: all
clients are in step and accept from then on exactly if at the start all were in step, or none was,
or the compressor's counter was about to wrap to 0. -/
theorem resynchronised_iff (hz : z.Lossless) (hs : (metafileMachine ι z).Reachable s) {n : ℕ}
    (hn : 2 ≤ n) (h : Rounds z n s t) :
    (t.InStep ∧ ∀ u, Round z t u → Accepted t u ∧ u.InStep) ↔
      s.InStep ∨ s.Apart ∨ s.compressor.metafileCounter + 1 = 0 := by
  obtain ⟨hreach, hkeep⟩ := h.reachable hs hz
  rw [← not_split_iff]
  constructor
  · rintro ⟨hin, -⟩ hsplit
    exact (hkeep hsplit).not_inStep hin
  · intro hnot
    obtain ⟨m, rfl⟩ : ∃ m, n = m + 1 := ⟨n - 1, by omega⟩
    have hin := h.inStep_of_not_split hs hz hnot
    exact ⟨hin, fun u hu => hu.inStep hz (Aligned.reachable hz hreach) hin⟩

/-- A round is recognised by the runs to its two ends. -/
theorem Round.of_run {init : MetafileStream ι} {before actions : List (MetafileAction ι)}
    (hs : (metafileMachine ι z).run init before = some s)
    (ht : (metafileMachine ι z).run init (before ++ actions) = some t)
    (hactions : actions.all (fun a => !a.isJoin)) (hquiet : s.Quiet) (hquiet' : t.Quiet)
    (hone : t.sent.length = s.sent.length + 1) : Round z s t := by
  rw [Machine.run_append, hs] at ht
  exact ⟨hquiet, hquiet', ⟨actions, hactions, ht⟩, hone⟩

/-- The first metafile is sent before there is a client, then two clients join. -/
def lateClients : List (MetafileAction Bool) :=
  [.close (some [1]), .wake, .finish, .join false 1, .join true 1]

/-- A metafile goes out after the timeout of the thread, and both clients answer. -/
def timedRound (metafile : Bytes) : List (MetafileAction Bool) :=
  .close (some metafile) :: List.replicate 11 .wake ++
    [.finish, .deliver false, .deliver true, .reply 0, .reply 0]

/-- Two clients that join late, both apart, are in step after two rounds: the first one resets the
counters. -/
theorem resynchronised_iff_apart : ∃ s t : MetafileStream Bool,
    (metafileMachine Bool Zdelta.stored).run {} lateClients = some s ∧ s.Apart ∧
      Rounds Zdelta.stored 2 s t ∧ t.InStep := by
  have h₀ : (metafileMachine Bool Zdelta.stored).run {} lateClients = some _ := rfl
  have h₁ : (metafileMachine Bool Zdelta.stored).run {} (lateClients ++ timedRound [2]) = some _ := rfl
  have h₂ : (metafileMachine Bool Zdelta.stored).run {}
    ((lateClients ++ timedRound [2]) ++ timedRound [3]) = some _ := rfl
  have hround₁ := Round.of_run h₀ h₁ (by decide) ⟨rfl, by rintro (_ | _) c ⟨⟩ <;> rfl⟩
    ⟨rfl, by rintro (_ | _) c ⟨⟩ <;> rfl⟩ rfl
  have hround₂ := Round.of_run h₁ h₂ (by decide) ⟨rfl, by rintro (_ | _) c ⟨⟩ <;> rfl⟩
    ⟨rfl, by rintro (_ | _) c ⟨⟩ <;> rfl⟩ rfl
  have hrounds := ((Rounds.zero _).succ hround₁).succ hround₂
  have hreach := Machine.Reachable.run (.initial rfl) h₀
  have hin := fun hapart =>
    ((resynchronised_iff Zdelta.stored_lossless hreach (le_refl 2) hrounds).mpr
      (.inr (.inl hapart))).1
  refine ⟨_, _, h₀, ?_, hrounds, hin ?_⟩
  all_goals
    rintro (_ | _) k ⟨⟩
    · decide
    · decide

/-- A client that joins a running stream with another client in step: after two rounds the two
are not in step. -/
theorem late_client_not_in_step : ∃ s t : MetafileStream Bool,
    (metafileMachine Bool Zdelta.stored).run {}
        [.join false 0, .close (some [1]), .wake, .finish, .deliver false, .reply 0, .join true 1] =
      some s ∧
    Rounds Zdelta.stored 2 s t ∧ ¬ t.InStep := by
  have h₀ : (metafileMachine Bool Zdelta.stored).run {}
    [.join false 0, .close (some [1]), .wake, .finish, .deliver false, .reply 0, .join true 1] =
      some _ := rfl
  have h₁ : (metafileMachine Bool Zdelta.stored).run {}
    ([.join false 0, .close (some [1]), .wake, .finish, .deliver false, .reply 0, .join true 1] ++
      [.close (some [2]), .wake, .finish, .deliver false, .deliver true, .reply 0, .reply 0]) =
      some _ := rfl
  have h₂ : (metafileMachine Bool Zdelta.stored).run {}
    (([.join false 0, .close (some [1]), .wake, .finish, .deliver false, .reply 0, .join true 1] ++
      [.close (some [2]), .wake, .finish, .deliver false, .deliver true, .reply 0, .reply 0]) ++
      [.close (some [3]), .wake, .finish, .deliver false, .deliver true, .reply 0, .reply 0]) =
      some _ := rfl
  have hround₁ := Round.of_run h₀ h₁ (by decide) ⟨rfl, by rintro (_ | _) c ⟨⟩ <;> rfl⟩
    ⟨rfl, by rintro (_ | _) c ⟨⟩ <;> rfl⟩ rfl
  have hround₂ := Round.of_run h₁ h₂ (by decide) ⟨rfl, by rintro (_ | _) c ⟨⟩ <;> rfl⟩
    ⟨rfl, by rintro (_ | _) c ⟨⟩ <;> rfl⟩ rfl
  refine ⟨_, _, h₀, ((Rounds.zero _).succ hround₁).succ hround₂, fun hin => ?_⟩
  have hout := hin true 1 rfl
  exact absurd hout (by decide)

end MetafileStream

end Multicrew.Gauge
