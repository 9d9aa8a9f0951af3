import Multicrew.Core.FsuipcModule
import Multicrew.Library.Machine
import Multicrew.Library.Memory

/-!
# The simulators of a host and a client

The two ends of the FSUIPC channel over a whole session: the host's simulator with its watches, the
channel, which keeps the order and loses nothing, and a client that writes what it receives into its
own simulator. Both modules may come from earlier sessions in any state. FSUIPC reads and writes the
simulator's memory; which entries it takes and whether it processes a request is up to it.
-/

namespace Multicrew.Core

open Multicrew.Library

namespace FsuipcWatch

/-- The variable a watch reads. -/
def window (w : FsuipcWatch) : ℕ × ℕ := (w.id.toNat, w.size.toNat)

/-- The bytes a request reads for a watch. -/
def value (w : FsuipcWatch) (memory : ℕ → UInt8) : List UInt8 :=
  Memory.window memory w.id.toNat w.size.toNat

/-- The packet for the value of a watch. -/
def packet (w : FsuipcWatch) (memory : ℕ → UInt8) : FsuipcPacket := ⟨w.id, w.size, w.value memory⟩

end FsuipcWatch

namespace FsuipcPacket

/-- The variable a packet sets. -/
def window (packet : FsuipcPacket) : ℕ × ℕ := (packet.id.toNat, packet.size.toNat)

/-- The simulator after FSUIPC processes the write of a packet. -/
def writeTo (memory : ℕ → UInt8) (packet : FsuipcPacket) : ℕ → UInt8 :=
  Memory.write memory packet.id.toNat (packet.data.take packet.size.toNat)

end FsuipcPacket

/-- Both ends of the channel. `seen` is the host's simulator as its watches read it last, and `sent`
the variables sent so far. -/
structure FsuipcMirror where
  host : FsuipcModule
  hostSim : ℕ → UInt8
  link : List FsuipcPacket := []
  client : FsuipcModule
  clientSim : ℕ → UInt8
  seen : ℕ → UInt8
  sent : List (ℕ × ℕ) := []

/-- What may happen next in a session. -/
inductive FsuipcAction
  | simulate (memory : ℕ → UInt8)
  | watch (id : UInt16) (size : UInt8) (highPrio : Bool)
  | thread
  | sendFullState
  | hostFrame (accepts : ℕ → Bool) (processed : Bool)
  | deliver
  | clientFrame (accepts : ℕ → Bool) (processed : Bool)
  | clientSimulate (memory : ℕ → UInt8)

namespace FsuipcMirror

variable (s : FsuipcMirror)

/-- FSUIPC answers a request of the host with the bytes of its simulator. -/
def answers (accepts : ℕ → Bool) (processed : Bool) : FsuipcAnswers where
  accepts := accepts
  reads := fun i => match s.host.watches[i]? with
    | some w => w.value s.hostSim
    | none => []
  processed := processed

/-- A frame of the host reads its watches, if the thread asked for it. -/
def hostFrame (accepts : ℕ → Bool) (processed : Bool) : FsuipcMirror :=
  let frame := s.host.frameCallback .host (s.answers accepts processed)
  let packets := frame.sent.map Prod.fst
  { s with
    host := frame.state
    link := s.link ++ packets
    seen := if s.host.watchNow && s.host.fsuipc && processed then s.hostSim else s.seen
    sent := s.sent ++ packets.map FsuipcPacket.window }

/-- A frame of the client writes what waits. -/
def clientFrame (accepts : ℕ → Bool) (processed : Bool) : FsuipcMirror :=
  let frame := s.client.frameCallback .client { accepts := accepts, processed := processed }
  { s with client := frame.state, clientSim := frame.written.foldl FsuipcPacket.writeTo s.clientSim }

/-- The oldest packet on the channel arrives. -/
def deliver : Option FsuipcMirror :=
  match s.link with
  | [] => none
  | packet :: rest => some { s with link := rest, client := s.client.receive .client packet }

/-- One step of a session; only an arrival needs something on the channel. -/
def step (s : FsuipcMirror) : FsuipcAction → Option FsuipcMirror
  | .simulate memory => some { s with hostSim := memory }
  | .watch id size highPrio => some { s with host := s.host.watch id size highPrio }
  | .thread => some { s with host := s.host.threadProc .host }
  | .sendFullState => some { s with host := s.host.sendFullState }
  | .hostFrame accepts processed => some (s.hostFrame accepts processed)
  | .deliver => s.deliver
  | .clientFrame accepts processed => some (s.clientFrame accepts processed)
  | .clientSimulate memory => some { s with clientSim := memory }

/-- Sessions begin with an empty channel. -/
def session : Machine FsuipcMirror FsuipcAction where
  initial s := s.link = [] ∧ s.sent = []
  step := step

/-- FSUIPC takes all entries of a request it processes, a client's request is processed, and the
client's simulator leaves the watched variables alone. -/
def Proper (s : FsuipcMirror) : FsuipcAction → Prop
  | .hostFrame accepts processed =>
    processed = true → ∀ i < s.host.watches.length, accepts i = true
  | .clientFrame accepts processed =>
    s.client.fsuipc = false ∨ s.client.todo = [] ∨
      (processed = true ∧ ∀ i < s.client.todo.length, accepts i = true)
  | .clientSimulate memory =>
    Memory.Agree (s.host.watches.map FsuipcWatch.window) memory s.clientSim
  | _ => True

/-- The client's simulator once all that waits and all on the channel is written. -/
def incoming : ℕ → UInt8 := (s.client.todo ++ s.link).foldl FsuipcPacket.writeTo s.clientSim

/-- The packets of a frame that reads all watches: of those that changed, or of all. -/
def due : List FsuipcPacket :=
  (s.host.watches.filter fun w => s.host.nextIsFullSend || w.oldData != w.value s.hostSim).map
    fun w => w.packet s.hostSim

/-- What a variable sent so far is known by: a watch holds the value it was read with last, and the
client has the value, or will. -/
structure Mirrored : Prop where
  watched : ∀ v ∈ s.sent, ∃ w ∈ s.host.watches, w.window = v ∧ w.oldData = w.value s.seen
  agree : Memory.Agree s.sent s.incoming s.seen

end FsuipcMirror

/-! ### Requests -/

namespace FsuipcWatch

/-- Sent or not, the value read becomes the old one. -/
theorem process_fst (w : FsuipcWatch) (fullSend : Bool) :
    (w.process fullSend).1 = { w with oldData := w.data } := by
  unfold process
  split
  · rfl
  · rename_i hsame
    simp only [Bool.or_eq_true, bne_iff_ne, not_or, not_not] at hsame
    exact congrArg (fun old => { w with oldData := old }) hsame.2

end FsuipcWatch

namespace FsuipcModule

/-- A request that is not processed reads nothing. -/
theorem updateFrom_failed {answers : FsuipcAnswers} (hprocessed : answers.processed = false) (k : ℕ)
    (watches : List FsuipcWatch) : updateFrom answers k watches = watches := by
  induction watches generalizing k with
  | nil => rfl
  | cons w rest ih => simp [updateFrom, ih, FsuipcWatch.update, hprocessed]

/-- A request that takes all entries reads all watches. -/
theorem updateFrom_processed {answers : FsuipcAnswers} (hprocessed : answers.processed = true)
    {memory : ℕ → UInt8} {k : ℕ} {watches : List FsuipcWatch}
    (haccepts : ∀ i < watches.length, answers.accepts (k + i) = true)
    (hreads : ∀ i w, watches[i]? = some w → answers.reads (k + i) = w.value memory) :
    updateFrom answers k watches = watches.map fun w => { w with data := w.value memory } := by
  induction watches generalizing k with
  | nil => rfl
  | cons w rest ih =>
    have hfirst := hreads 0 w rfl
    have htake := haccepts 0 (by simp)
    have hrest := ih (k := k + 1)
      (fun i hi => by
        rw [Nat.add_right_comm]
        exact haccepts (i + 1) (by simpa using hi))
      (fun i v hv => by
        rw [Nat.add_right_comm]
        exact hreads (i + 1) v (by simpa using hv))
    simp only [Nat.add_zero] at hfirst htake
    simp only [updateFrom, FsuipcWatch.update, hprocessed, htake, hfirst, hrest, Bool.and_self,
      if_true, List.map_cons]

/-- Every watch keeps the value it was read with. -/
theorem processAll_fst (fullSend : Bool) (watches : List FsuipcWatch) :
    (processAll fullSend watches).1 = watches.map fun w => { w with oldData := w.data } := by
  induction watches with
  | nil => rfl
  | cons w rest ih => simp only [processAll, ih, FsuipcWatch.process_fst, List.map_cons]

/-- What is sent are the values of the watches that changed, or of all. -/
theorem processAll_snd (fullSend : Bool) (watches : List FsuipcWatch) :
    (processAll fullSend watches).2.map Prod.fst =
      (watches.filter fun w => fullSend || w.oldData != w.data).map fun w =>
        ⟨w.id, w.size, w.data⟩ := by
  induction watches with
  | nil => rfl
  | cons w rest ih =>
    rw [List.filter_cons]
    by_cases hsend : (fullSend || w.oldData != w.data) = true
    · simp only [processAll, FsuipcWatch.process, hsend, if_true, Option.map_some,
        Option.toList_some, List.cons_append, List.nil_append, List.map_cons, ih]
    · simp only [processAll, FsuipcWatch.process, hsend, if_false, Option.map_none,
        Option.toList_none, List.nil_append, ih, Bool.false_eq_true]

end FsuipcModule

namespace FsuipcPacket

variable {packets : List FsuipcPacket} {source : ℕ → UInt8}

/-- Packets with the values of a simulator bring them into another one. -/
theorem foldl_writeTo
    (h : ∀ packet ∈ packets, packet.data = Memory.window source packet.id.toNat packet.size.toNat)
    (memory : ℕ → UInt8) :
    packets.foldl writeTo memory = Memory.refresh memory source (packets.map window) := by
  induction packets generalizing memory with
  | nil => rfl
  | cons packet rest ih =>
    have hdata := h packet List.mem_cons_self
    have hwrite : writeTo memory packet =
        Memory.write memory packet.window.1
          (Memory.window source packet.window.1 packet.window.2) := by
      rw [writeTo, hdata, List.take_of_length_le (by simp)]
      rfl
    rw [List.foldl_cons, ih (fun p hp => h p (List.mem_cons_of_mem packet hp)), hwrite]
    rfl

/-- Where two simulators agree, they agree after the same writes. -/
theorem foldl_writeTo_congr {m m' : ℕ → UInt8} {a : ℕ} (h : m a = m' a) :
    packets.foldl writeTo m a = packets.foldl writeTo m' a := by
  induction packets generalizing m m' with
  | nil => exact h
  | cons packet rest ih => exact ih (Memory.write_congr _ _ h)

end FsuipcPacket

namespace FsuipcMirror

variable {s : FsuipcMirror}

/-! ### What frames do -/

/-- A frame of the host that reads its watches sends what is due. -/
theorem hostFrame_reads (hwatch : s.host.watchNow = true) (hfsuipc : s.host.fsuipc = true)
    {accepts : ℕ → Bool} (haccepts : ∀ i < s.host.watches.length, accepts i = true) :
    s.hostFrame accepts true =
      { s with
        host :=
          { s.host with
            watchNow := false
            nextIsFullSend := false
            watches := s.host.watches.map fun w =>
              { w with data := w.value s.hostSim, oldData := w.value s.hostSim } }
        link := s.link ++ s.due
        seen := s.hostSim
        sent := s.sent ++ s.due.map FsuipcPacket.window } := by
  have hread : FsuipcModule.updateFrom (s.answers accepts true) 0 s.host.watches =
      s.host.watches.map fun w => { w with data := w.value s.hostSim } := by
    refine FsuipcModule.updateFrom_processed rfl (fun i hi => ?_) (fun i w hw => ?_)
    · rw [Nat.zero_add]
      exact haccepts i hi
    · simp only [answers, Nat.zero_add, hw]
  have hsent : ((FsuipcModule.processAll s.host.nextIsFullSend
      (s.host.watches.map fun w => { w with data := w.value s.hostSim })).2).map Prod.fst =
        s.due := by
    rw [FsuipcModule.processAll_snd, due, List.filter_map, List.map_map]
    rfl
  have hprocessed : (s.answers accepts true).processed = true := rfl
  simp only [hostFrame, FsuipcModule.frameCallback, hwatch, hfsuipc, Bool.and_self, if_true, hread,
    hprocessed, hsent, FsuipcModule.processAll_fst, List.map_map, Function.comp_def]

/-- A frame of the host that does not read leaves everything but the thread's wish. -/
theorem hostFrame_idle {accepts : ℕ → Bool} {processed : Bool}
    (h : (s.host.watchNow && s.host.fsuipc && processed) = false) :
    ∃ watchNow, s.hostFrame accepts processed =
      { s with host := { s.host with watchNow := watchNow } } := by
  have hprocessed : (s.answers accepts processed).processed = processed := rfl
  by_cases hfires : (s.host.watchNow && s.host.fsuipc) = true
  · have hfailed : processed = false := by simpa [hfires] using h
    subst hfailed
    refine ⟨false, ?_⟩
    simp only [hostFrame, FsuipcModule.frameCallback, hfires, if_true, hprocessed,
      Bool.false_eq_true, if_false, Bool.and_false, List.map_nil, List.append_nil,
      FsuipcModule.updateFrom_failed hprocessed]
  · refine ⟨s.host.watchNow, ?_⟩
    simp only [hostFrame, FsuipcModule.frameCallback, hfires, Bool.false_and, Bool.false_eq_true,
      if_false, List.map_nil, List.append_nil]

/-- A frame of the client does not change what its simulator comes to. -/
theorem incoming_clientFrame {accepts : ℕ → Bool} {processed : Bool}
    (h : s.client.fsuipc = false ∨ s.client.todo = [] ∨
      (processed = true ∧ ∀ i < s.client.todo.length, accepts i = true)) :
    (s.clientFrame accepts processed).incoming = s.incoming := by
  by_cases hidle : s.client.fsuipc = false ∨ s.client.todo = []
  · simp only [clientFrame, incoming, s.client.frameCallback_client_idle hidle, List.foldl_nil]
  · obtain ⟨hfsuipc, htodo⟩ := not_or.mp hidle
    obtain ⟨hprocessed, haccepts⟩ := (h.resolve_left hfsuipc).resolve_left htodo
    have hrequest := (FsuipcModule.write_request_eq_iff accepts s.client.todo).mpr haccepts
    subst hprocessed
    simp only [clientFrame, incoming,
      s.client.frameCallback_client (by simpa using hfsuipc) htodo, if_true, hrequest,
      List.foldl_append, List.nil_append]

/-- An arrival does not change it either. -/
theorem incoming_deliver {t : FsuipcMirror} (h : s.deliver = some t) :
    t.incoming = s.incoming := by
  unfold deliver at h
  cases hlink : s.link with
  | nil => simp [hlink] at h
  | cons packet rest =>
    simp only [hlink, Option.some.injEq] at h
    subst h
    simp only [incoming, FsuipcModule.receive, hlink, List.append_assoc, List.cons_append,
      List.nil_append]

/-- The packets that are due bring what the host's simulator holds. -/
theorem foldl_due (memory : ℕ → UInt8) :
    s.due.foldl FsuipcPacket.writeTo memory =
      Memory.refresh memory s.hostSim (s.due.map FsuipcPacket.window) := by
  refine FsuipcPacket.foldl_writeTo (fun packet hpacket => ?_) memory
  obtain ⟨w, -, rfl⟩ := List.mem_map.mp hpacket
  rfl

/-- A packet is due for the variable of a watch whose value changed. -/
theorem mem_due {w : FsuipcWatch} (hw : w ∈ s.host.watches)
    (hchanged : s.host.nextIsFullSend = true ∨ w.oldData ≠ w.value s.hostSim) :
    w.window ∈ s.due.map FsuipcPacket.window := by
  refine List.mem_map.mpr ⟨w.packet s.hostSim, List.mem_map.mpr ⟨w, ?_, rfl⟩, rfl⟩
  refine List.mem_filter.mpr ⟨hw, ?_⟩
  simpa using hchanged

/-! ### Sessions -/

/-- A variable that is not sent again has not changed since it was read last. -/
theorem Mirrored.not_due (h : s.Mirrored) (v : ℕ × ℕ) (hv : v ∈ s.sent)
    (hnot : v ∉ s.due.map FsuipcPacket.window) :
    Memory.window s.seen v.1 v.2 = Memory.window s.hostSim v.1 v.2 := by
  obtain ⟨w, hw, rfl, hold⟩ := h.watched v hv
  have hsame : w.oldData = w.value s.hostSim := by
    by_contra hchanged
    exact hnot (mem_due hw (.inr hchanged))
  exact hold.symm.trans hsame

/-- Every proper step keeps what is known of the variables sent. -/
theorem Mirrored.step {t : FsuipcMirror} {a : FsuipcAction} (h : s.Mirrored) (hproper : s.Proper a)
    (hstep : s.step a = some t) : t.Mirrored := by
  cases a with
  | simulate memory =>
    cases hstep
    exact ⟨h.watched, h.agree⟩
  | watch id size highPrio =>
    cases hstep
    refine ⟨fun v hv => ?_, h.agree⟩
    obtain ⟨w, hw, hvalue⟩ := h.watched v hv
    exact ⟨w, List.mem_append_left _ hw, hvalue⟩
  | thread =>
    cases hstep
    exact ⟨h.watched, h.agree⟩
  | sendFullState =>
    cases hstep
    exact ⟨h.watched, h.agree⟩
  | hostFrame accepts processed =>
    cases hstep
    by_cases hreads : (s.host.watchNow && s.host.fsuipc && processed) = true
    · simp only [Bool.and_eq_true] at hreads
      obtain ⟨⟨hwatch, hfsuipc⟩, rfl⟩ := hreads
      rw [hostFrame_reads hwatch hfsuipc (hproper rfl)]
      constructor
      · intro v hv
        have hw : ∃ w ∈ s.host.watches, w.window = v := by
          rcases List.mem_append.mp hv with hold | hdue
          · obtain ⟨w, hw, hwindow, -⟩ := h.watched v hold
            exact ⟨w, hw, hwindow⟩
          · obtain ⟨packet, hpacket, rfl⟩ := List.mem_map.mp hdue
            obtain ⟨w, hw, rfl⟩ := List.mem_map.mp hpacket
            exact ⟨w, List.mem_of_mem_filter hw, rfl⟩
        obtain ⟨w, hw, rfl⟩ := hw
        exact ⟨_, List.mem_map.mpr ⟨w, hw, rfl⟩, rfl, rfl⟩
      · have hincoming : ((s.client.todo ++ (s.link ++ s.due)).foldl FsuipcPacket.writeTo
            s.clientSim) = Memory.refresh s.incoming s.hostSim (s.due.map FsuipcPacket.window) := by
          rw [← List.append_assoc, List.foldl_append, foldl_due, incoming]
        simp only [incoming, hincoming]
        exact h.agree.refresh h.not_due
    · obtain ⟨watchNow, hidle⟩ := @hostFrame_idle s accepts processed (by simpa using hreads)
      rw [hidle]
      exact ⟨h.watched, h.agree⟩
  | deliver =>
    have hincoming := incoming_deliver hstep
    simp only [FsuipcMirror.step, FsuipcMirror.deliver] at hstep
    cases hlink : s.link with
    | nil => simp [hlink] at hstep
    | cons packet rest =>
      simp only [hlink, Option.some.injEq] at hstep
      subst hstep
      exact ⟨h.watched, hincoming ▸ h.agree⟩
  | clientFrame accepts processed =>
    cases hstep
    have hincoming := incoming_clientFrame hproper
    exact ⟨h.watched, hincoming ▸ h.agree⟩
  | clientSimulate memory =>
    cases hstep
    refine ⟨h.watched, fun v hv => ?_⟩
    obtain ⟨w, hw, rfl, -⟩ := h.watched v hv
    have hmemory := hproper w.window (List.mem_map_of_mem hw)
    rw [← h.agree w.window hv]
    rw [Memory.window_eq_iff] at hmemory ⊢
    exact fun i hi => FsuipcPacket.foldl_writeTo_congr (hmemory i hi)

/-- In every session whose steps are proper, the client's simulator agrees with what the host's
watches read last, in all variables sent so far, once it has written what is under way. -/
theorem fsuipc_mirrored {t : FsuipcMirror} {as : List FsuipcAction} (hinit : session.initial s)
    (hproper : session.Along Proper s as) (hrun : session.run s as = some t) : t.Mirrored := by
  have hfirst : s.Mirrored := by
    obtain ⟨-, hsent⟩ := hinit
    constructor
    · intro v hv
      rw [hsent] at hv
      exact absurd hv List.not_mem_nil
    · intro v hv
      rw [hsent] at hv
      exact absurd hv List.not_mem_nil
  exact hproper.invariant (fun _ _ _ h ha hstep => h.step ha hstep) hfirst hrun

/-- Both simulators hold zeros, and the client's pointer is set. -/
def zeroed : FsuipcMirror where
  host := {}
  hostSim := fun _ => 0
  client := { fsuipc := true }
  clientSim := fun _ => 0
  seen := fun _ => 0

/-- A variable of two bytes that is watched changes on the host and is sent; an address beside it
changes on the client. -/
def switched : List FsuipcAction :=
  [.watch 0x0b4c 2 false, .simulate fun a => if a = 0x0b4c then 1 else 0, .thread,
    .hostFrame (fun _ => true) true, .clientSimulate fun a => if a = 0x0b4e then 1 else 0]

/-- The run keeps to the conditions. -/
theorem switched_proper : session.Along Proper zeroed switched := by
  refine ⟨trivial, trivial, trivial, fun _ _ _ => rfl, fun v hv => ?_, trivial⟩
  rw [List.mem_singleton.mp hv]
  decide

/-- The variable switched is one that was sent. -/
theorem fsuipc_mirrored_switched :
    ∃ t, session.run zeroed switched = some t ∧ t.sent = [(0x0b4c, 2)] ∧ t.Mirrored :=
  ⟨_, rfl, by decide, @fsuipc_mirrored zeroed _ switched ⟨rfl, rfl⟩ switched_proper rfl⟩

/-- The channel runs dry. -/
theorem run_deliver (s : FsuipcMirror) :
    session.run s (List.replicate s.link.length .deliver) =
      some { s with link := [], client := { s.client with todo := s.client.todo ++ s.link } } := by
  generalize hlink : s.link = link
  induction link generalizing s with
  | nil =>
    cases s
    simp only at hlink
    simp [Machine.run, hlink]
  | cons packet rest ih =>
    have hstep : session.step s .deliver =
        some { s with link := rest, client := s.client.receive .client packet } := by
      simp only [session, step, deliver, hlink]
    rw [List.length_cons, List.replicate_succ, Machine.run, hstep, Option.bind_some, ih _ rfl]
    simp only [FsuipcModule.receive, List.append_assoc, List.cons_append, List.nil_append]

/-- One turn of the thread and one frame of each side, with all arrivals between them. -/
def exchange (n : ℕ) : List FsuipcAction :=
  [.thread, .hostFrame (fun _ => true) true] ++ List.replicate n .deliver ++
    [.clientFrame (fun _ => true) true]

/-- What an exchange does if the pointers of both sides are set. -/
theorem run_exchange (s : FsuipcMirror) (hhost : s.host.fsuipc = true)
    (hclient : s.client.fsuipc = true) :
    ∃ t, session.run s (exchange (s.link ++ s.due).length) = some t ∧
      t.hostSim = s.hostSim ∧
      t.clientSim =
        Memory.refresh s.incoming s.hostSim (s.due.map FsuipcPacket.window) := by
  let asked : FsuipcMirror := { s with host := { s.host with watchNow := true } }
  obtain ⟨read, hread⟩ : ∃ read, read = asked.hostFrame (fun _ => true) true := ⟨_, rfl⟩
  have hreads := hread.trans (@hostFrame_reads asked rfl hhost (fun _ => true) fun _ _ => rfl)
  have hlink : read.link = s.link ++ s.due := by rw [hreads]; rfl
  have hclient' : read.client = s.client := by rw [hreads]
  have hsim : read.hostSim = s.hostSim := by rw [hreads]
  have hincomingRead : read.incoming =
      Memory.refresh s.incoming s.hostSim (s.due.map FsuipcPacket.window) := by
    have hclientSim : read.clientSim = s.clientSim := by rw [hreads]
    rw [incoming, hlink, hclient', hclientSim, ← List.append_assoc, List.foldl_append, foldl_due,
      incoming]
  let arrived : FsuipcMirror :=
    { read with link := [], client := { read.client with todo := read.client.todo ++ read.link } }
  have harrived : session.run read (List.replicate (s.link ++ s.due).length .deliver) =
      some arrived := hlink ▸ run_deliver read
  have hincoming : arrived.incoming = read.incoming := by
    simp only [arrived, incoming, List.append_nil]
  let written := arrived.clientFrame (fun _ => true) true
  have hwrites := arrived.client.frameCallback_fsuipc
    (by simp only [arrived, hclient']; exact hclient) .client { accepts := fun _ => true }
  have hwritten : written.incoming = written.clientSim := by
    have htodo : written.client.todo = [] := hwrites.2.1
    have hempty : written.link = [] := rfl
    rw [incoming, htodo, hempty, List.append_nil, List.foldl_nil]
  refine ⟨written, ?_, hsim, ?_⟩
  · have hfirst : session.run s [.thread, .hostFrame (fun _ => true) true] = some read :=
      hread ▸ rfl
    rw [exchange, Machine.run_append, Machine.run_append, hfirst, Option.bind_some, harrived]
    rfl
  · rw [← hwritten, ← hincomingRead, ← hincoming]
    exact incoming_clientFrame (.inr (.inr ⟨rfl, fun _ _ => rfl⟩))

/-- From every state a proper session reaches, one exchange makes the client's simulator agree with
the host's in all variables sent so far, and in all watched ones if a full state was asked for. -/
theorem fsuipc_settles {t : FsuipcMirror} {as : List FsuipcAction} (hinit : session.initial s)
    (hproper : session.Along Proper s as) (hrun : session.run s as = some t)
    (hhost : t.host.fsuipc = true) (hclient : t.client.fsuipc = true) :
    ∃ u, session.run t (exchange (t.link ++ t.due).length) = some u ∧ u.hostSim = t.hostSim ∧
      Memory.Agree t.sent u.clientSim u.hostSim ∧
      (t.host.nextIsFullSend = true →
        Memory.Agree (t.host.watches.map FsuipcWatch.window) u.clientSim u.hostSim) := by
  have hmirrored := fsuipc_mirrored hinit hproper hrun
  obtain ⟨u, hu, hsim, hclientSim⟩ := t.run_exchange hhost hclient
  refine ⟨u, hu, hsim, ?_, fun hfull => ?_⟩
  · have hrefresh := hmirrored.agree.refresh (hmirrored.not_due)
    rw [hclientSim, hsim]
    exact hrefresh.subset (List.subset_append_left _ _)
  · have hnone : Memory.Agree [] t.incoming t.seen := fun v hv => absurd hv List.not_mem_nil
    have hrefresh : Memory.Agree ([] ++ t.due.map FsuipcPacket.window)
        (Memory.refresh t.incoming t.hostSim (t.due.map FsuipcPacket.window)) t.hostSim :=
      hnone.refresh fun v hv => absurd hv List.not_mem_nil
    rw [hclientSim, hsim]
    refine hrefresh.subset fun v hv => ?_
    obtain ⟨w, hw, rfl⟩ := List.mem_map.mp hv
    exact mem_due hw (.inl hfull)

/-- The client's simulator takes over the variable switched. -/
theorem fsuipc_settles_switched :
    ∃ t u, session.run zeroed switched = some t ∧
      session.run t (exchange (t.link ++ t.due).length) = some u ∧
      Memory.Agree [(0x0b4c, 2)] u.clientSim u.hostSim := by
  obtain ⟨u, hu, -, hsent, -⟩ :=
    @fsuipc_settles zeroed _ switched ⟨rfl, rfl⟩ switched_proper rfl rfl rfl
  exact ⟨_, u, rfl, hu, hsent⟩

end FsuipcMirror

end Multicrew.Core
