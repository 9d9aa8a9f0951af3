import Multicrew.Core.FsuipcModule
import Multicrew.Core.PositionModule
import Multicrew.Gauge.Metafile
import Multicrew.Library.Observation

/-!
# What one session leaves to the next

`MulticrewCore::start` and `stop` delimit the sessions of one process. The modules live as long
as the process: the FSUIPC module with its queue, the position module with its reference, and
the metafile decompressors with their counters and frames. Here is what the packets and frames of
a session make them do to the simulator, and when a session is as it would be in a process whose
gauges are the same but which has had no session before.
-/

namespace Multicrew.Gauge

open Multicrew.Core
open Multicrew.Library

/-- The parts of a process that outlive a session. -/
structure Process where
  mode : Mode := .idle
  fsuipc : FsuipcModule := {}
  position : PositionModule
  decompressors : List MetafileDecompressor := []

/-- A packet of one of the channels, as its channel decodes it. -/
inductive SessionPacket
  | fsuipc (packet : FsuipcPacket)
  | position (packet : PositionStruct)
  | metafile (channelNum : ℕ) (mdp : MetafileDataPacket)

/-- What happens to a process; the clock and the answers of FSUIPC come with the event. -/
inductive ProcessEvent
  | install
  | watch (id : UInt16) (size : UInt8) (highPrio : Bool)
  | start (host : Bool)
  | stop
  | turn
  | fullSend
  | frame (time : ℕ → Float) (position : PositionAnswers) (fsuipc : FsuipcAnswers)
  | receive (time : ℕ → Float) (packet : SessionPacket)

/-- What a process does to the simulator and to its metafile stream. -/
inductive SessionEffect
  | wrote (packet : FsuipcPacket)
  | extrapolated (reference : PositionStruct)
  | accepted (channelNum : ℕ) (reference : Bytes)
  | refused (channelNum : ℕ)
  deriving DecidableEq

/-- The event installs a gauge. -/
def ProcessEvent.isInstall : ProcessEvent → Bool
  | .install => true
  | _ => false

/-- The event starts a session. -/
def ProcessEvent.isStart : ProcessEvent → Bool
  | .start _ => true
  | _ => false

namespace MetafileDecompressor

/-- What a decompressor goes by: its counter, and the reference of the next packet. -/
def expects (d : MetafileDecompressor) : UInt32 × Option Bytes := (d.metafileCounter, d.reference)

/-- Whether a packet is accepted, and against which reference. -/
def verdict (d : MetafileDecompressor) (channelNum : ℕ) (mdp : MetafileDataPacket) :
    List SessionEffect :=
  if d.metafileCounter ≠ mdp.counter then [.refused channelNum]
  else (d.reference.map (.accepted channelNum)).toList

end MetafileDecompressor

namespace Process

variable (z : Zdelta) (turns : ℕ) (s : Process)

/-- A received packet at its channel. In `IdleMode` the protocol drops it; `none` is the access
to the frame a decompressor does not have. -/
def receive (time : ℕ → Float) : SessionPacket → Option Process
  | .fsuipc packet => some { s with fsuipc := s.fsuipc.receive s.mode packet }
  | .position packet => some { s with position := s.position.receive s.mode time packet }
  | .metafile channelNum mdp =>
    if s.mode = .idle then some s
    else
      match s.decompressors[channelNum]? with
      | none => some s
      | some d => (d.receive z mdp).map fun result =>
        { s with decompressors := s.decompressors.set channelNum result.1 }

/-- One event. A gauge with a new metafile number makes its channel; a session starts only when
the one before it was stopped. -/
def step : ProcessEvent → Option Process
  | .install => some { s with decompressors := s.decompressors ++ [{}] }
  | .watch id size highPrio => some { s with fsuipc := s.fsuipc.watch id size highPrio }
  | .start host =>
    match s.mode with
    | .idle =>
      let fsuipc := s.fsuipc.start
      some
        { s with
          mode := if host then .host else .client
          fsuipc := if host then fsuipc.sendFullState else fsuipc
          position := s.position.start }
    | _ => none
  | .stop => some { s with mode := .idle }
  | .turn => some { s with fsuipc := s.fsuipc.threadProc s.mode }
  | .fullSend => some { s with fsuipc := s.fsuipc.sendFullState }
  | .frame time position fsuipc =>
    some
      { s with
        position := (s.position.frameCallback turns s.mode time position).state
        fsuipc := (s.fsuipc.frameCallback s.mode fsuipc).state }
  | .receive time packet => s.receive z time packet

/-- What one event makes a process do. -/
def emit : ProcessEvent → List SessionEffect
  | .frame time position fsuipc =>
    ((s.position.frameCallback turns s.mode time position).reference.map .extrapolated).toList ++
      (s.fsuipc.frameCallback s.mode fsuipc).written.map .wrote
  | .receive _ (.metafile channelNum mdp) =>
    if s.mode = .idle then []
    else
      match s.decompressors[channelNum]? with
      | none => []
      | some d => d.verdict channelNum mdp
  | _ => []

/-- No session yet: nothing is queued, nothing extrapolated, and no metafile was received. -/
structure Fresh : Prop where
  mode : s.mode = .idle
  todo : s.fsuipc.todo = []
  extrapolate : s.position.extrapolate = false
  decompressors : ∀ d ∈ s.decompressors, d = {}

/-- Nothing of an earlier session is left that the next one, as host or as client, would use. -/
structure Forgotten (host : Bool) : Prop where
  client : host = false → s.fsuipc.todo = [] ∧ s.position.extrapolate = false
  counters : ∀ d ∈ s.decompressors, d.metafileCounter = 0

end Process

/-- The process as a machine; the delta coder and the bound on the loops of `deg_to_dir` are
parameters. -/
def processMachine (z : Zdelta) (turns : ℕ) : Machine Process ProcessEvent where
  initial s := s.Fresh
  step s := s.step z turns

/-- What a run of the process does. -/
def Process.effects (z : Zdelta) (turns : ℕ) (s : Process) (events : List ProcessEvent) :
    List SessionEffect :=
  (processMachine z turns).observe (Process.emit turns) s events

/-! ### Processes that behave alike -/

namespace MetafileDecompressor

variable {z : Zdelta} {d e : MetafileDecompressor}

/-- Decompressors that expect the same judge a packet alike. -/
theorem verdict_congr (h : d.expects = e.expects) (channelNum : ℕ) (mdp : MetafileDataPacket) :
    d.verdict channelNum mdp = e.verdict channelNum mdp := by
  obtain ⟨hcounter, href⟩ := Prod.mk.inj h
  simp only [verdict, hcounter, href]

/-- Decompressors that expect the same still do after the same packet. -/
theorem receive_congr (h : d.expects = e.expects) (mdp : MetafileDataPacket) :
    (d.receive z mdp).map (fun result => result.1.expects) =
      (e.receive z mdp).map fun result => result.1.expects := by
  obtain ⟨hcounter, href⟩ := Prod.mk.inj h
  unfold receive
  rw [hcounter, href]
  split
  · rfl
  · cases e.reference with
    | none => rfl
    | some ref => cases htar : z.uncompress ref mdp.buffer with
      | none => simp only [htar, Option.map_some, h]
      | some tar =>
        simp only [htar, Option.map_some, expects, reference]

end MetafileDecompressor

namespace Process

variable {z : Zdelta} {turns : ℕ} {s t : Process}

/-- Two processes in a session that cannot be told apart before the next one starts. -/
structure Alike (s t : Process) : Prop where
  mode : s.mode = t.mode
  fsuipc : s.fsuipc.fsuipc = true ∧ t.fsuipc.fsuipc = true
  position : s.position.fsuipc = true ∧ t.position.fsuipc = true
  client : s.mode = .client → s.fsuipc.todo = t.fsuipc.todo ∧
    s.position.extrapolate = t.position.extrapolate ∧
    (s.position.extrapolate = true → s.position.reference = t.position.reference)
  expects : s.decompressors.map (·.expects) = t.decompressors.map (·.expects)

/-- Alike processes stay alike in a frame and do the same to the simulator. -/
theorem Alike.frame (h : Alike s t) (time : ℕ → Float) (position : PositionAnswers)
    (fsuipc : FsuipcAnswers) :
    (processMachine z turns).Matches (emit turns) Alike s t (.frame time position fsuipc) := by
  obtain ⟨hf, hftodo, hfwritten⟩ := s.fsuipc.frameCallback_fsuipc h.fsuipc.1 s.mode fsuipc
  obtain ⟨hf', hftodo', hfwritten'⟩ := t.fsuipc.frameCallback_fsuipc h.fsuipc.2 t.mode fsuipc
  obtain ⟨hp, href⟩ := s.position.frameCallback_keeps turns s.mode time position
  obtain ⟨hp', href'⟩ := t.position.frameCallback_keeps turns t.mode time position
  obtain ⟨hex, hout⟩ :=
    s.position.frameCallback_extrapolates h.position.1 turns s.mode time position
  obtain ⟨hex', hout'⟩ :=
    t.position.frameCallback_extrapolates h.position.2 turns t.mode time position
  refine ⟨?_, h.mode, ⟨hf, hf'⟩, ⟨hp.trans h.position.1, hp'.trans h.position.2⟩, ?_, h.expects⟩
  · simp only [emit, hfwritten, hfwritten', hout, hout']
    rw [← h.mode]
    cases hmode : s.mode with
    | idle => simp
    | host => simp
    | client =>
      obtain ⟨htodo, hextra, hreference⟩ := h.client hmode
      simp only [htodo, ← hextra, true_and, beq_self_eq_true, Bool.and_true]
      cases hx : s.position.extrapolate with
      | false => rfl
      | true => rw [hreference hx]
  · intro hmode
    obtain ⟨htodo, hextra, hreference⟩ := h.client hmode
    refine ⟨?_, ?_, ?_⟩
    · simp only [hftodo, hftodo', htodo]
      rw [h.mode]
    · simp only [hex, hex', hextra]
      rw [h.mode]
    · intro hx
      simp only [hex, Bool.and_eq_true] at hx
      simp only [href, href']
      exact hreference hx.1

/-- Alike processes stay alike when they receive a packet, and judge a metafile alike. -/
theorem Alike.receive (h : Alike s t) (time : ℕ → Float) (packet : SessionPacket) :
    (processMachine z turns).Matches (emit turns) Alike s t (.receive time packet) := by
  cases packet with
  | fsuipc packet =>
    refine ⟨rfl, h.mode, ?_, h.position, ?_, h.expects⟩
    · simp only [FsuipcModule.receive]
      split <;> split <;> exact h.fsuipc
    · intro hmode
      obtain ⟨htodo, hposition⟩ := h.client hmode
      have hmode' : t.mode = .client := h.mode.symm.trans hmode
      refine ⟨?_, hposition⟩
      simp only [FsuipcModule.receive, show s.mode = .client from hmode, hmode', htodo]
  | position packet =>
    refine ⟨rfl, h.mode, h.fsuipc, ?_, ?_, h.expects⟩
    · exact ⟨(s.position.receive_fsuipc s.mode time packet).trans h.position.1,
        (t.position.receive_fsuipc t.mode time packet).trans h.position.2⟩
    · intro hmode
      have hmode₁ : s.mode = .client := hmode
      have hmode₂ : t.mode = .client := h.mode.symm.trans hmode
      obtain ⟨hex, href⟩ := s.position.receive_client time packet
      obtain ⟨hex', href'⟩ := t.position.receive_client time packet
      simp only [hmode₁, hmode₂]
      exact ⟨(h.client hmode).1, hex.trans hex'.symm, fun _ => href.trans href'.symm⟩
  | metafile channelNum mdp =>
    simp only [Machine.Matches, processMachine, Process.step, Process.receive, emit, ← h.mode]
    have hlookup : (s.decompressors[channelNum]?).map (·.expects) =
        (t.decompressors[channelNum]?).map (·.expects) := by
      rw [← List.getElem?_map, ← List.getElem?_map, h.expects]
    by_cases hmode : s.mode = .idle
    · simp only [hmode, if_true, true_and]
      exact h
    · simp only [hmode, if_false]
      cases hs : s.decompressors[channelNum]? with
      | none => cases ht : t.decompressors[channelNum]? with
        | none => exact ⟨rfl, h⟩
        | some e => simp [hs, ht] at hlookup
      | some d => cases ht : t.decompressors[channelNum]? with
        | none => simp [hs, ht] at hlookup
        | some e =>
          simp only [hs, ht, Option.map_some, Option.some.injEq] at hlookup
          have hreceive := MetafileDecompressor.receive_congr (z := z) hlookup mdp
          cases hd : d.receive z mdp with
          | none => cases he : e.receive z mdp with
            | none => simp only [hd, he, Option.map_none]
            | some result' => simp [hd, he] at hreceive
          | some result => cases he : e.receive z mdp with
            | none => simp [hd, he] at hreceive
            | some result' =>
              simp only [hd, he, Option.map_some, Option.some.injEq] at hreceive ⊢
              refine ⟨MetafileDecompressor.verdict_congr hlookup channelNum mdp, rfl, h.fsuipc,
                h.position, h.client, ?_⟩
              simp only [List.map_set, h.expects, hreceive]

/-- Alike processes are told apart by nothing but another start. -/
theorem Alike.step (h : Alike s t) {event : ProcessEvent} (hevent : event.isStart = false) :
    (processMachine z turns).Matches (emit turns) Alike s t event := by
  cases event with
  | install =>
    refine ⟨rfl, h.mode, h.fsuipc, h.position, h.client, ?_⟩
    simp only [List.map_append, h.expects]
  | watch id size highPrio => exact ⟨rfl, h.mode, ⟨rfl, rfl⟩, h.position, h.client, h.expects⟩
  | start host => cases hevent
  | stop => exact ⟨rfl, rfl, h.fsuipc, h.position, fun hmode => (by cases hmode), h.expects⟩
  | turn =>
    refine ⟨rfl, h.mode, ?_, h.position, ?_, h.expects⟩
    · simp only [FsuipcModule.threadProc]
      split <;> split <;> exact h.fsuipc
    · intro hmode
      have hmode' : t.mode = .client := h.mode.symm.trans hmode
      simpa only [FsuipcModule.threadProc, show s.mode = .client from hmode, hmode'] using
        h.client hmode
  | fullSend => exact ⟨rfl, h.mode, h.fsuipc, h.position, h.client, h.expects⟩
  | frame time position fsuipc => exact h.frame time position fsuipc
  | receive time packet => exact h.receive time packet

/-! ### Sessions -/

/-- `start` connects both modules to FSUIPC and leaves the queue, the reference and the
decompressors as they are. -/
theorem start_eq (hidle : s.mode = .idle) (host : Bool) :
    ∃ u, s.step z turns (.start host) = some u ∧
      u.mode = (if host then .host else .client) ∧
      u.fsuipc.fsuipc = true ∧ u.fsuipc.todo = s.fsuipc.todo ∧
      u.position = s.position.start ∧ u.decompressors = s.decompressors := by
  simp only [step, hidle]
  refine ⟨_, rfl, rfl, ?_, ?_, rfl, rfl⟩
  · cases host <;> rfl
  · cases host <;> rfl

/-- Decompressors at counter 0 expect a packet against zeros, whatever frame they keep. -/
theorem map_expects_of_counters {l : List MetafileDecompressor}
    (h : ∀ d ∈ l, d.metafileCounter = 0) :
    l.map (·.expects) = List.replicate l.length (0, some zeroReference) := by
  rw [List.eq_replicate_iff]
  refine ⟨List.length_map _, fun expected hexpected => ?_⟩
  obtain ⟨d, hd, rfl⟩ := List.mem_map.mp hexpected
  simp [MetafileDecompressor.expects, MetafileDecompressor.reference, h d hd]

/-- Starting from nothing that the session would use is like starting fresh. -/
theorem Forgotten.alike {host : Bool} {u v : Process} (hs : s.Forgotten host)
    (ht : t.Forgotten host) (hlength : s.decompressors.length = t.decompressors.length)
    (hidle : s.mode = .idle) (hidle' : t.mode = .idle)
    (hu : s.step z turns (.start host) = some u) (hv : t.step z turns (.start host) = some v) :
    Alike u v := by
  obtain ⟨u', hu', hmode, hf, htodo, hposition, hdecompressors⟩ := start_eq hidle host
  obtain ⟨v', hv', hmode', hf', htodo', hposition', hdecompressors'⟩ := start_eq hidle' host
  obtain rfl : u' = u := Option.some.inj (hu'.symm.trans hu)
  obtain rfl : v' = v := Option.some.inj (hv'.symm.trans hv)
  refine ⟨hmode.trans hmode'.symm, ⟨hf, hf'⟩, ?_, ?_, ?_⟩
  · rw [hposition, hposition']
    exact ⟨rfl, rfl⟩
  · intro hclient
    have hhost : host = false := by
      cases host with
      | false => rfl
      | true => simp [hmode] at hclient
    obtain ⟨hstodo, hsex⟩ := hs.client hhost
    obtain ⟨httodo, htex⟩ := ht.client hhost
    rw [hposition, hposition', htodo, htodo', hstodo, httodo]
    refine ⟨rfl, hsex.trans htex.symm, fun hex => ?_⟩
    exact absurd (hsex.symm.trans hex) Bool.false_ne_true
  · rw [hdecompressors, hdecompressors', map_expects_of_counters hs.counters,
      map_expects_of_counters ht.counters, hlength]

/-- A fresh process has nothing to forget. -/
theorem Fresh.forgotten (h : s.Fresh) (host : Bool) : s.Forgotten host where
  client _ := ⟨h.todo, h.extrapolate⟩
  counters d hd := by rw [h.decompressors d hd]

/-- Only a new metafile number makes a decompressor. -/
theorem step_length {event : ProcessEvent} (h : s.step z turns event = some t) :
    t.decompressors.length = s.decompressors.length + [event].countP (·.isInstall) := by
  cases event with
  | install =>
    cases h
    simp [ProcessEvent.isInstall]
  | start host =>
    simp only [step] at h
    split at h
    · cases h
      rfl
    · cases h
  | receive time packet =>
    cases packet with
    | metafile channelNum mdp =>
      simp only [step, receive] at h
      split at h
      · cases h
        rfl
      · split at h
        · cases h
          rfl
        · obtain ⟨result, -, rfl⟩ := Option.map_eq_some_iff.mp h
          exact List.length_set
    | fsuipc packet =>
      cases h
      rfl
    | position packet =>
      cases h
      rfl
  | watch id size highPrio =>
    cases h
    rfl
  | stop =>
    cases h
    rfl
  | turn =>
    cases h
    rfl
  | fullSend =>
    cases h
    rfl
  | frame time position fsuipc =>
    cases h
    rfl

/-- A run has made as many decompressors as it has installed. -/
theorem run_length {events : List ProcessEvent}
    (h : (processMachine z turns).run s events = some t) :
    t.decompressors.length = s.decompressors.length + events.countP (·.isInstall) := by
  induction events generalizing s with
  | nil =>
    simp only [Machine.run, Option.some.injEq] at h
    simp [h]
  | cons event rest ih =>
    obtain ⟨u, hu, hrest⟩ := Option.bind_eq_some_iff.mp h
    rw [ih hrest, step_length hu, Nat.add_assoc, ← List.countP_append, List.singleton_append]

/-- Installing gauges is no session. -/
theorem Fresh.run_installs (h : s.Fresh) {events : List ProcessEvent}
    (hevents : ∀ e ∈ events, e.isInstall = true)
    (hrun : (processMachine z turns).run s events = some t) : t.Fresh := by
  induction events generalizing s with
  | nil =>
    simp only [Machine.run, Option.some.injEq] at hrun
    exact hrun ▸ h
  | cons event rest ih =>
    obtain ⟨u, hu, hrest⟩ := Option.bind_eq_some_iff.mp hrun
    refine ih ?_ (fun e he => hevents e (List.mem_cons_of_mem event he)) hrest
    have hevent := hevents event List.mem_cons_self
    cases event with
    | install =>
      cases hu
      refine ⟨h.mode, h.todo, h.extrapolate, fun d hd => ?_⟩
      cases List.mem_append.mp hd with
      | inl hold => exact h.decompressors d hold
      | inr hnew => exact List.mem_singleton.mp hnew
    | _ => cases hevent

/-- The effects of a session's first event. -/
theorem effects_start_singleton {u v : Process} {event : ProcessEvent} {host : Bool}
    (hu : s.step z turns (.start host) = some u) (hv : u.step z turns event = some v) :
    s.effects z turns [.start host, event] = u.emit turns event := by
  rw [effects, Machine.observe_cons hu, Machine.observe_cons hv]
  simp [emit, Machine.observe]

/-- A frame in which FSUIPC does all it is asked: on a client it shows the reference and the
queue. -/
theorem emit_frame_client (hmode : s.mode = .client) (hfsuipc : s.fsuipc.fsuipc = true)
    (hposition : s.position.fsuipc = true) :
    s.emit turns (.frame (fun _ => 0) {} {}) =
      (if s.position.extrapolate then [.extrapolated s.position.reference] else []) ++
        s.fsuipc.todo.map .wrote := by
  obtain ⟨-, -, hwritten⟩ := s.fsuipc.frameCallback_fsuipc hfsuipc s.mode {}
  obtain ⟨-, hreference⟩ :=
    s.position.frameCallback_extrapolates hposition turns s.mode (fun _ => 0) {}
  have hall : (FsuipcModule.write (fun _ => true) 0 s.fsuipc.todo).1 = s.fsuipc.todo :=
    (FsuipcModule.write_request_eq_iff (fun _ => true) s.fsuipc.todo).mpr fun _ _ => rfl
  simp only [emit, hwritten, hreference]
  simp only [hmode, and_self, if_true, hall, beq_self_eq_true, Bool.and_true]
  cases s.position.extrapolate <;> rfl

/-- A keyframe shows whether the decompressor of its channel is at counter 0. -/
theorem emit_keyframe (hmode : s.mode ≠ .idle) {i : ℕ} {d : MetafileDecompressor}
    (hd : s.decompressors[i]? = some d) :
    s.emit turns (.receive (fun _ => 0) (.metafile i ⟨0, []⟩)) =
        (if d.metafileCounter = 0 then [.accepted i zeroReference] else [.refused i]) ∧
      ∃ u, s.step z turns (.receive (fun _ => 0) (.metafile i ⟨0, []⟩)) = some u := by
  simp only [emit, step, receive, hmode, if_false, hd, MetafileDecompressor.verdict,
    MetafileDecompressor.receive, MetafileDecompressor.reference]
  by_cases hcounter : d.metafileCounter = 0
  · simp only [hcounter, ne_eq, not_true_eq_false, if_true, if_false]
    refine ⟨rfl, ?_⟩
    cases z.uncompress zeroReference [] with
    | none => exact ⟨_, rfl⟩
    | some tar => exact ⟨_, rfl⟩
  · simp only [hcounter, ne_eq, not_false_eq_true, if_true, if_false]
    exact ⟨trivial, _, rfl⟩

/-- What an earlier session has left over shows in the first event of the next one. -/
theorem Forgotten.of_effects_eq {host : Bool} (hidle : s.mode = .idle) (ht : t.Fresh)
    (hlength : s.decompressors.length = t.decompressors.length)
    (h : ∀ event, event.isStart = false →
      s.effects z turns [.start host, event] = t.effects z turns [.start host, event]) :
    s.Forgotten host := by
  obtain ⟨u, hu, hmode, hf, htodo, hposition, hdecompressors⟩ :=
    @start_eq z turns s hidle host
  obtain ⟨v, hv, hmode', hf', htodo', hposition', hdecompressors'⟩ :=
    @start_eq z turns t ht.mode host
  refine ⟨fun hhost => ?_, fun d hd => ?_⟩
  · have hclient : u.mode = .client := by rw [hmode, hhost]; rfl
    have hclient' : v.mode = .client := by rw [hmode', hhost]; rfl
    have hframe := h (.frame (fun _ => 0) {} {}) rfl
    rw [effects_start_singleton hu rfl, effects_start_singleton hv rfl,
      emit_frame_client hclient hf (by rw [hposition]; rfl),
      emit_frame_client hclient' hf' (by rw [hposition']; rfl), htodo, htodo', ht.todo,
      hposition, hposition'] at hframe
    simp only [PositionModule.start, ht.extrapolate, Bool.false_eq_true, if_false, List.map_nil,
      List.append_nil, List.append_eq_nil_iff, List.map_eq_nil_iff] at hframe
    refine ⟨hframe.2, ?_⟩
    cases hex : s.position.extrapolate with
    | false => rfl
    | true => simp [hex] at hframe
  · obtain ⟨i, hi, rfl⟩ := List.mem_iff_getElem.mp hd
    have hlookup : u.decompressors[i]? = some s.decompressors[i] := by
      rw [hdecompressors]
      exact List.getElem?_eq_getElem hi
    have hi' : i < t.decompressors.length := hlength ▸ hi
    have hlookup' : v.decompressors[i]? = some {} := by
      rw [hdecompressors', List.getElem?_eq_getElem hi',
        ht.decompressors _ (List.getElem_mem hi')]
    have hsession : ∀ w : Process, w.mode = (if host then .host else .client) → w.mode ≠ .idle := by
      intro w hw
      rw [hw]
      cases host <;> decide
    obtain ⟨hemit, u', hu'⟩ := @emit_keyframe z turns u (hsession u hmode) i _ hlookup
    obtain ⟨hemit', v', hv'⟩ := @emit_keyframe z turns v (hsession v hmode') i _ hlookup'
    have hkeyframe := h (.receive (fun _ => 0) (.metafile i ⟨0, []⟩)) rfl
    rw [effects_start_singleton hu hu', effects_start_singleton hv hv', hemit, hemit'] at hkeyframe
    by_contra hcounter
    simp [hcounter] at hkeyframe

end Process

/-- A process whose memory held zeros. -/
def zeroProcess : Process where
  position :=
    { timediff := 0
      meanLatency := 0
      lastReferenceTime := 0
      reference := ⟨0, .replicate 3 0, .replicate 3 0⟩
      extrapolated := ⟨0, .replicate 3 0, .replicate 3 0⟩
      posVel := .replicate 3 0
      dirVel := .replicate 3 0 }

open Process in
/-- Whatever the earlier sessions of a process were, a session is as if there had been none exactly
when `start` finds nothing of them: for a client an empty FSUIPC queue and no reference to
extrapolate from, and in any case every metafile decompressor at counter 0. -/
theorem session_isolated_iff {z : Zdelta} {turns : ℕ} {p s t : Process}
    {before : List ProcessEvent} (hp : p.Fresh)
    (hs : (processMachine z turns).run p before = some s)
    (ht : (processMachine z turns).run p (before.filter (·.isInstall)) = some t)
    (hidle : s.mode = .idle) (host : Bool) :
    (∀ events, (∀ e ∈ events, e.isStart = false) →
      s.effects z turns (.start host :: events) = t.effects z turns (.start host :: events)) ↔
        s.Forgotten host := by
  have hlength : s.decompressors.length = t.decompressors.length := by
    rw [run_length hs, run_length ht, List.countP_filter]
    simp
  have hfresh : t.Fresh := hp.run_installs (fun e he => (List.mem_filter.mp he).2) ht
  constructor
  · intro h
    exact .of_effects_eq hidle hfresh hlength fun event hevent =>
      h [event] fun e he => List.mem_singleton.mp he ▸ hevent
  · intro hforgotten events hevents
    obtain ⟨u, hu, -⟩ := @start_eq z turns s hidle host
    obtain ⟨v, hv, -⟩ := @start_eq z turns t hfresh.mode host
    have halike := hforgotten.alike (hfresh.forgotten host) hlength hidle hfresh.mode hu hv
    rw [effects, effects, Machine.observe_cons hu, Machine.observe_cons hv]
    congr 1
    exact Machine.observe_eq (fun s t a hst ha => hst.step ha) halike hevents

/-- A session whose packets were shown in a frame, and after which the simulator draws once more,
leaves nothing to the next one. -/
theorem session_isolated_iff_shown :
    ∃ s t, (processMachine .stored 0).run zeroProcess
        [.install, .start false, .receive (fun _ => 0) (.fsuipc ⟨0x0b4c, 2, [1, 0]⟩),
          .receive (fun _ => 0) (.position ⟨5, .replicate 3 7, .replicate 3 0⟩),
          .frame (fun _ => 0) {} {}, .stop, .frame (fun _ => 0) {} {}] = some s ∧
      (processMachine .stored 0).run zeroProcess [.install] = some t ∧
      ∀ events, (∀ e ∈ events, e.isStart = false) →
        s.effects .stored 0 (.start false :: events) =
          t.effects .stored 0 (.start false :: events) := by
  refine ⟨_, _, rfl, rfl, ?_⟩
  refine (@session_isolated_iff .stored 0 zeroProcess _ _
    [.install, .start false, .receive (fun _ => 0) (.fsuipc ⟨0x0b4c, 2, [1, 0]⟩),
      .receive (fun _ => 0) (.position ⟨5, .replicate 3 7, .replicate 3 0⟩),
      .frame (fun _ => 0) {} {}, .stop, .frame (fun _ => 0) {} {}]
    ⟨rfl, rfl, rfl, fun d hd => by cases hd⟩ rfl rfl rfl false).mpr
      ⟨fun _ => ⟨rfl, rfl⟩, fun d hd => ?_⟩
  exact List.mem_singleton.mp hd ▸ rfl

/-- A client session that receives one packet of each kind and is stopped before a frame. -/
def shortSession : List ProcessEvent :=
  [.install, .start false,
    .receive (fun _ => 0) (.fsuipc ⟨0x0b4c, 2, [1, 0]⟩),
    .receive (fun _ => 0) (.position ⟨5, .replicate 3 7, .replicate 3 0⟩),
    .receive (fun _ => 0) (.metafile 0 ⟨0, [3]⟩), .stop]

/-- After the short session the next one, before it has received a position or an FSUIPC packet,
writes the old value and the old position, and takes a packet of the old metafile stream. -/
theorem shortSession_leaks :
    ∃ s t, (processMachine .stored 0).run zeroProcess shortSession = some s ∧
      (processMachine .stored 0).run zeroProcess [.install] = some t ∧
      s.effects .stored 0 [.start false, .frame (fun _ => 0) {} {},
          .receive (fun _ => 0) (.metafile 0 ⟨1, [4]⟩)] =
        [.extrapolated ⟨5, .replicate 3 7, .replicate 3 0⟩, .wrote ⟨0x0b4c, 2, [1, 0]⟩,
          .accepted 0 [3]] ∧
      t.effects .stored 0 [.start false, .frame (fun _ => 0) {} {},
          .receive (fun _ => 0) (.metafile 0 ⟨1, [4]⟩)] = [.refused 0] :=
  ⟨_, _, rfl, rfl, rfl, rfl⟩

end Multicrew.Gauge
