import Multicrew.Core.Connection
import Multicrew.Core.Signals
import Multicrew.Library.Sweep

/-!
# The registries of the core

The core keeps pointers to the callees that asked for a callback, to the channels, to the modules and
to the slots of its frame signal. Constructors and destructors of several classes put them there
and take them out. Objects are numbered, and a number is not used again, so a pointer to a destroyed
object stays recognisable. Parts of objects, such as the elements of a gauge, are objects of their own
whose construction and destruction are separate steps.
-/

namespace Multicrew.Core

open Std (TreeMap)
open Multicrew.Library

/-- The objects that registries point to, by what their constructors register: a `Gauge`; an element
or a `MetafileChannelImpl`; a `GaugeModule`; `FsuipcModule` or `PositionModule`; a `Connection`. -/
inductive ObjectKind
  | gauge (id : Str)
  | channel (id : Str)
  | gaugeModule (id : Str)
  | frameModule (id : Str)
  | connection
  deriving DecidableEq, Repr

/-- The id of the `NetworkChannel` an object is. -/
def ObjectKind.channelId : ObjectKind → Option Str
  | gauge id | channel id | frameModule id => some id
  | gaugeModule _ | connection => none

/-- The id of the `MulticrewModule` an object is. -/
def ObjectKind.moduleId : ObjectKind → Option Str
  | gaugeModule id | frameModule id => some id
  | gauge _ | channel _ | connection => none

/-- A connection with the number of the pointers that hold it and of its own references. -/
structure HeldConnection where
  con : Connection := {}
  holders : ℕ := 0
  refs : ℕ := 0

/-- The registries of `MulticrewCoreImpl`, and the objects constructed so far. -/
structure Registries (P : Type*) where
  protocol : ChannelProtocol P := {}
  modules : TreeMap Str ℕ := ∅
  frameSignal : Signal := {}
  asyncCallees : Finset ℕ := ∅
  iterator : Option (WithBot ℕ) := none
  objects : ℕ → Option ObjectKind := fun _ => none
  destroyed : ℕ → Bool := fun _ => false
  connections : ℕ → HeldConnection := fun _ => {}

/-- What can happen. `late` are the calls of `setState` by packets that arrive while a destructor
waits for the end of a connection. -/
inductive RegistryAction (P : Type*)
  | construct (c : ℕ) (kind : ObjectKind)
  | constructThrows (c : ℕ) (id : Str)
  | destroy (c : ℕ)
  | hold (c : ℕ)
  | drop (c : ℕ) (late : List SetState)
  | setState (c : ℕ) (call : SetState)
  | start (host : Bool)
  | stop
  | receive (m : Message P)
  | ackNewFrame
  | callbackAsync
  | next

namespace Registries

variable {P : Type*} (s : Registries P)

/-- An object that was constructed and not destroyed. -/
def Alive (c : ℕ) : Prop := (s.objects c).isSome ∧ s.destroyed c = false

instance (c : ℕ) : Decidable (s.Alive c) := inferInstanceAs (Decidable (_ ∧ _))

/-- `NetworkChannel::NetworkChannel` -/
def newChannel (c : ℕ) : Option Str → Registries P
  | none => s
  | some id => { s with protocol := (s.protocol.registerNetworkChannel c id).1 }

/-- `NetworkChannel::~NetworkChannel` -/
def deleteChannel (c : ℕ) : Option Str → Registries P
  | none => s
  | some id => { s with protocol := s.protocol.unregisterNetworkChannel c id }

/-- The map in `MulticrewCoreImpl::registerModule`. -/
def registerModule (c : ℕ) : Option Str → Registries P
  | none => s
  | some id => { s with modules := s.modules.insert id c }

/-- `MulticrewCoreImpl::unregisterModule` -/
def unregisterModule : Option Str → Registries P
  | none => s
  | some id => { s with modules := s.modules.erase id }

/-- The slot of a frame module connects to the signal of the core. -/
def connectSlot (c : ℕ) : ObjectKind → Registries P
  | .frameModule _ => { s with frameSignal := s.frameSignal.connect c c }
  | _ => s

/-- The destructor of the slot of a frame module. -/
def disconnectSlot (c : ℕ) : ObjectKind → Registries P
  | .frameModule _ => { s with frameSignal := s.frameSignal.disconnect c c }
  | _ => s

/-- The constructors of a new object, up to its first `SmartPtr`. -/
def construct (c : ℕ) (kind : ObjectKind) : Registries P :=
  (((({ s with
    objects := Function.update s.objects c (some kind)
    connections := Function.update s.connections c { holders := 1 } } : Registries P).registerModule
      c kind.moduleId).newChannel c kind.channelId).connectSlot c kind)

/-- The constructor of a `GaugeModule` is left by an exception inside `registerModule`; what has been
constructed of the object is destroyed, but not by `~MulticrewModule`. -/
def constructThrows (c : ℕ) (id : Str) : Registries P :=
  ({ s with
    objects := Function.update s.objects c (some (.gaugeModule id))
    destroyed := Function.update s.destroyed c true } : Registries P).registerModule c (some id)

/-- The destructors of an object, from the most derived class on. -/
def destroy (c : ℕ) (kind : ObjectKind) : Registries P :=
  ((({ s with destroyed := Function.update s.destroyed c true } : Registries P).disconnectSlot c
    kind).deleteChannel c kind.channelId).unregisterModule kind.moduleId

/-- `Connection::setState`, which may ask for a callback. -/
def setState (c : ℕ) (call : SetState) : Registries P :=
  let held := s.connections c
  let t := { s with
    connections := Function.update s.connections c { held with con := held.con.setState call } }
  if held.con.Disconnects call then
    { t with
      connections := Function.update s.connections c
        { held with con := held.con.setState call, refs := held.refs + 1 }
      asyncCallees := insert c t.asyncCallees }
  else t

/-- `Shared::deref` for one of the pointers that hold a connection. -/
def drop (c : ℕ) (late : List SetState) : Registries P :=
  let held := s.connections c
  let t := { s with
    connections := Function.update s.connections c { held with holders := held.holders - 1 } }
  if held.holders - 1 + held.refs = 0 then
    (late.foldl (fun s call => s.setState c call) t).destroy c .connection
  else t

/-- The callee an iterator stands at has returned; a connection gives its reference back. -/
def returned : WithBot ℕ → Registries P
  | none => s
  | some c =>
    if s.objects c = some .connection then
      let held := s.connections c
      let t := { s with
        connections := Function.update s.connections c { held with refs := held.refs - 1 } }
      if held.holders + (held.refs - 1) = 0 then t.destroy c .connection else t
    else s

/-- The iterator of `MulticrewCoreImpl::callbackAsync` moves on. -/
def next (it : WithBot ℕ) : Registries P :=
  let s := s.returned it
  match sweepNext s.asyncCallees it with
  | some c => { s with iterator := some (WithBot.some c) }
  | none => { s with iterator := none, asyncCallees := ∅ }

/-- The objects that get a packet. -/
def receivers (m : Message P) : List ℕ := (s.protocol.receive m).handed.flatMap (·.receivers)

/-- `Gauge::receive` asks for a callback. -/
def triggers (c : ℕ) : Bool := (s.objects c).any fun kind => kind matches .gauge _

/-- One step. Other threads wait for `callbackAsync` before they ask for a callback. -/
def step : RegistryAction P → Option (Registries P)
  | .construct c kind => if s.objects c = none then some (s.construct c kind) else none
  | .constructThrows c id => if s.objects c = none then some (s.constructThrows c id) else none
  | .destroy c =>
    match s.objects c with
    | some kind =>
      if s.Alive c ∧ kind ≠ .connection then some (s.destroy c kind) else none
    | none => none
  | .hold c =>
    if s.Alive c ∧ s.objects c = some .connection then
      some { s with
        connections := Function.update s.connections c
          { s.connections c with holders := (s.connections c).holders + 1 } }
    else none
  | .drop c late =>
    if s.Alive c ∧ s.objects c = some .connection ∧ 0 < (s.connections c).holders ∧
        (s.iterator = none ∨ late = []) then
      some (s.drop c late)
    else none
  | .setState c call =>
    if s.Alive c ∧ s.objects c = some .connection then some (s.setState c call) else none
  | .start host => some { s with protocol := (s.protocol.start host).state }
  | .stop => some { s with protocol := s.protocol.stop }
  | .receive m =>
    let callees := (s.receivers m).filter s.triggers
    if s.iterator = none ∨ callees = [] then
      some { s with
        protocol := (s.protocol.receive m).state
        asyncCallees := s.asyncCallees ∪ callees.toFinset }
    else none
  | .ackNewFrame => some s
  | .callbackAsync => if s.iterator = none then some { s with iterator := some ⊥ } else none
  | .next => s.iterator.map s.next

/-- The objects the core calls into through its registries. -/
def calls : RegistryAction P → List ℕ
  | .start host => (s.protocol.start host).fullState.map (·.2)
  | .receive m => s.receivers m ++ (s.protocol.receive m).fullState.map (·.2)
  | .ackNewFrame => s.frameSignal.callbacks
  | .next => (s.iterator.bind (sweepNext s.asyncCallees)).toList
  | _ => []

/-- A callee that is still to be called. -/
def Pending (c : ℕ) : Prop := c ∈ s.asyncCallees ∧ ∀ it, s.iterator = some it → it < WithBot.some c

/-- The registries hold only objects that are alive. -/
structure LiveOnly (s : Registries P) : Prop where
  asyncCallees : ∀ c, s.Pending c → s.Alive c
  channels : ∀ id, ∀ c ∈ s.protocol.receivers id, s.Alive c
  modules : ∀ (id : Str) c, s.modules[id]? = some c → s.Alive c
  frameSignal : ∀ c, c ∈ s.frameSignal.callbacks ∨ c ∈ s.frameSignal.slots → s.Alive c

/-- No gauge is destroyed while it is to be called, no constructor of a module throws, and no
connection becomes disconnected while it is being destroyed. -/
def Proper : RegistryAction P → Prop
  | .destroy c => ¬ s.Pending c
  | .constructThrows _ _ => False
  | .drop c late =>
    (s.connections c).holders - 1 + (s.connections c).refs = 0 →
      ConnectionRun.NoneDisconnects (s.connections c).con late
  | _ => True

end Registries

/-- The registries of a program from its start on. -/
def registryMachine (P : Type*) : Machine (Registries P) (RegistryAction P) where
  initial s := s = {}
  step := Registries.step

namespace Registries

variable {P : Type*} {s t : Registries P} {c c' : ℕ} {kind : ObjectKind} {id : Str}

/-! ### What constructors and destructors change -/

/-- A new object is of its kind. -/
@[simp] theorem construct_objects (s : Registries P) (c : ℕ) (kind : ObjectKind) :
    (s.construct c kind).objects = Function.update s.objects c (some kind) := by
  cases kind <;> rfl

/-- Its constructors destroy nothing. -/
@[simp] theorem construct_destroyed (s : Registries P) (c : ℕ) (kind : ObjectKind) :
    (s.construct c kind).destroyed = s.destroyed := by
  cases kind <;> rfl

/-- It starts with one holder. -/
@[simp] theorem construct_connections (s : Registries P) (c : ℕ) (kind : ObjectKind) :
    (s.construct c kind).connections = Function.update s.connections c { holders := 1 } := by
  cases kind <;> rfl

/-- Its constructors ask for no callback. -/
@[simp] theorem construct_asyncCallees (s : Registries P) (c : ℕ) (kind : ObjectKind) :
    (s.construct c kind).asyncCallees = s.asyncCallees := by
  cases kind <;> rfl

/-- They leave a running loop alone. -/
@[simp] theorem construct_iterator (s : Registries P) (c : ℕ) (kind : ObjectKind) :
    (s.construct c kind).iterator = s.iterator := by
  cases kind <;> rfl

/-- A destroyed object keeps its kind. -/
@[simp] theorem destroy_objects (s : Registries P) (c : ℕ) (kind : ObjectKind) :
    (s.destroy c kind).objects = s.objects := by
  cases kind <;> rfl

/-- It is marked. -/
@[simp] theorem destroy_destroyed (s : Registries P) (c : ℕ) (kind : ObjectKind) :
    (s.destroy c kind).destroyed = Function.update s.destroyed c true := by
  cases kind <;> rfl

/-- Its counters stay. -/
@[simp] theorem destroy_connections (s : Registries P) (c : ℕ) (kind : ObjectKind) :
    (s.destroy c kind).connections = s.connections := by
  cases kind <;> rfl

/-- Its callbacks stay, too. -/
@[simp] theorem destroy_asyncCallees (s : Registries P) (c : ℕ) (kind : ObjectKind) :
    (s.destroy c kind).asyncCallees = s.asyncCallees := by
  cases kind <;> rfl

/-- The destructors leave a running loop alone. -/
@[simp] theorem destroy_iterator (s : Registries P) (c : ℕ) (kind : ObjectKind) :
    (s.destroy c kind).iterator = s.iterator := by
  cases kind <;> rfl

/-- A constructor registers a channel under its own id. -/
theorem mem_receivers_construct :
    c' ∈ (s.construct c kind).protocol.receivers id ↔
      c' ∈ s.protocol.receivers id ∨ c' = c ∧ kind.channelId = some id := by
  have hregister (own : Str) :=
    s.protocol.mem_receivers_registerNetworkChannel c c' own id
  cases kind with
  | gauge own | channel own | frameModule own =>
    refine (hregister own).trans (or_congr_right (and_congr_right fun _ => ?_))
    exact eq_comm.trans (Option.some.injEq own id ▸ Iff.rfl)
  | gaugeModule own | connection => simp [construct, registerModule, newChannel, connectSlot,
      ObjectKind.channelId, ObjectKind.moduleId]

/-- A destructor takes the channel out of the set of its id. -/
theorem mem_receivers_destroy :
    c' ∈ (s.destroy c kind).protocol.receivers id ↔
      c' ∈ s.protocol.receivers id ∧ ¬ (c' = c ∧ kind.channelId = some id) := by
  have hunregister (own : Str) :=
    s.protocol.mem_receivers_unregisterNetworkChannel c c' own id
  cases kind with
  | gauge own | channel own | frameModule own =>
    refine (hunregister own).trans (and_congr_right fun _ => not_congr (and_congr_right fun _ => ?_))
    exact eq_comm.trans (Option.some.injEq own id ▸ Iff.rfl)
  | gaugeModule own | connection => simp [destroy, unregisterModule, deleteChannel, disconnectSlot,
      ObjectKind.channelId, ObjectKind.moduleId]

/-- A constructor puts a module under its own id, over another one. -/
theorem modules_construct :
    (s.construct c kind).modules[id]? = if kind.moduleId = some id then some c else s.modules[id]? := by
  have hinsert (own : Str) : (s.modules.insert own c)[id]? =
      if some own = some id then some c else s.modules[id]? := by
    simp [TreeMap.getElem?_insert]
  cases kind with
  | gaugeModule own | frameModule own => exact hinsert own
  | gauge own | channel own | connection => rfl

/-- A destructor takes out what is registered under the id of the module. -/
theorem modules_destroy :
    (s.destroy c kind).modules[id]? = if kind.moduleId = some id then none else s.modules[id]? := by
  have herase (own : Str) : (s.modules.erase own)[id]? =
      if some own = some id then none else s.modules[id]? := by
    simp [TreeMap.getElem?_erase]
  cases kind with
  | gaugeModule own | frameModule own =>
    rw [show (s.destroy c _).modules = s.modules.erase own from rfl]
    exact herase own
  | gauge own | channel own | connection => rfl

/-- A slot of an object is connected to the frame signal. -/
def Connected (s : Registries P) (c : ℕ) : Prop :=
  c ∈ s.frameSignal.callbacks ∨ c ∈ s.frameSignal.slots

/-- Only a module of frames connects itself when it is constructed. -/
theorem connected_construct (h : (s.construct c kind).Connected c') :
    s.Connected c' ∨ c' = c ∧ ∃ id, kind = .frameModule id := by
  cases kind with
  | frameModule own =>
    simp only [Connected, construct, registerModule, newChannel, connectSlot, Signal.connect,
      ObjectKind.channelId, ObjectKind.moduleId, List.mem_append, List.mem_singleton] at h
    obtain (hold | hnew) | (hold | hnew) := h
    · exact .inl (.inl hold)
    · exact .inr ⟨hnew, own, rfl⟩
    · exact .inl (.inr hold)
    · exact .inr ⟨hnew, own, rfl⟩
  | gauge own | channel own | gaugeModule own | connection => exact .inl h

/-- And disconnects itself when it is destroyed. -/
theorem connected_destroy (h : (s.destroy c kind).Connected c') :
    s.Connected c' ∧ ¬ (c' = c ∧ ∃ id, kind = .frameModule id) := by
  cases kind with
  | frameModule own =>
    simp only [Connected, destroy, unregisterModule, deleteChannel, disconnectSlot,
      Signal.disconnect, ObjectKind.channelId, ObjectKind.moduleId, List.mem_filter,
      decide_eq_true_eq] at h
    obtain ⟨hold, hne⟩ | ⟨hold, hne⟩ := h
    · exact ⟨.inl hold, fun hboth => hne hboth.1⟩
    · exact ⟨.inr hold, fun hboth => hne hboth.1⟩
  | gauge own | channel own | gaugeModule own | connection =>
    exact ⟨h, by rintro ⟨-, id, hkind⟩; cases hkind⟩

/-! ### The invariant -/

/-- An object that is alive and of a kind. -/
def Is (s : Registries P) (c : ℕ) (p : ObjectKind → Prop) : Prop :=
  ∃ kind, s.objects c = some kind ∧ p kind ∧ s.destroyed c = false

/-- What is of some kind is alive. -/
theorem Is.alive {p : ObjectKind → Prop} (h : s.Is c p) : s.Alive c := by
  obtain ⟨kind, hkind, -, hlives⟩ := h
  exact ⟨by simp [hkind], hlives⟩

/-- What is alive stays alive when another object is constructed. -/
theorem Is.construct {p : ObjectKind → Prop} (h : s.Is c' p) (hnew : s.objects c = none) :
    (s.construct c kind).Is c' p := by
  obtain ⟨kind', hkind', hp, hlives⟩ := h
  have hne : c' ≠ c := by
    rintro rfl
    rw [hnew] at hkind'
    cases hkind'
  exact ⟨kind', by simp [hne, hkind'], hp, by simp [hlives]⟩

/-- What is alive stays alive when another object is destroyed. -/
theorem Is.destroy {p : ObjectKind → Prop} (h : s.Is c' p) (hne : c' ≠ c) :
    (s.destroy c kind).Is c' p := by
  obtain ⟨kind', hkind', hp, hlives⟩ := h
  exact ⟨kind', by simp [hkind'], hp, by simp [hne, hlives]⟩

/-- A new object is alive. -/
theorem Is.new {p : ObjectKind → Prop} (hp : p kind) (hlives : s.destroyed c = false) :
    (s.construct c kind).Is c p :=
  ⟨kind, by simp, hp, by simp [hlives]⟩

/-- Only objects and destructors decide what is alive. -/
theorem Is.congr {p : ObjectKind → Prop} (h : s.Is c p) (hobjects : t.objects = s.objects)
    (hdestroyed : t.destroyed = s.destroyed) : t.Is c p := by
  obtain ⟨kind, hkind, hp, hlives⟩ := h
  exact ⟨kind, hobjects ▸ hkind, hp, hdestroyed ▸ hlives⟩

/-- An object is of one kind. -/
theorem Is.of_kind {p : ObjectKind → Prop} (h : s.Is c p) (hkind : s.objects c = some kind) :
    p kind := by
  obtain ⟨kind', hkind', hp, -⟩ := h
  rw [hkind] at hkind'
  exact Option.some.inj hkind' ▸ hp

/-- The channels, modules and slots in the registries are alive, and registered for what they are. -/
structure Registered (s : Registries P) : Prop where
  channels : ∀ id, ∀ c ∈ s.protocol.receivers id, s.Is c fun kind => kind.channelId = some id
  modules : ∀ (id : Str) c, s.modules[id]? = some c → s.Is c fun kind => kind.moduleId = some id
  slots : ∀ c, s.Connected c → s.Is c fun kind => ∃ id, kind = .frameModule id
  unused : ∀ c, s.objects c = none → s.destroyed c = false

/-- Constructors keep the registries right. -/
theorem Registered.construct (hs : s.Registered) (hnew : s.objects c = none) :
    (s.construct c kind).Registered where
  channels id c' hmem := by
    obtain hold | ⟨rfl, hid⟩ := mem_receivers_construct.mp hmem
    · exact (hs.channels id c' hold).construct hnew
    · exact .new hid (hs.unused _ hnew)
  modules id c' hmodule := by
    rw [modules_construct] at hmodule
    split at hmodule
    · rename_i hid
      obtain rfl := Option.some.inj hmodule
      exact .new hid (hs.unused _ hnew)
    · exact (hs.modules id c' hmodule).construct hnew
  slots c' hconnected := by
    obtain hold | ⟨rfl, hid⟩ := connected_construct hconnected
    · exact (hs.slots c' hold).construct hnew
    · exact .new hid (hs.unused _ hnew)
  unused c' hnone := by
    rw [construct_objects, Function.update_apply] at hnone
    split at hnone
    · cases hnone
    · rw [construct_destroyed]
      exact hs.unused c' hnone

/-- Destructors keep the registries right. -/
theorem Registered.destroy (hs : s.Registered) (hkind : s.objects c = some kind) :
    (s.destroy c kind).Registered where
  channels id c' hmem := by
    obtain ⟨hold, hnot⟩ := mem_receivers_destroy.mp hmem
    have his := hs.channels id c' hold
    exact his.destroy fun heq => hnot ⟨heq, his.of_kind (heq ▸ hkind)⟩
  modules id c' hmodule := by
    rw [modules_destroy] at hmodule
    split at hmodule
    · cases hmodule
    · rename_i hnot
      have his := hs.modules id c' hmodule
      exact his.destroy fun heq => hnot (his.of_kind (heq ▸ hkind))
  slots c' hconnected := by
    obtain ⟨hold, hnot⟩ := connected_destroy hconnected
    have his := hs.slots c' hold
    exact his.destroy fun heq => hnot ⟨heq, his.of_kind (heq ▸ hkind)⟩
  unused c' hnone := by
    rw [destroy_objects] at hnone
    have hne : c' ≠ c := by
      rintro rfl
      rw [hkind] at hnone
      cases hnone
    simpa [hne] using hs.unused c' hnone

/-- A step that registers and destroys nothing keeps the registries right. -/
theorem Registered.congr (hs : s.Registered) (hobjects : t.objects = s.objects)
    (hdestroyed : t.destroyed = s.destroyed) (hmodules : t.modules = s.modules)
    (hsignal : t.frameSignal = s.frameSignal)
    (hchannels : ∀ id, t.protocol.receivers id = s.protocol.receivers id) : t.Registered where
  channels id c hmem := by
    rw [hchannels] at hmem
    exact (hs.channels id c hmem).congr hobjects hdestroyed
  modules id c hmodule := by
    rw [hmodules] at hmodule
    exact (hs.modules id c hmodule).congr hobjects hdestroyed
  slots c hconnected := by
    rw [Connected, hsignal] at hconnected
    exact (hs.slots c hconnected).congr hobjects hdestroyed
  unused c hnone := by
    rw [hdestroyed]
    exact hs.unused c (hobjects ▸ hnone)

/-- A connection in the set that is being called, or still to be called, holds itself. -/
def Held (s : Registries P) : Prop :=
  ∀ c ∈ s.asyncCallees, (∀ it, s.iterator = some it → it ≤ WithBot.some c) →
    s.objects c = some .connection → 0 < (s.connections c).refs

/-- The invariant: the registries are right, and what is to be called is alive and holds itself. -/
structure Sound (s : Registries P) : Prop where
  registered : s.Registered
  known : ∀ c ∈ s.asyncCallees, (s.objects c).isSome
  callees : ∀ c, s.Pending c → s.Alive c
  held : s.Held

/-- In a sound state the registries hold live objects only. -/
theorem Sound.liveOnly (hs : s.Sound) : s.LiveOnly where
  asyncCallees := hs.callees
  channels id c hmem := (hs.registered.channels id c hmem).alive
  modules id c hmodule := (hs.registered.modules id c hmodule).alive
  frameSignal c hconnected := (hs.registered.slots c hconnected).alive

/-- A callee is no new object. -/
theorem Sound.construct (hs : s.Sound) (hnew : s.objects c = none) : (s.construct c kind).Sound := by
  have hne : ∀ c' ∈ s.asyncCallees, c' ≠ c := by
    rintro c' hmem rfl
    simpa [hnew] using hs.known _ hmem
  refine ⟨hs.registered.construct hnew, fun c' hmem => ?_, fun c' hpending => ?_, ?_⟩
  · rw [construct_asyncCallees] at hmem
    simpa [hne c' hmem] using hs.known c' hmem
  · rw [Pending, construct_asyncCallees, construct_iterator] at hpending
    have halive := hs.callees c' hpending
    exact ⟨by simpa [hne c' hpending.1] using halive.1, by simpa using halive.2⟩
  · intro c' hmem hahead hkind
    rw [construct_asyncCallees] at hmem
    rw [construct_iterator] at hahead
    simp only [construct_objects, construct_connections, Function.update_of_ne (hne c' hmem)] at hkind ⊢
    exact hs.held c' hmem hahead hkind

/-- An object that is not to be called may be destroyed. -/
theorem Sound.destroy (hs : s.Sound) (hkind : s.objects c = some kind) (hnot : ¬ s.Pending c) :
    (s.destroy c kind).Sound := by
  refine ⟨hs.registered.destroy hkind, fun c' hmem => ?_, fun c' hpending => ?_, ?_⟩
  · rw [destroy_asyncCallees] at hmem
    rw [destroy_objects]
    exact hs.known c' hmem
  · rw [Pending, destroy_asyncCallees, destroy_iterator] at hpending
    have hne : c' ≠ c := fun heq => hnot (heq ▸ hpending)
    have halive := hs.callees c' hpending
    exact ⟨by simpa using halive.1, by simpa [hne] using halive.2⟩
  · intro c' hmem hahead hconnection
    rw [destroy_asyncCallees] at hmem
    rw [destroy_iterator] at hahead
    rw [destroy_objects] at hconnection
    rw [destroy_connections]
    exact hs.held c' hmem hahead hconnection

/-- A step that changes neither objects nor callees, and takes away no reference. -/
theorem Sound.congr (hs : s.Sound) (ht : t.Registered) (hobjects : t.objects = s.objects)
    (hdestroyed : t.destroyed = s.destroyed) (hcallees : t.asyncCallees = s.asyncCallees)
    (hiterator : t.iterator = s.iterator)
    (hrefs : ∀ c, (s.connections c).refs ≤ (t.connections c).refs) : t.Sound := by
  refine ⟨ht, fun c hmem => ?_, fun c hpending => ?_, fun c hmem hahead hkind => ?_⟩
  · rw [hcallees] at hmem
    rw [hobjects]
    exact hs.known c hmem
  · rw [Pending, hcallees, hiterator] at hpending
    rw [Alive, hobjects, hdestroyed]
    exact hs.callees c hpending
  · rw [hcallees] at hmem
    rw [hiterator] at hahead
    exact (hs.held c hmem hahead (hobjects ▸ hkind)).trans_le (hrefs c)

/-- What a call of `setState` changes: the data of the connection, and if it disconnects, a reference
is taken and a callback asked for. -/
theorem setState_cases (s : Registries P) (c : ℕ) (call : SetState) :
    let held := s.connections c
    (¬ held.con.Disconnects call ∧ s.setState c call =
        { s with
          connections := Function.update s.connections c
            { held with con := held.con.setState call } }) ∨
      (held.con.Disconnects call ∧ s.setState c call =
        { s with
          connections := Function.update s.connections c
            { held with con := held.con.setState call, refs := held.refs + 1 }
          asyncCallees := insert c s.asyncCallees }) := by
  intro held
  by_cases h : held.con.Disconnects call
  · exact .inr ⟨h, if_pos h⟩
  · exact .inl ⟨h, if_neg h⟩

/-- An update of one connection that takes no reference of it away. -/
theorem refs_le_update {held : HeldConnection} (h : (s.connections c).refs ≤ held.refs) (c' : ℕ) :
    (s.connections c').refs ≤ (Function.update s.connections c held c').refs := by
  by_cases hc : c' = c
  · subst hc
    rwa [Function.update_self]
  · rw [Function.update_of_ne hc]

/-- A connection that asks for a callback is alive and holds itself. -/
theorem Sound.setState (hs : s.Sound) (halive : s.Alive c) (call : SetState) :
    (s.setState c call).Sound := by
  obtain ⟨-, heq⟩ | ⟨-, heq⟩ := setState_cases s c call
  · rw [heq]
    exact hs.congr (hs.registered.congr rfl rfl rfl rfl fun _ => rfl) rfl rfl rfl rfl
      (refs_le_update le_rfl)
  · rw [heq]
    refine ⟨hs.registered.congr rfl rfl rfl rfl fun _ => rfl, fun c' hmem => ?_,
      fun c' hpending => ?_, fun c' hmem hahead hkind => ?_⟩
    · cases Finset.mem_insert.mp hmem with
      | inl heq => exact heq ▸ halive.1
      | inr hold => exact hs.known c' hold
    · cases Finset.mem_insert.mp hpending.1 with
      | inl heq => exact heq ▸ halive
      | inr hold => exact hs.callees c' ⟨hold, hpending.2⟩
    · by_cases hc : c' = c
      · subst hc
        simp
      · simp only [Function.update_of_ne hc]
        exact hs.held c' ((Finset.mem_insert.mp hmem).resolve_left hc) hahead hkind

/-- Setting a state constructs nothing. -/
@[simp] theorem setState_objects (s : Registries P) (c : ℕ) (call : SetState) :
    (s.setState c call).objects = s.objects := by
  obtain ⟨-, heq⟩ | ⟨-, heq⟩ := setState_cases s c call <;> rw [heq]

/-- It destroys nothing. -/
@[simp] theorem setState_destroyed (s : Registries P) (c : ℕ) (call : SetState) :
    (s.setState c call).destroyed = s.destroyed := by
  obtain ⟨-, heq⟩ | ⟨-, heq⟩ := setState_cases s c call <;> rw [heq]

/-- It leaves a running loop alone. -/
@[simp] theorem setState_iterator (s : Registries P) (c : ℕ) (call : SetState) :
    (s.setState c call).iterator = s.iterator := by
  obtain ⟨-, heq⟩ | ⟨-, heq⟩ := setState_cases s c call <;> rw [heq]

/-- The late calls of `setState` ask for a callback exactly if one of them disconnects. -/
theorem late_calls (s : Registries P) (late : List SetState) :
    let t := late.foldl (fun s call => s.setState c call) s
    t.objects = s.objects ∧ t.destroyed = s.destroyed ∧ t.iterator = s.iterator ∧
      (ConnectionRun.NoneDisconnects (s.connections c).con late → t.asyncCallees = s.asyncCallees) ∧
      (c ∈ s.asyncCallees → c ∈ t.asyncCallees) ∧
      (¬ ConnectionRun.NoneDisconnects (s.connections c).con late → c ∈ t.asyncCallees) ∧
      (s.Alive c → s.Sound → t.Sound) := by
  induction late generalizing s with
  | nil => simp [ConnectionRun.NoneDisconnects]
  | cons call rest ih =>
    obtain ⟨hobjects, hdestroyed, hiterator, hnone, hkept, hsome, hsound⟩ := ih (s.setState c call)
    have hcon : ((s.setState c call).connections c).con = (s.connections c).con.setState call := by
      obtain ⟨-, heq⟩ | ⟨-, heq⟩ := setState_cases s c call <;> simp [heq]
    rw [hcon] at hnone hsome
    simp only [List.foldl_cons]
    refine ⟨hobjects.trans (setState_objects ..), hdestroyed.trans (setState_destroyed ..),
      hiterator.trans (setState_iterator ..), fun h => ?_, fun h => hkept ?_, fun h => ?_,
      fun halive hs => hsound ?_ (hs.setState halive call)⟩
    · obtain ⟨-, heq⟩ | ⟨hdisconnects, -⟩ := setState_cases s c call
      · rw [hnone h.2, heq]
      · exact absurd hdisconnects h.1
    · obtain ⟨-, heq⟩ | ⟨-, heq⟩ := setState_cases s c call
      · rwa [heq]
      · rw [heq]
        exact Finset.mem_insert_of_mem h
    · obtain ⟨hnot, heq⟩ | ⟨-, heq⟩ := setState_cases s c call
      · exact hsome fun hrest => h ⟨hnot, hrest⟩
      · refine hkept ?_
        rw [heq]
        exact Finset.mem_insert_self c _
    · exact ⟨by simpa using halive.1, by simpa using halive.2⟩

/-- The connection without one of its holders, before anything else happens. -/
def unheld (s : Registries P) (c : ℕ) : Registries P :=
  { s with
    connections := Function.update s.connections c
      { s.connections c with holders := (s.connections c).holders - 1 } }

/-- Dropping the last pointer of any kind destroys the connection, after its late calls. -/
theorem drop_eq (s : Registries P) (c : ℕ) (late : List SetState) :
    s.drop c late =
      if (s.connections c).holders - 1 + (s.connections c).refs = 0 then
        (late.foldl (fun s call => s.setState c call) (s.unheld c)).destroy c .connection
      else s.unheld c := rfl

/-- A pointer less keeps the registries sound. -/
theorem Sound.unheld (hs : s.Sound) (c : ℕ) : (s.unheld c).Sound :=
  hs.congr (hs.registered.congr rfl rfl rfl rfl fun _ => rfl) rfl rfl rfl rfl
    (refs_le_update le_rfl)

/-- A connection that holds itself outlives its holders, so one that is destroyed is not to be
called, unless it became disconnected meanwhile. -/
theorem Sound.drop (hs : s.Sound) (halive : s.Alive c) (hkind : s.objects c = some .connection)
    {late : List SetState} (hok : s.Proper (.drop c late)) : (s.drop c late).Sound := by
  rw [drop_eq]
  split
  · rename_i hzero
    obtain ⟨hobjects, -, hiterator, hnone, -, -, hsound⟩ := late_calls (c := c) (s.unheld c) late
    have hcon : ((s.unheld c).connections c).con = (s.connections c).con := by
      simp [Registries.unheld]
    refine (hsound halive (hs.unheld c)).destroy (hobjects ▸ hkind) ?_
    rintro ⟨hmem, hahead⟩
    rw [hnone (hcon ▸ hok hzero)] at hmem
    rw [hiterator] at hahead
    have hpos := hs.held c hmem (fun it hit => (hahead it hit).le) hkind
    omega
  · exact hs.unheld c

/-- A connection that disconnects while it is destroyed stays in the set. -/
theorem proper_of_liveOnly_drop {late : List SetState} (hlate : s.iterator = none ∨ late = [])
    (h : (s.drop c late).LiveOnly) : s.Proper (.drop c late) := by
  intro hzero
  rw [drop_eq, if_pos hzero] at h
  obtain ⟨-, -, hiterator, -, -, hsome, -⟩ := late_calls (c := c) (s.unheld c) late
  have hcon : ((s.unheld c).connections c).con = (s.connections c).con := by
    simp [Registries.unheld]
  rw [hcon] at hsome
  by_contra hdisconnects
  have hnone : s.iterator = none := hlate.resolve_right fun hnil => by
    subst hnil
    exact hdisconnects trivial
  have halive := h.asyncCallees c ⟨by simpa using hsome hdisconnects, fun it hit => by
    rw [destroy_iterator, hiterator] at hit
    exact absurd (hnone.symm.trans hit) (by simp)⟩
  simpa using halive.2

/-- What the return of a callee leaves as it is: everything about the other objects. -/
theorem Sound.returned (hs : s.Sound) (it : WithBot ℕ) :
    (s.returned it).Registered ∧ (s.returned it).asyncCallees = s.asyncCallees ∧
      (s.returned it).objects = s.objects ∧
      ∀ c : ℕ, it < WithBot.some c → (s.returned it).destroyed c = s.destroyed c ∧
        (s.returned it).connections c = s.connections c := by
  induction it using WithBot.recBotCoe with
  | bot => exact ⟨hs.registered, rfl, rfl, fun c _ => ⟨rfl, rfl⟩⟩
  | coe c =>
    have hne : ∀ c' : ℕ, WithBot.some c < WithBot.some c' → c' ≠ c := by
      rintro c' hlt rfl
      exact lt_irrefl _ hlt
    by_cases hkind : s.objects c = some .connection
    · rw [show s.returned (WithBot.some c) = _ from if_pos hkind]
      have hregistered : ∀ held, ({ s with
          connections := Function.update s.connections c held } : Registries P).Registered :=
        fun held => hs.registered.congr rfl rfl rfl rfl fun _ => rfl
      split
      · refine ⟨(hregistered _).destroy hkind, by simp, by simp, fun c' hlt => ?_⟩
        simp [hne c' hlt]
      · exact ⟨hregistered _, rfl, rfl, fun c' hlt => ⟨rfl, by simp [hne c' hlt]⟩⟩
    · rw [show s.returned (WithBot.some c) = s from if_neg hkind]
      exact ⟨hs.registered, rfl, rfl, fun _ _ => ⟨rfl, rfl⟩⟩

/-- The iterator moves to the next callee, or the set is cleared. -/
theorem next_cases (s : Registries P) (it : WithBot ℕ) :
    (∃ c, sweepNext (s.returned it).asyncCallees it = some c ∧
        s.next it = { s.returned it with iterator := some (WithBot.some c) }) ∨
      s.next it = { s.returned it with iterator := none, asyncCallees := ∅ } := by
  cases hnext : sweepNext (s.returned it).asyncCallees it with
  | some c => exact .inl ⟨c, rfl, by simp only [Registries.next, hnext]⟩
  | none => exact .inr (by simp only [Registries.next, hnext])

/-- The iterator leaves behind what has been called. -/
theorem Sound.next (hs : s.Sound) {it : WithBot ℕ} (hit : s.iterator = some it) :
    (s.next it).Sound := by
  obtain ⟨hregistered, hcallees, hobjects, hsame⟩ := hs.returned it
  obtain ⟨next, hnext, heq⟩ | heq := next_cases s it
  · rw [heq]
    have hlt := (sweepNext_eq_some hnext).2.1
    refine ⟨hregistered.congr rfl rfl rfl rfl fun _ => rfl, fun c hmem => ?_, fun c hpending => ?_,
      fun c hmem hahead hkind => ?_⟩
    · exact hobjects ▸ hs.known c (hcallees ▸ hmem)
    · have hafter : it < WithBot.some c := hlt.trans (hpending.2 next rfl)
      have halive := hs.callees c ⟨hcallees ▸ hpending.1, fun it' hit' => by
        rw [hit] at hit'
        exact Option.some.inj hit' ▸ hafter⟩
      refine ⟨?_, ?_⟩
      · exact hobjects ▸ halive.1
      · exact (hsame c hafter).1.trans halive.2
    · have hafter : it < WithBot.some c := hlt.trans_le (hahead next rfl)
      refine (hsame c hafter).2 ▸ hs.held c (hcallees ▸ hmem) (fun it' hit' => ?_) (hobjects ▸ hkind)
      rw [hit] at hit'
      exact Option.some.inj hit' ▸ hafter.le
  · rw [heq]
    refine ⟨hregistered.congr rfl rfl rfl rfl fun _ => rfl, fun c hmem => ?_, fun c hpending => ?_,
      fun c hmem => ?_⟩
    · exact absurd hmem (Finset.notMem_empty c)
    · exact absurd hpending.1 (Finset.notMem_empty c)
    · exact absurd hmem (Finset.notMem_empty c)

/-- A channel that gets a packet is registered, so alive. -/
theorem LiveOnly.receivers_alive (hs : s.LiveOnly) {m : Message P} (h : c ∈ s.receivers m) :
    s.Alive c := by
  obtain ⟨handover, hhanded, hmem⟩ := List.mem_flatMap.mp h
  rw [s.protocol.receive_handed_receivers m handover hhanded] at hmem
  exact hs.channels _ c hmem

/-- The packet asks for callbacks of gauges that are alive. -/
theorem Sound.receive (hs : s.Sound) (m : Message P) :
    ({ s with
      protocol := (s.protocol.receive m).state
      asyncCallees := s.asyncCallees ∪ ((s.receivers m).filter s.triggers).toFinset } :
        Registries P).Sound := by
  have hgauge : ∀ c ∈ (s.receivers m).filter s.triggers,
      s.Alive c ∧ s.objects c ≠ some .connection := by
    intro c hmem
    obtain ⟨hreceives, htriggers⟩ := List.mem_filter.mp hmem
    refine ⟨hs.liveOnly.receivers_alive hreceives, fun hkind => ?_⟩
    simp [triggers, hkind] at htriggers
  refine ⟨hs.registered.congr rfl rfl rfl rfl fun id => ?_, fun c hmem => ?_, fun c hpending => ?_,
    fun c hmem hahead hkind => ?_⟩
  · simp only [ChannelProtocol.receivers, ChannelProtocol.receive_channels]
  · cases Finset.mem_union.mp hmem with
    | inl hold => exact hs.known c hold
    | inr hnew => exact (hgauge c (List.mem_toFinset.mp hnew)).1.1
  · cases Finset.mem_union.mp hpending.1 with
    | inl hold => exact hs.callees c ⟨hold, hpending.2⟩
    | inr hnew => exact (hgauge c (List.mem_toFinset.mp hnew)).1
  · cases Finset.mem_union.mp hmem with
    | inl hold => exact hs.held c hold hahead hkind
    | inr hnew => exact absurd hkind (hgauge c (List.mem_toFinset.mp hnew)).2

/-- A proper step keeps the invariant. -/
theorem Sound.step (hs : s.Sound) {a : RegistryAction P} (hok : s.Proper a)
    (h : s.step a = some t) : t.Sound := by
  have hprotocol : ∀ protocol : ChannelProtocol P,
      (∀ id, protocol.receivers id = s.protocol.receivers id) →
      ({ s with protocol := protocol } : Registries P).Sound := fun protocol hreceivers =>
    hs.congr (hs.registered.congr rfl rfl rfl rfl hreceivers) rfl rfl rfl rfl fun _ => le_rfl
  cases a with
  | construct c kind =>
    simp only [Registries.step, Option.ite_none_right_eq_some, Option.some.injEq] at h
    obtain ⟨hnew, rfl⟩ := h
    exact hs.construct hnew
  | constructThrows c id => exact hok.elim
  | destroy c =>
    simp only [Registries.step] at h
    split at h
    · rename_i kind hkind
      simp only [Option.ite_none_right_eq_some, Option.some.injEq] at h
      obtain ⟨-, rfl⟩ := h
      exact hs.destroy hkind hok
    · cases h
  | hold c =>
    simp only [Registries.step, Option.ite_none_right_eq_some, Option.some.injEq] at h
    obtain ⟨-, rfl⟩ := h
    exact hs.congr (hs.registered.congr rfl rfl rfl rfl fun _ => rfl) rfl rfl rfl rfl
      (refs_le_update le_rfl)
  | drop c late =>
    simp only [Registries.step, Option.ite_none_right_eq_some, Option.some.injEq] at h
    obtain ⟨⟨halive, hkind, -⟩, rfl⟩ := h
    exact hs.drop halive hkind hok
  | setState c call =>
    simp only [Registries.step, Option.ite_none_right_eq_some, Option.some.injEq] at h
    obtain ⟨⟨halive, -⟩, rfl⟩ := h
    exact hs.setState halive call
  | start host =>
    obtain rfl := Option.some.inj h
    refine hprotocol _ fun id => ?_
    cases host <;> rfl
  | stop =>
    obtain rfl := Option.some.inj h
    exact hprotocol _ fun _ => rfl
  | receive m =>
    simp only [Registries.step, Option.ite_none_right_eq_some, Option.some.injEq] at h
    obtain ⟨-, rfl⟩ := h
    exact hs.receive m
  | ackNewFrame => exact Option.some.inj h ▸ hs
  | callbackAsync =>
    simp only [Registries.step, Option.ite_none_right_eq_some, Option.some.injEq] at h
    obtain ⟨hnone, rfl⟩ := h
    refine ⟨hs.registered.congr rfl rfl rfl rfl fun _ => rfl, hs.known, fun c hpending => ?_,
      fun c hmem _ hkind => hs.held c hmem (by simp [hnone]) hkind⟩
    exact hs.callees c ⟨hpending.1, by simp [hnone]⟩
  | next =>
    obtain ⟨it, hit, rfl⟩ := Option.map_eq_some_iff.mp h
    exact hs.next hit

/-- A step that is not proper leaves a destroyed object in a registry. -/
theorem proper_of_liveOnly {a : RegistryAction P} (h : s.step a = some t) (hlive : t.LiveOnly) :
    s.Proper a := by
  cases a with
  | destroy c =>
    intro hpending
    simp only [step] at h
    split at h
    · simp only [Option.ite_none_right_eq_some, Option.some.injEq] at h
      obtain ⟨-, rfl⟩ := h
      have halive := hlive.asyncCallees c ⟨by simpa using hpending.1, by simpa using hpending.2⟩
      simpa using halive.2
    · cases h
  | constructThrows c id =>
    simp only [step, Option.ite_none_right_eq_some, Option.some.injEq] at h
    obtain ⟨-, rfl⟩ := h
    have halive := hlive.modules id c (by
      simp [constructThrows, registerModule])
    simpa [constructThrows, registerModule] using halive.2
  | drop c late =>
    simp only [step, Option.ite_none_right_eq_some, Option.some.injEq] at h
    obtain ⟨⟨-, -, -, hlate⟩, rfl⟩ := h
    exact proper_of_liveOnly_drop hlate hlive
  | _ => trivial

/-- Whoever is called through registries that hold only live objects is alive. -/
theorem LiveOnly.calls_alive (hs : s.LiveOnly) (a : RegistryAction P) :
    ∀ c ∈ s.calls a, s.Alive c := by
  have hfull : ∀ c ∈ s.protocol.handleFullState.map (·.2), s.Alive c := by
    intro c hmem
    obtain ⟨⟨id, c⟩, hcall, rfl⟩ := List.mem_map.mp hmem
    exact hs.channels id c (s.protocol.mem_handleFullState_iff.mp hcall)
  intro c hmem
  cases a with
  | start host =>
    cases host with
    | false => exact absurd hmem List.not_mem_nil
    | true => exact hfull c hmem
  | receive m =>
    cases List.mem_append.mp hmem with
    | inl hreceives => exact hs.receivers_alive hreceives
    | inr hcall =>
      by_cases hm : m = .fullSendPacket
      · subst hm
        exact hfull c hcall
      · rw [s.protocol.receive_fullState hm] at hcall
        exact absurd hcall List.not_mem_nil
  | ackNewFrame => exact hs.frameSignal c (.inl hmem)
  | next =>
    obtain ⟨it, hit, hnext⟩ := Option.bind_eq_some_iff.mp (Option.mem_toList.mp hmem)
    obtain ⟨hcallee, hlt, -⟩ := sweepNext_eq_some hnext
    refine hs.asyncCallees c ⟨hcallee, fun it' hit' => ?_⟩
    rw [hit] at hit'
    exact Option.some.inj hit' ▸ hlt
  | _ => exact absurd hmem List.not_mem_nil

/-- Nothing is registered at the start. -/
theorem sound_empty : ({} : Registries P).Sound where
  registered :=
    { channels := fun id c hmem => by simp [ChannelProtocol.receivers] at hmem
      modules := fun id c hmodule => by simp at hmodule
      slots := fun c hconnected => by simp [Connected] at hconnected
      unused := fun _ _ => rfl }
  known c hmem := absurd hmem (Finset.notMem_empty c)
  callees c hpending := absurd hpending.1 (Finset.notMem_empty c)
  held c hmem := absurd hmem (Finset.notMem_empty c)

end Registries

/-- Along any run, the registries hold only live objects and the core calls only into those exactly
when no gauge is destroyed that is to be called, no constructor of a module throws, and no connection
becomes disconnected while it is being destroyed. -/
theorem liveOnly_iff_proper {P : Type*} (as : List (RegistryAction P)) :
    ((registryMachine P).Along (fun s a =>
        (∀ c ∈ s.calls a, s.Alive c) ∧ ∀ t, s.step a = some t → t.LiveOnly) {} as ↔
      (registryMachine P).Along (fun s a => (s.step a).isSome → s.Proper a) {} as) := by
  refine Machine.along_iff_along (I := Registries.Sound) ?_ ?_ Registries.sound_empty as
  · intro s a hs
    constructor
    · rintro ⟨-, hlive⟩ hstep
      obtain ⟨t, ht⟩ := Option.isSome_iff_exists.mp hstep
      exact Registries.proper_of_liveOnly ht (hlive t ht)
    · intro hok
      exact ⟨hs.liveOnly.calls_alive a, fun t ht => (hs.step (hok (by simp [ht])) ht).liveOnly⟩
  · intro s a t hs hok ht
    exact hs.step (hok (by rw [show s.step a = some t from ht]; rfl)) ht

/-- A gauge gets a packet, and is destroyed before it is called back. -/
def clickThenUnloadRun : List (RegistryAction Unit) :=
  [.construct 0 (.gauge (ascii "clock")), .start true,
    .receive (.idChannelPacket 0 (ascii "clock") ()), .destroy 0, .callbackAsync, .next]

/-- The core calls the destroyed gauge. -/
theorem clickThenUnloadRun_not_liveOnly :
    ¬ (registryMachine Unit).Along (fun s a =>
      (∀ c ∈ s.calls a, s.Alive c) ∧ ∀ t, s.step a = some t → t.LiveOnly) {} clickThenUnloadRun :=
  fun h => absurd (h.2.2.2.2.2.1.1 0 (by decide)) (by decide)

end Multicrew.Core
