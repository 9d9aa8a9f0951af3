import Multicrew.Gauge.Elements
import Multicrew.Library.Locks

/-!
# The critical sections of the simulator thread and the network thread

The simulator calls back into gauges and elements, which send under their own critical sections;
the network thread calls `ChannelProtocol::receive`, which calls into channels. Of each function
the locks it enters and leaves are kept, in the order of the source and with the branches that
change them. The simulator's own callbacks, the transport and the log take no lock that is
entered in another order anywhere, and are left out. So is the message box of the user interface,
which is shown while the simulator thread holds the lock of the core and no other.

A function runs in the mode it finds when it is called: the one of the session, or idle mode before
the session starts and after it has stopped. A function that is under way when the session stops
goes on with a part of what is listed here.
-/

namespace Multicrew.Gauge

open Multicrew.Core (Mode)
open Multicrew.Library
open Multicrew.Library.LockOp (within)

/-- The thread of the simulator and that of the connection. -/
inductive Thread
  | simulator
  | network
  deriving DecidableEq, Repr

instance : Fintype Thread where
  elems := {.simulator, .network}
  complete t := by cases t <;> decide

/-- The critical sections; gauges and metafile channels are numbered, elements are numbered within
their gauge. -/
inductive Lock
  | protocol
  | core
  | gauge (g : ℕ)
  | string (g num : ℕ)
  | compressor (k : ℕ)
  | decompressor (k : ℕ)
  | fsuipcModule
  | positionModule
  | fsuipc
  deriving DecidableEq, Repr

/-- What asks for a callback on the simulator thread. -/
inductive Callee
  | gauge (g : ℕ)
  | connection
  deriving DecidableEq, Repr

/-- A network channel. -/
inductive Channel
  | gauge (g : ℕ)
  | element (g num : ℕ) (kind : ElementKind)
  | metafile (k : ℕ)
  | fsuipc
  | position
  deriving DecidableEq, Repr

/-- A call at a channel: whether its id has a number yet, and, for a packet of a metafile channel,
whether it is for the compressor. -/
structure ChannelCall where
  channel : Channel
  bound : Bool
  toCompressor : Bool := false
  deriving DecidableEq, Repr

/-- The gauges of a process with the elements of their headers, `none` being one of an unknown
type, and the number of metafile channels. -/
structure Layout where
  gauges : List (List (Option ElementKind))
  metafiles : ℕ := 0
  deriving DecidableEq, Repr

/-- The functions the simulator thread and the network thread call. Flags tell which branches they
take; of a drawn frame the packets sent by the modules and by the statics are listed, each with
whether its id has a number yet. A connection is among the callees if the user interface listens
to it. -/
inductive Call
  | newGauge (g : ℕ)
  | installGauge (g : ℕ) (attached hookElements reused : Bool)
  | detachGauge (g : ℕ)
  | destroyGauge (g : ℕ) (attached : Bool)
  | preDraw (ack due : Bool) (sends statics : List Bool)
  | metafileDraw (g k : ℕ)
  | mouseCallback (g : ℕ) (swallowMouse bound : Bool)
  | elementCallback (g num : ℕ) (kind : ElementKind) (differs bound : Bool)
  | callbackAsync (callees : List Callee)
  | setDisconnected
  | fullSendPacket (registered : List ChannelCall)
  | idNumPacket (waiting : List ChannelCall)
  | channelPacket (known : Bool) (receivers : List ChannelCall)
  | idChannelPacket (receivers : List ChannelCall)
  deriving DecidableEq, Repr

namespace Layout

variable (layout : Layout)

/-- The elements of a gauge's header. -/
def elements (g : ℕ) : List (Option ElementKind) := layout.gauges.getD g []

/-- A gauge with an element that gets a channel. -/
def HasElement (g : ℕ) : Prop := ∃ kind, some kind ∈ layout.elements g

/-- What may ask for a callback. -/
def hasCallee : Callee → Bool
  | .gauge g => g < layout.gauges.length
  | .connection => true

/-- Which channels the gauges and modules of a process have. -/
def hasChannel : Channel → Bool
  | .gauge g => g < layout.gauges.length
  | .element g num kind => (layout.elements g)[num]? == some (some kind)
  | .metafile k => k < layout.metafiles
  | .fsuipc => true
  | .position => true

/-- Which thread calls which function. Some of the channels there are may be registered. -/
def offers : Thread → Call → Bool
  | .simulator, .newGauge g => g < layout.gauges.length
  | .simulator, .installGauge g _ _ _ => g < layout.gauges.length
  | .simulator, .detachGauge g => g < layout.gauges.length
  | .simulator, .destroyGauge g _ => g < layout.gauges.length
  | .simulator, .preDraw _ _ _ _ => true
  | .simulator, .metafileDraw g k => g < layout.gauges.length && k < layout.metafiles
  | .simulator, .mouseCallback g _ _ => g < layout.gauges.length
  | .simulator, .elementCallback g num kind _ _ => layout.hasChannel (.element g num kind)
  | .simulator, .callbackAsync callees => callees.all layout.hasCallee
  | .network, .setDisconnected => true
  | .network, .fullSendPacket registered =>
    registered.all fun c => layout.hasChannel c.channel
  | .network, .idNumPacket waiting => waiting.all fun c => layout.hasChannel c.channel
  | .network, .channelPacket _ receivers => receivers.all fun c => layout.hasChannel c.channel
  | .network, .idChannelPacket receivers => receivers.all fun c => layout.hasChannel c.channel
  | _, _ => false

end Layout

/-! ### What the functions enter -/

/-- `ChannelProtocol::getIdNum` -/
def getIdNum : List (LockOp Lock) := within .protocol []

/-- `ChannelProtocol::getNumId` -/
def getNumId : List (LockOp Lock) := within .protocol []

/-- `ChannelProtocol::setIdNum` -/
def setIdNum : List (LockOp Lock) := within .protocol []

/-- `ChannelProtocol::createIdNum` -/
def createIdNum : List (LockOp Lock) := within .protocol setIdNum

/-- `ChannelProtocol::registerNetworkChannel` -/
def registerNetworkChannel : List (LockOp Lock) := within .protocol getIdNum

/-- `ChannelProtocol::unregisterNetworkChannel` -/
def unregisterNetworkChannel : List (LockOp Lock) := within .protocol []

/-- `MulticrewCoreImpl::triggerAsyncCallback` -/
def triggerAsyncCallback : List (LockOp Lock) := within .core []

/-- `ChannelProtocol::stop` -/
def stop : List (LockOp Lock) := within .protocol []

/-- `asyncCallback`. A gauge handles its mouse events; a connection has been closed, and the user
interface stops the core. -/
def Callee.asyncCallback : Callee → List (LockOp Lock)
  | .gauge g => within (.gauge g) []
  | .connection => stop

/-- `ChannelProtocol::sendChannelPacket`; the connection is there outside `IdleMode`. -/
def sendChannelPacket (mode : Mode) (bound : Bool) : List (LockOp Lock) :=
  within .protocol [] ++
    match mode with
    | .idle => []
    | .host => within .protocol (getIdNum ++ if bound then [] else createIdNum)
    | .client => within .protocol getIdNum

/-- `sendState` of the elements; a string holds its critical section. -/
def sendState (mode : Mode) (bound : Bool) (g num : ℕ) (kind : ElementKind) :
    List (LockOp Lock) :=
  match mode with
  | .idle => []
  | .host =>
    match kind with
    | .string => within (.string g num) (sendChannelPacket .host bound)
    | _ => sendChannelPacket .host bound
  | .client => []

namespace ChannelCall

/-- `sendFullState` of a channel; only elements answer. -/
def sendFullState (mode : Mode) (c : ChannelCall) : List (LockOp Lock) :=
  match c.channel with
  | .element g num kind => sendState mode c.bound g num kind
  | _ => []

/-- `receive` of a channel. -/
def receive (mode : Mode) (c : ChannelCall) : List (LockOp Lock) :=
  match c.channel with
  | .gauge g => within (.gauge g) [] ++ triggerAsyncCallback
  | .element g num .string => if mode = .client then within (.string g num) [] else []
  | .element _ _ _ => []
  | .metafile k =>
    if c.toCompressor then within (.compressor k) []
    else within (.decompressor k) (sendChannelPacket mode c.bound)
  | .fsuipc => if mode = .idle then [] else within .fsuipcModule []
  | .position => if mode = .client then within .positionModule [] else []

end ChannelCall

/-- `ChannelProtocol::handleFullState` -/
def handleFullState (mode : Mode) (registered : List ChannelCall) : List (LockOp Lock) :=
  within .protocol (registered.flatMap (·.sendFullState mode))

/-- `ChannelProtocol::receiveChannelPacket` -/
def receiveChannelPacket (mode : Mode) (receivers : List ChannelCall) : List (LockOp Lock) :=
  receivers.flatMap (·.receive mode)

/-- `PositionModule::frameCallback`, when it has something to do. -/
def positionFrame (mode : Mode) : List (LockOp Lock) :=
  match mode with
  | .idle => []
  | .host => within .fsuipc [] ++ sendChannelPacket .host true
  | .client => within .positionModule [] ++ within .fsuipc []

/-- `FsuipcModule::frameCallback` with the packets it sends. -/
def fsuipcFrame (mode : Mode) (due : Bool) (sends : List Bool) : List (LockOp Lock) :=
  match mode with
  | .idle => []
  | .host => if due then within .fsuipc [] ++ sends.flatMap (sendChannelPacket .host) else []
  | .client => within .fsuipcModule (if due then within .fsuipc [] else [])

/-- `Gauge::detach` -/
def detach (g : ℕ) : List (LockOp Lock) := within (.gauge g) []

/-- `Gauge::createElements`: an element made for the first time registers its channel. -/
def createElements (g : ℕ) (reused : Bool) (elements : List (Option ElementKind)) :
    List (LockOp Lock) :=
  elements.flatMap fun kind =>
    within (.gauge g) (if kind.isSome && !reused then registerNetworkChannel else [])

/-- The locks a function enters and leaves. -/
def Call.body (mode : Mode) (layout : Layout) : Call → List (LockOp Lock)
  | .newGauge _ => registerNetworkChannel
  | .installGauge g attached hookElements reused =>
    within (.gauge g)
      ((if attached then detach g else []) ++
        if hookElements then createElements g reused (layout.elements g) else [])
  | .detachGauge g => detach g
  | .destroyGauge g attached =>
    within (.gauge g)
        ((if attached then detach g else []) ++
          (layout.elements g).flatMap fun kind =>
            if kind.isSome then unregisterNetworkChannel else []) ++
      unregisterNetworkChannel
  | .preDraw ack due sends statics =>
    (if ack then (if due then positionFrame mode else []) ++ fsuipcFrame mode due sends else []) ++
      statics.flatMap fun bound => sendState mode bound 0 0 .static
  | .metafileDraw g k =>
    match mode with
    | .idle => []
    | .host => within (.gauge g) (within (.compressor k) [])
    | .client => within (.gauge g) (within (.decompressor k) [])
  | .mouseCallback g swallowMouse bound =>
    match mode with
    | .idle => []
    | .host => within (.gauge g) []
    | .client => within (.gauge g) (if swallowMouse then [] else sendChannelPacket .client bound)
  | .elementCallback g num kind differs bound =>
    match mode, kind with
    | .idle, _ => []
    | .host, .string =>
      within (.string g num) (if differs then sendState .host bound g num .string else [])
    | .host, _ => if differs then sendState .host bound g num kind else []
    | .client, .string => within (.string g num) []
    | .client, _ => []
  | .callbackAsync callees => within .core (callees.flatMap (·.asyncCallback))
  | .setDisconnected => triggerAsyncCallback
  | .fullSendPacket registered => handleFullState mode registered
  | .idNumPacket waiting =>
    match mode with
    | .idle => []
    | .host => getNumId
    | .client => setIdNum ++ receiveChannelPacket .client waiting
  | .channelPacket known receivers =>
    match mode with
    | .idle => []
    | .host => getNumId ++ receiveChannelPacket .host receivers
    | .client =>
      within .protocol getNumId ++ if known then receiveChannelPacket .client receivers else []
  | .idChannelPacket receivers =>
    match mode with
    | .idle => []
    | .host => within .protocol (receiveChannelPacket .host receivers) ++ createIdNum
    | .client => within .protocol setIdNum ++ receiveChannelPacket .client receivers

/-- A function and the mode it finds. -/
structure Invocation where
  mode : Mode
  call : Call
  deriving DecidableEq, Repr

/-- The two threads over the functions of a process whose sessions are all of one mode. -/
def locking (mode : Mode) (layout : Layout) : Locking Thread Lock Invocation where
  offers t f := (f.mode == mode || f.mode == .idle) && layout.offers t f.call
  body f := f.call.body f.mode layout

/-! ### Which locks are nested -/

/-- The locks a channel enters when it receives on the host. -/
def ChannelCall.Enters (c : ChannelCall) (lock : Lock) : Prop :=
  match c.channel with
  | .gauge g => lock = .gauge g ∨ lock = .core
  | .element _ _ _ => False
  | .metafile k => lock = .compressor k ∨ lock = .decompressor k
  | .fsuipc => lock = .fsuipcModule
  | .position => False

/-- Which lock a function may enter while it holds another. -/
def Call.nests (mode : Mode) (layout : Layout) (call : Call) (outer inner : Lock) : Prop :=
  match call with
  | .newGauge _ => False
  | .installGauge g _ hookElements reused =>
    (hookElements = true ∧ reused = false ∧ layout.HasElement g) ∧
      outer = .gauge g ∧ inner = .protocol
  | .detachGauge _ => False
  | .destroyGauge g _ => layout.HasElement g ∧ outer = .gauge g ∧ inner = .protocol
  | .preDraw _ _ _ _ => outer = .fsuipcModule ∧ inner = .fsuipc
  | .metafileDraw g k => outer = .gauge g ∧ (inner = .compressor k ∨ inner = .decompressor k)
  | .mouseCallback g _ _ => mode = .client ∧ outer = .gauge g ∧ inner = .protocol
  | .elementCallback g num kind differs _ =>
    (mode = .host ∧ kind = .string ∧ differs = true) ∧ outer = .string g num ∧ inner = .protocol
  | .callbackAsync callees =>
    outer = .core ∧ ((∃ g, inner = .gauge g) ∨ (.connection ∈ callees ∧ inner = .protocol))
  | .setDisconnected => False
  | .fullSendPacket registered =>
    mode = .host ∧ outer = .protocol ∧
      ∃ c ∈ registered, ∃ g num, c.channel = .element g num .string ∧ inner = .string g num
  | .idNumPacket _ => (∃ k, outer = .decompressor k) ∧ inner = .protocol
  | .channelPacket _ _ => (∃ k, outer = .decompressor k) ∧ inner = .protocol
  | .idChannelPacket receivers =>
    ((∃ k, outer = .decompressor k) ∧ inner = .protocol) ∨
      (mode = .host ∧ outer = .protocol ∧ ∃ c ∈ receivers, c.Enters inner)

section

open LockOp

variable {mode : Mode} {nests : Lock → Lock → Prop} {held : List Lock} {layout : Layout}

/-- A section with nothing in it is left again. -/
theorem balanced_within_nil (lock : Lock) : Balanced (within lock []) :=
  balanced_nil.within lock

/-- A lock entered and left at once. -/
theorem nested_within_nil {lock : Lock} (h : lock ∈ held ∨ ∀ outer ∈ held, nests outer lock) :
    Nested nests held (within lock []) :=
  .within balanced_nil h nested_nil

/-- A block inside a lock that is entered while no other is held. -/
theorem nested_outermost {ops : List (LockOp Lock)} {lock : Lock} (hbalanced : Balanced ops)
    (hops : Nested nests [lock] ops) : Nested nests [] (within lock ops) :=
  .within hbalanced (.inr fun _ h => (List.not_mem_nil h).elim) hops

/-- A lock entered and left at once while no other is held. -/
theorem nested_outside (lock : Lock) : Nested nests [] (within lock []) :=
  nested_outermost balanced_nil nested_nil

/-- A send leaves every section it enters. -/
theorem balanced_sendChannelPacket (bound : Bool) : Balanced (sendChannelPacket mode bound) := by
  have hcreate : Balanced createIdNum := (balanced_within_nil _).within _
  have hget : Balanced getIdNum := balanced_within_nil _
  refine (balanced_within_nil _).append ?_
  cases mode with
  | idle => exact balanced_nil
  | host => exact (hget.append (.ite balanced_nil hcreate)).within _
  | client => exact hget.within _

/-- Sending enters the critical section of the protocol and no other. -/
theorem nested_sendChannelPacket (bound : Bool)
    (h : .protocol ∈ held ∨ ∀ outer ∈ held, nests outer .protocol) :
    Nested nests held (sendChannelPacket mode bound) := by
  have hin : ∀ held' : List Lock, Lock.protocol ∈ Lock.protocol :: held' := fun _ =>
    List.mem_cons_self
  have hget : Nested nests (.protocol :: held) getIdNum :=
    .within balanced_nil (.inl (hin held)) nested_nil
  have hcreate : Nested nests (.protocol :: held) createIdNum :=
    .within (balanced_within_nil _) (.inl (hin held))
      (.within balanced_nil (.inl (hin _)) nested_nil)
  refine .append (balanced_within_nil _) (.within balanced_nil h nested_nil) ?_
  cases mode with
  | idle => exact nested_nil
  | host =>
    refine .within ?_ h (hget.append (balanced_within_nil _) (.ite nested_nil hcreate))
    exact (balanced_within_nil _).append (.ite balanced_nil ((balanced_within_nil _).within _))
  | client => exact .within (balanced_within_nil _) h hget

/-- So does an element that sends its state. -/
theorem balanced_sendState (bound : Bool) (g num : ℕ) (kind : ElementKind) :
    Balanced (sendState mode bound g num kind) := by
  cases mode with
  | idle => exact balanced_nil
  | client => exact balanced_nil
  | host => cases kind with
    | string => exact (balanced_sendChannelPacket bound).within _
    | icon => exact @balanced_sendChannelPacket .host bound
    | needle => exact @balanced_sendChannelPacket .host bound
    | static => exact @balanced_sendChannelPacket .host bound

/-- So does a channel that receives a packet. -/
theorem balanced_receive (c : ChannelCall) : Balanced (c.receive mode) := by
  unfold ChannelCall.receive
  split
  · exact (balanced_within_nil _).append (balanced_within_nil _)
  · exact .ite (balanced_within_nil _) balanced_nil
  · exact balanced_nil
  · exact .ite (balanced_within_nil _) ((balanced_sendChannelPacket _).within _)
  · exact .ite balanced_nil (balanced_within_nil _)
  · exact .ite (balanced_within_nil _) balanced_nil

/-- So does a channel that is asked for its full state. -/
theorem balanced_sendFullState (c : ChannelCall) : Balanced (c.sendFullState mode) := by
  unfold ChannelCall.sendFullState
  split
  · exact balanced_sendState _ _ _ _
  · exact balanced_nil

/-- Outside every lock a channel that receives nests only the send of a decompressor. -/
theorem nested_receive (hnests : ∀ k, nests (.decompressor k) .protocol) (c : ChannelCall) :
    Nested nests [] (c.receive mode) := by
  unfold ChannelCall.receive
  split
  · exact (nested_outside _).append (balanced_within_nil _) (nested_outside _)
  · exact .ite (nested_outside _) nested_nil
  · exact nested_nil
  · refine .ite (nested_outside _) (nested_outermost (balanced_sendChannelPacket _) ?_)
    refine nested_sendChannelPacket _ (.inr fun outer houter => ?_)
    exact List.mem_singleton.mp houter ▸ hnests _
  · exact .ite nested_nil (nested_outside _)
  · exact .ite (nested_outside _) nested_nil

/-- On the host a channel that receives inside the protocol's critical section nests its own. -/
theorem nested_receive_host {c : ChannelCall}
    (hnests : ∀ lock : Lock, c.Enters lock → nests .protocol lock) :
    Nested nests [.protocol] (c.receive .host) := by
  have hprotocol : ∀ lock : Lock, c.Enters lock → ∀ outer ∈ [Lock.protocol], nests outer lock :=
    fun lock hlock outer h => List.mem_singleton.mp h ▸ hnests lock hlock
  obtain ⟨channel, bound, toCompressor⟩ := c
  cases channel with
  | gauge g =>
    exact (nested_within_nil (.inr (hprotocol (.gauge g) (.inl rfl)))).append
      (balanced_within_nil _) (nested_within_nil (.inr (hprotocol .core (.inr rfl))))
  | element g num kind => cases kind with
    | string => exact nested_nil
    | icon => exact nested_nil
    | needle => exact nested_nil
    | static => exact nested_nil
  | metafile k =>
    refine .ite (nested_within_nil (.inr (hprotocol (.compressor k) (.inl rfl))))
      (.within (balanced_sendChannelPacket _) (.inr (hprotocol (.decompressor k) (.inr rfl))) ?_)
    exact nested_sendChannelPacket _ (.inl (List.mem_cons_of_mem _ List.mem_cons_self))
  | fsuipc => exact nested_within_nil (.inr (hprotocol .fsuipcModule rfl))
  | position => exact nested_nil

/-- On the host a string that answers a full-state request nests its lock in the protocol's. -/
theorem nested_sendFullState {c : ChannelCall}
    (hnests : mode = .host → ∀ g num, c.channel = .element g num .string →
      nests .protocol (.string g num)) :
    Nested nests [.protocol] (c.sendFullState mode) := by
  have hsend : ∀ bound, Nested nests [.protocol] (sendChannelPacket .host bound) := fun bound =>
    nested_sendChannelPacket bound (.inl List.mem_cons_self)
  unfold ChannelCall.sendFullState
  split
  · rename_i g num kind hchannel
    cases mode with
    | idle => exact nested_nil
    | client => exact nested_nil
    | host => cases kind with
      | string =>
        refine .within (@balanced_sendChannelPacket .host _)
          (.inr fun _ h => List.mem_singleton.mp h ▸ hnests rfl g num hchannel) ?_
        exact nested_sendChannelPacket _ (.inl (List.mem_cons_of_mem _ List.mem_cons_self))
      | icon => exact hsend _
      | needle => exact hsend _
      | static => exact hsend _
  · exact nested_nil

/-- So does a callee that is called back. -/
theorem balanced_asyncCallback (callee : Callee) : Balanced callee.asyncCallback := by
  cases callee with
  | gauge g => exact balanced_within_nil _
  | connection => exact balanced_within_nil _

end

/-- So does a frame of the position module. -/
theorem balanced_positionFrame (mode : Mode) : LockOp.Balanced (positionFrame mode) := by
  cases mode with
  | idle => exact LockOp.balanced_nil
  | host => exact (balanced_within_nil _).append (@balanced_sendChannelPacket .host _)
  | client => exact (balanced_within_nil _).append (balanced_within_nil _)

/-- So does a frame of the FSUIPC module. -/
theorem balanced_fsuipcFrame (mode : Mode) (due : Bool) (sends : List Bool) :
    LockOp.Balanced (fsuipcFrame mode due sends) := by
  cases mode with
  | idle => exact LockOp.balanced_nil
  | host =>
    refine .ite ((balanced_within_nil _).append (.flatMap fun bound _ => ?_)) LockOp.balanced_nil
    exact @balanced_sendChannelPacket .host _
  | client => exact (LockOp.Balanced.ite (balanced_within_nil _) LockOp.balanced_nil).within _

/-- So does a gauge that creates its elements. -/
theorem balanced_createElements (g : ℕ) (reused : Bool) (elements : List (Option ElementKind)) :
    LockOp.Balanced (createElements g reused elements) :=
  .flatMap fun _ _ =>
    (LockOp.Balanced.ite ((balanced_within_nil _).within _) LockOp.balanced_nil).within _

/-- So does a gauge that unregisters them. -/
theorem balanced_unregister (elements : List (Option ElementKind)) :
    LockOp.Balanced (elements.flatMap fun kind =>
      if kind.isSome then unregisterNetworkChannel else []) :=
  .flatMap fun _ _ => .ite (balanced_within_nil _) LockOp.balanced_nil

/-- Every function leaves what it enters. -/
theorem Call.balanced_body (mode : Mode) (layout : Layout) (call : Call) :
    LockOp.Balanced (call.body mode layout) := by
  have hreceive : ∀ (mode : Mode) (receivers : List ChannelCall),
      LockOp.Balanced (receiveChannelPacket mode receivers) :=
    fun _ receivers => .flatMap fun c _ => balanced_receive c
  have hnil := LockOp.balanced_nil (κ := Lock)
  cases call with
  | newGauge g => exact (balanced_within_nil _).within _
  | installGauge g attached hookElements reused =>
    exact (LockOp.Balanced.append (.ite (balanced_within_nil _) hnil)
      (.ite (balanced_createElements _ _ _) hnil)).within _
  | detachGauge g => exact balanced_within_nil _
  | destroyGauge g attached =>
    exact .append (.within (.append (.ite (balanced_within_nil _) hnil) (balanced_unregister _)) _)
      (balanced_within_nil _)
  | preDraw ack due sends statics =>
    exact .append (.ite (.append (.ite (balanced_positionFrame mode) hnil)
      (balanced_fsuipcFrame mode due sends)) hnil)
      (.flatMap fun bound _ => balanced_sendState _ _ _ _)
  | metafileDraw g k => cases mode with
    | idle => exact hnil
    | host => exact (balanced_within_nil _).within _
    | client => exact (balanced_within_nil _).within _
  | mouseCallback g swallowMouse bound => cases mode with
    | idle => exact hnil
    | host => exact balanced_within_nil _
    | client => exact (LockOp.Balanced.ite hnil (@balanced_sendChannelPacket .client _)).within _
  | elementCallback g num kind differs bound => cases mode with
    | idle => exact hnil
    | host => cases kind with
      | string => exact (LockOp.Balanced.ite (@balanced_sendState .host _ _ _ _) hnil).within _
      | icon => exact .ite (@balanced_sendState .host _ _ _ _) hnil
      | needle => exact .ite (@balanced_sendState .host _ _ _ _) hnil
      | static => exact .ite (@balanced_sendState .host _ _ _ _) hnil
    | client => cases kind with
      | string => exact balanced_within_nil _
      | icon => exact hnil
      | needle => exact hnil
      | static => exact hnil
  | callbackAsync callees =>
    exact .within (.flatMap fun callee _ => balanced_asyncCallback callee) _
  | setDisconnected => exact balanced_within_nil _
  | fullSendPacket registered => exact .within (.flatMap fun c _ => balanced_sendFullState c) _
  | idNumPacket waiting => cases mode with
    | idle => exact hnil
    | host => exact balanced_within_nil _
    | client => exact (balanced_within_nil _).append (hreceive .client waiting)
  | channelPacket known receivers => cases mode with
    | idle => exact hnil
    | host => exact (balanced_within_nil _).append (hreceive .host receivers)
    | client =>
      exact ((balanced_within_nil _).within _).append (.ite (hreceive .client receivers) hnil)
  | idChannelPacket receivers => cases mode with
    | idle => exact hnil
    | host => exact ((hreceive .host receivers).within _).append ((balanced_within_nil _).within _)
    | client => exact ((balanced_within_nil _).within _).append (hreceive .client receivers)

/-- An element that registers its channel nests the protocol's lock in the gauge's. -/
theorem nested_createElements {nests : Lock → Lock → Prop} {g : ℕ} (reused : Bool)
    {elements : List (Option ElementKind)}
    (hnests : reused = false → (∃ kind, some kind ∈ elements) → nests (.gauge g) .protocol) :
    LockOp.Nested nests [.gauge g] (createElements g reused elements) := by
  refine .flatMap (fun kind _ => ?_) fun kind hkind => ?_
  · exact (LockOp.Balanced.ite ((balanced_within_nil _).within _) LockOp.balanced_nil).within _
  · refine .within (.ite ((balanced_within_nil _).within _) LockOp.balanced_nil)
      (.inl List.mem_cons_self) ?_
    split
    · rename_i hknown
      obtain ⟨hsome, hnew⟩ := (Bool.and_eq_true _ _).mp hknown
      obtain ⟨k, rfl⟩ := Option.isSome_iff_exists.mp hsome
      refine .within (balanced_within_nil _) (.inr fun outer houter => ?_)
        (nested_within_nil (.inl List.mem_cons_self))
      have houter : outer = .gauge g := by simpa using houter
      exact houter ▸ hnests ((Bool.not_eq_true' _).mp hnew) ⟨k, hkind⟩
    · exact LockOp.nested_nil

/-- So does an element that unregisters it. -/
theorem nested_unregister {nests : Lock → Lock → Prop} {g : ℕ}
    {elements : List (Option ElementKind)}
    (hnests : (∃ kind, some kind ∈ elements) → nests (.gauge g) .protocol) :
    LockOp.Nested nests [.gauge g] (elements.flatMap fun kind =>
      if kind.isSome then unregisterNetworkChannel else []) := by
  refine .flatMap (fun kind _ => .ite (balanced_within_nil _) LockOp.balanced_nil) fun kind hkind =>
    ?_
  split
  · rename_i hsome
    obtain ⟨k, rfl⟩ := Option.isSome_iff_exists.mp hsome
    refine nested_within_nil (.inr fun outer houter => ?_)
    exact List.mem_singleton.mp houter ▸ hnests ⟨k, hkind⟩
  · exact LockOp.nested_nil

/-- Sending while no lock is held. -/
theorem nested_sendOutside {nests : Lock → Lock → Prop} {mode : Mode} (bound : Bool) :
    LockOp.Nested nests [] (sendChannelPacket mode bound) :=
  nested_sendChannelPacket _ (.inr fun _ h => (List.not_mem_nil h).elim)

/-- A frame of the position module holds one lock at a time. -/
theorem nested_positionFrame {nests : Lock → Lock → Prop} (mode : Mode) :
    LockOp.Nested nests [] (positionFrame mode) := by
  cases mode with
  | idle => exact LockOp.nested_nil
  | host => exact (nested_outside _).append (balanced_within_nil _) (nested_sendOutside _)
  | client => exact (nested_outside _).append (balanced_within_nil _) (nested_outside _)

/-- A frame of the FSUIPC module on a client reads the simulator inside the module's own lock. -/
theorem nested_fsuipcFrame {nests : Lock → Lock → Prop} (hnests : nests .fsuipcModule .fsuipc)
    (mode : Mode) (due : Bool) (sends : List Bool) :
    LockOp.Nested nests [] (fsuipcFrame mode due sends) := by
  cases mode with
  | idle => exact LockOp.nested_nil
  | host =>
    refine .ite ((nested_outside _).append (balanced_within_nil _) ?_) LockOp.nested_nil
    refine .flatMap (fun bound _ => @balanced_sendChannelPacket .host _) fun bound _ => ?_
    exact @nested_sendOutside _ .host _
  | client =>
    refine nested_outermost (.ite (balanced_within_nil _) LockOp.balanced_nil) ?_
    refine .ite (nested_within_nil (.inr fun outer houter => ?_)) LockOp.nested_nil
    exact List.mem_singleton.mp houter ▸ hnests

/-- Elements and gauges of a list that each send nothing but under the protocol's lock. -/
theorem nested_receives {nests : Lock → Lock → Prop} {mode : Mode}
    (hnests : ∀ k, nests (.decompressor k) .protocol) (receivers : List ChannelCall) :
    LockOp.Nested nests [] (receiveChannelPacket mode receivers) :=
  .flatMap (fun c _ => balanced_receive c) fun c _ => nested_receive hnests c

namespace Call

/-- `installGauge` detaches inside the gauge's own lock and registers its elements there. -/
theorem nested_installGauge (mode : Mode) (layout : Layout) (g : ℕ)
    (attached hookElements reused : Bool) :
    LockOp.Nested (nests mode layout (.installGauge g attached hookElements reused)) []
      (body mode layout (.installGauge g attached hookElements reused)) := by
  have hnil := LockOp.balanced_nil (κ := Lock)
  have hdetach : LockOp.Nested (nests mode layout (.installGauge g attached hookElements reused))
      [.gauge g] (detach g) := nested_within_nil (.inl List.mem_cons_self)
  refine nested_outermost (.append (.ite (balanced_within_nil _) hnil) (.ite ?_ hnil)) ?_
  · exact balanced_createElements _ _ _
  · refine .append (.ite (balanced_within_nil _) hnil) (.ite hdetach LockOp.nested_nil) ?_
    split
    · rename_i hhook
      exact nested_createElements reused fun hnew hknown => ⟨⟨hhook, hnew, hknown⟩, rfl, rfl⟩
    · exact LockOp.nested_nil

/-- The destructor of a gauge unregisters its elements inside the gauge's lock. -/
theorem nested_destroyGauge (mode : Mode) (layout : Layout) (g : ℕ) (attached : Bool) :
    LockOp.Nested (nests mode layout (.destroyGauge g attached)) []
      (body mode layout (.destroyGauge g attached)) := by
  have hunregister : LockOp.Nested (nests mode layout (.destroyGauge g attached)) [.gauge g]
      ((layout.elements g).flatMap fun kind =>
        if kind.isSome then unregisterNetworkChannel else []) :=
    nested_unregister fun hknown => ⟨hknown, rfl, rfl⟩
  have hdetach : LockOp.Balanced (if attached = true then detach g else []) :=
    .ite (balanced_within_nil _) LockOp.balanced_nil
  have hinside := hdetach.append (balanced_unregister (layout.elements g))
  refine .append (hinside.within _) (nested_outermost hinside ?_) (nested_outside _)
  refine .append hdetach (.ite ?_ LockOp.nested_nil) hunregister
  exact nested_within_nil (.inl List.mem_cons_self)

/-- A frame runs the position module, the FSUIPC module and the statics one after the other. -/
theorem nested_preDraw (mode : Mode) (layout : Layout) (ack due : Bool)
    (sends statics : List Bool) :
    LockOp.Nested (nests mode layout (.preDraw ack due sends statics)) []
      (body mode layout (.preDraw ack due sends statics)) := by
  have hposition : LockOp.Balanced (if due = true then positionFrame mode else []) :=
    .ite (balanced_positionFrame mode) LockOp.balanced_nil
  refine .append (.ite (hposition.append (balanced_fsuipcFrame mode due sends)) LockOp.balanced_nil)
    (.ite (.append hposition (.ite (nested_positionFrame mode) LockOp.nested_nil)
      (nested_fsuipcFrame ⟨rfl, rfl⟩ mode due sends)) LockOp.nested_nil)
    (.flatMap (fun bound _ => balanced_sendState _ _ _ _) fun bound _ => ?_)
  cases mode with
  | idle => exact LockOp.nested_nil
  | host => exact @nested_sendOutside _ .host _
  | client => exact LockOp.nested_nil

/-- A callback of a string on the host sends inside the string's lock, the others hold none. -/
theorem nested_elementCallback (mode : Mode) (layout : Layout) (g num : ℕ) (kind : ElementKind)
    (differs bound : Bool) :
    LockOp.Nested (nests mode layout (.elementCallback g num kind differs bound)) []
      (body mode layout (.elementCallback g num kind differs bound)) := by
  have hsend : LockOp.Nested (nests .host layout (.elementCallback g num kind differs bound))
      [] (sendChannelPacket .host bound) := nested_sendOutside _
  cases mode with
  | idle => exact LockOp.nested_nil
  | host => cases kind with
    | string =>
      refine nested_outermost (.ite (@balanced_sendState .host _ _ _ _) LockOp.balanced_nil) ?_
      split
      · rename_i hdiffers
        refine .within (@balanced_sendChannelPacket .host _) (.inl List.mem_cons_self) ?_
        refine nested_sendChannelPacket _ (.inr fun outer houter => ?_)
        have houter : outer = .string g num := by simpa using houter
        exact ⟨⟨rfl, rfl, hdiffers⟩, houter, rfl⟩
      · exact LockOp.nested_nil
    | icon => exact .ite hsend LockOp.nested_nil
    | needle => exact .ite hsend LockOp.nested_nil
    | static => exact .ite hsend LockOp.nested_nil
  | client => cases kind with
    | string => exact nested_outside _
    | icon => exact LockOp.nested_nil
    | needle => exact LockOp.nested_nil
    | static => exact LockOp.nested_nil

/-- A packet by number is handed over outside the protocol's lock. -/
theorem nested_channelPacket (mode : Mode) (layout : Layout) (known : Bool)
    (receivers : List ChannelCall) :
    LockOp.Nested (nests mode layout (.channelPacket known receivers)) []
      (body mode layout (.channelPacket known receivers)) := by
  cases mode with
  | idle => exact LockOp.nested_nil
  | host =>
    exact (nested_outside _).append (balanced_within_nil _)
      (nested_receives (fun k => ⟨⟨k, rfl⟩, rfl⟩) _)
  | client =>
    refine .append ((balanced_within_nil _).within _) (nested_outermost (balanced_within_nil _)
      (nested_within_nil (.inl List.mem_cons_self))) (.ite ?_ LockOp.nested_nil)
    exact nested_receives (fun k => ⟨⟨k, rfl⟩, rfl⟩) _

/-- A packet by id is handed over inside the protocol's lock on the host, outside it on a client. -/
theorem nested_idChannelPacket (mode : Mode) (layout : Layout) (receivers : List ChannelCall) :
    LockOp.Nested (nests mode layout (.idChannelPacket receivers)) []
      (body mode layout (.idChannelPacket receivers)) := by
  have hcreate : LockOp.Nested (nests mode layout (.idChannelPacket receivers)) [] createIdNum :=
    nested_outermost (balanced_within_nil _) (nested_within_nil (.inl List.mem_cons_self))
  cases mode with
  | idle => exact LockOp.nested_nil
  | host =>
    have hreceive : ∀ c ∈ receivers, LockOp.Balanced (ChannelCall.receive .host c) := fun c _ =>
      balanced_receive c
    refine .append ((LockOp.Balanced.flatMap hreceive).within _)
      (nested_outermost (.flatMap hreceive) (.flatMap hreceive fun c hc => ?_)) hcreate
    exact nested_receive_host fun lock hlock => .inr ⟨rfl, rfl, c, hc, hlock⟩
  | client =>
    exact hcreate.append ((balanced_within_nil _).within _)
      (nested_receives (fun k => .inl ⟨⟨k, rfl⟩, rfl⟩) _)

/-- Asynchronous callbacks run inside the lock of the core. -/
theorem nested_callbackAsync (mode : Mode) (layout : Layout) (callees : List Callee) :
    LockOp.Nested (nests mode layout (.callbackAsync callees)) []
      (body mode layout (.callbackAsync callees)) := by
  refine nested_outermost (.flatMap fun callee _ => balanced_asyncCallback callee)
    (.flatMap (fun callee _ => balanced_asyncCallback callee) fun callee hcallee => ?_)
  cases callee with
  | gauge g =>
    refine nested_within_nil (.inr fun outer houter => ?_)
    exact ⟨List.mem_singleton.mp houter, .inl ⟨g, rfl⟩⟩
  | connection =>
    refine nested_within_nil (.inr fun outer houter => ?_)
    exact ⟨List.mem_singleton.mp houter, .inr ⟨hcallee, rfl⟩⟩

/-- A function nests locks only as `Call.nests` says. -/
theorem nested_body (mode : Mode) (layout : Layout) (call : Call) :
    LockOp.Nested (call.nests mode layout) [] (call.body mode layout) := by
  cases call with
  | newGauge g =>
    exact nested_outermost (balanced_within_nil _) (nested_within_nil (.inl List.mem_cons_self))
  | installGauge g attached hookElements reused =>
    exact nested_installGauge mode layout g attached hookElements reused
  | detachGauge g => exact nested_outside _
  | destroyGauge g attached => exact nested_destroyGauge mode layout g attached
  | preDraw ack due sends statics => exact nested_preDraw mode layout ack due sends statics
  | metafileDraw g k => cases mode with
    | idle => exact LockOp.nested_nil
    | host =>
      refine nested_outermost (balanced_within_nil _) (nested_within_nil (.inr fun outer h => ?_))
      exact ⟨List.mem_singleton.mp h, .inl rfl⟩
    | client =>
      refine nested_outermost (balanced_within_nil _) (nested_within_nil (.inr fun outer h => ?_))
      exact ⟨List.mem_singleton.mp h, .inr rfl⟩
  | mouseCallback g swallowMouse bound => cases mode with
    | idle => exact LockOp.nested_nil
    | host => exact nested_outside _
    | client =>
      refine nested_outermost (.ite LockOp.balanced_nil (@balanced_sendChannelPacket .client _))
        (.ite LockOp.nested_nil ?_)
      exact nested_sendChannelPacket _ (.inr fun outer h => ⟨rfl, List.mem_singleton.mp h, rfl⟩)
  | elementCallback g num kind differs bound =>
    exact nested_elementCallback mode layout g num kind differs bound
  | callbackAsync callees => exact nested_callbackAsync mode layout callees
  | setDisconnected => exact nested_outside _
  | fullSendPacket registered =>
    refine nested_outermost (.flatMap fun c _ => balanced_sendFullState c)
      (.flatMap (fun c _ => balanced_sendFullState c) fun c hc => nested_sendFullState ?_)
    exact fun hmode g num hchannel => ⟨hmode, rfl, c, hc, g, num, hchannel, rfl⟩
  | idNumPacket waiting => cases mode with
    | idle => exact LockOp.nested_nil
    | host => exact nested_outside _
    | client =>
      exact (nested_outside _).append (balanced_within_nil _)
        (nested_receives (fun k => ⟨⟨k, rfl⟩, rfl⟩) _)
  | channelPacket known receivers => exact nested_channelPacket mode layout known receivers
  | idChannelPacket receivers => exact nested_idChannelPacket mode layout receivers

end Call

/-- The functions of a process leave what they enter and nest locks only as `Call.nests` says. -/
theorem locking_disciplined (mode : Mode) (layout : Layout) :
    (locking mode layout).Disciplined fun f => f.call.nests f.mode layout :=
  fun _ f _ => ⟨f.call.balanced_body f.mode layout, f.call.nested_body f.mode layout⟩

/-! ### Which functions get into a deadlock -/

/-- On the host a callback of a string element that sends, and a full-state request, nest the locks
of the string and of the protocol in opposite ways. So do a function that registers or unregisters
the elements of a gauge, and a packet sent by id to that gauge, with the lock of the gauge; and the
callback of a closed connection, and a packet sent by id to any gauge, with the lock of the core. -/
def Call.Clashes (mode : Mode) (layout : Layout) : Call → Call → Prop
  | .elementCallback g num kind differs _, .fullSendPacket registered =>
    (mode = .host ∧ kind = .string ∧ differs = true) ∧
      ∃ c ∈ registered, c.channel = .element g num .string
  | .installGauge g _ hookElements reused, .idChannelPacket receivers =>
    (hookElements = true ∧ reused = false ∧ layout.HasElement g) ∧
      ∃ c ∈ receivers, c.channel = .gauge g
  | .destroyGauge g _, .idChannelPacket receivers =>
    layout.HasElement g ∧ ∃ c ∈ receivers, c.channel = .gauge g
  | .callbackAsync callees, .idChannelPacket receivers =>
    .connection ∈ callees ∧ ∃ c ∈ receivers, ∃ g, c.channel = .gauge g
  | _, _ => False

/-- A function clashes with another, which runs on the host. -/
def Invocation.Clashes (layout : Layout) (f g : Invocation) : Prop :=
  g.mode = .host ∧ f.call.Clashes f.mode layout g.call

/-- One of two functions clashes with the other. -/
def Invocation.Conflict (layout : Layout) (f g : Invocation) : Prop :=
  f.Clashes layout g ∨ g.Clashes layout f

/-- Conflicts go both ways. -/
theorem Invocation.Conflict.symm {layout : Layout} {f g : Invocation} (h : f.Conflict layout g) :
    g.Conflict layout f :=
  Or.symm h

namespace ChannelCall

variable {c : ChannelCall}

/-- On the host only a gauge enters the lock of a gauge when it receives. -/
theorem channel_of_enters_gauge {g : ℕ} (h : c.Enters (.gauge g)) : c.channel = .gauge g := by
  unfold Enters at h
  split at h
  · rename_i k hchannel
    rcases h with h | h <;> cases h
    exact hchannel
  · exact h.elim
  · rcases h with h | h <;> cases h
  · cases h
  · exact h.elim

/-- On the host only a gauge enters the lock of the core when it receives. -/
theorem channel_of_enters_core (h : c.Enters .core) : ∃ g, c.channel = .gauge g := by
  unfold Enters at h
  split at h
  · rename_i k hchannel
    exact ⟨k, hchannel⟩
  · exact h.elim
  · rcases h with h | h <;> cases h
  · cases h
  · exact h.elim

/-- No channel enters the lock of a string when it receives on the host. -/
theorem not_enters_string (g num : ℕ) : ¬ c.Enters (.string g num) := by
  unfold Enters
  split
  · rintro (h | h) <;> cases h
  · exact id
  · rintro (h | h) <;> cases h
  · intro h
    cases h
  · exact id

end ChannelCall

namespace Layout

variable {mode : Mode} {layout : Layout}

/-- A gauge that may have a channel is one there is. -/
theorem gauges_ne_nil_of_hasChannel {g : ℕ} (h : layout.hasChannel (.gauge g) = true) :
    layout.gauges ≠ [] :=
  List.ne_nil_of_length_pos (Nat.zero_lt_of_lt (of_decide_eq_true h))

/-- So is the gauge of an element that may have a channel. -/
theorem gauges_ne_nil_of_hasChannel_element {g num : ℕ} {kind : ElementKind}
    (h : layout.hasChannel (.element g num kind) = true) : layout.gauges ≠ [] := by
  rintro hnil
  simp [hasChannel, elements, hnil] at h

/-- While the network thread holds a lock it enters the protocol's, or, on the host and holding
that, the one of a string or of another receiver. -/
theorem nests_network {g : Call} {outer inner : Lock} (hg : layout.offers .network g = true)
    (h : g.nests mode layout outer inner) :
    ((∃ k, outer = .decompressor k) ∧ inner = .protocol) ∨
    (mode = .host ∧ outer = .protocol ∧ ∃ registered, g = .fullSendPacket registered ∧
      ∃ c ∈ registered, ∃ g num, c.channel = .element g num .string ∧ inner = .string g num) ∨
    (mode = .host ∧ outer = .protocol ∧ ∃ receivers, g = .idChannelPacket receivers ∧
      ∃ c ∈ receivers, c.Enters inner) := by
  cases g with
  | setDisconnected => exact h.elim
  | fullSendPacket registered => exact .inr (.inl ⟨h.1, h.2.1, registered, rfl, h.2.2⟩)
  | idNumPacket waiting => exact .inl h
  | channelPacket known receivers => exact .inl h
  | idChannelPacket receivers => cases h with
    | inl hsend => exact .inl hsend
    | inr hhost => exact .inr (.inr ⟨hhost.1, hhost.2.1, receivers, rfl, hhost.2.2⟩)
  | _ => cases hg

/-- While the simulator thread holds the lock of the protocol it enters no other. -/
theorem nests_simulator_outer {f : Call} {outer inner : Lock}
    (hf : layout.offers .simulator f = true) (h : f.nests mode layout outer inner) :
    outer ≠ .protocol := by
  rintro rfl
  cases f with
  | newGauge g => exact h
  | installGauge g attached hookElements reused => cases h.2.1
  | detachGauge g => exact h
  | destroyGauge g attached => cases h.2.1
  | preDraw ack due sends statics => cases h.1
  | metafileDraw g k => cases h.1
  | mouseCallback g swallowMouse bound => cases h.2.1
  | elementCallback g num kind differs bound => cases h.2.1
  | callbackAsync callees => cases h.1
  | _ => cases hf

/-- Under which lock the simulator thread enters the protocol's, unless it runs on a client. -/
theorem nests_simulator_protocol {f : Call} {outer : Lock} (hmode : mode ≠ .client)
    (hf : layout.offers .simulator f = true) (h : f.nests mode layout outer .protocol) :
    (mode = .host ∧
        ∃ g num bound, f = .elementCallback g num .string true bound ∧ outer = .string g num) ∨
      (∃ g, outer = .gauge g ∧ ∀ receivers, (∃ c ∈ receivers, c.channel = .gauge g) →
        f.Clashes mode layout (.idChannelPacket receivers)) ∨
      (outer = .core ∧ ∃ callees, f = .callbackAsync callees ∧ .connection ∈ callees) := by
  cases f with
  | newGauge g => exact h.elim
  | installGauge g attached hookElements reused =>
    exact .inr (.inl ⟨g, h.2.1, fun _ hreceiver => ⟨h.1, hreceiver⟩⟩)
  | detachGauge g => exact h.elim
  | destroyGauge g attached =>
    exact .inr (.inl ⟨g, h.2.1, fun _ hreceiver => ⟨h.1, hreceiver⟩⟩)
  | preDraw ack due sends statics => cases h.2
  | metafileDraw g k => cases h.2 with
    | inl hcompressor => cases hcompressor
    | inr hdecompressor => cases hdecompressor
  | mouseCallback g swallowMouse bound => exact absurd h.1 hmode
  | elementCallback g num kind differs bound =>
    obtain ⟨⟨hhost, rfl, rfl⟩, houter, -⟩ := h
    exact .inl ⟨hhost, g, num, bound, rfl, houter⟩
  | callbackAsync callees =>
    obtain ⟨houter, ⟨g, hg⟩ | ⟨hconnection, -⟩⟩ := h
    · cases hg
    · exact .inr (.inr ⟨houter, callees, rfl, hconnection⟩)
  | _ => cases hf

/-- A packet sent by id has a gauge among its receivers only if there are gauges. -/
theorem gauges_ne_nil_of_receiver {receivers : List ChannelCall} {c : ChannelCall} {g : ℕ}
    (hreceivers : layout.offers .network (.idChannelPacket receivers) = true) (hc : c ∈ receivers)
    (hchannel : c.channel = .gauge g) : layout.gauges ≠ [] :=
  gauges_ne_nil_of_hasChannel (hchannel ▸ List.all_eq_true.mp hreceivers c hc)

/-- A function of a host runs in host or idle mode. -/
theorem ne_client_of_host {t u : Thread} {f g : Invocation}
    (hf : (locking mode layout).offers t f = true) (hg : (locking mode layout).offers u g = true)
    (h : g.mode = .host) : mode = .host ∧ f.mode ≠ .client := by
  obtain ⟨fmode, f⟩ := f
  obtain ⟨gmode, g⟩ := g
  obtain rfl : gmode = .host := h
  cases mode <;> cases fmode <;> simp_all [locking]

/-- A function of the simulator thread is opposed only to the functions it clashes with, in a
session on a host with gauges. -/
theorem clashes_of_opposed {f g : Invocation}
    (hf : (locking mode layout).offers .simulator f = true)
    (hg : (locking mode layout).offers .network g = true)
    (h : Locking.Opposed (fun f : Invocation => f.call.nests f.mode layout) f g) :
    f.Clashes layout g ∧ mode = .host ∧ layout.gauges ≠ [] := by
  have hmode : g.mode = .host → mode = .host ∧ f.mode ≠ .client := ne_client_of_host hf hg
  have hf : layout.offers .simulator f.call = true := ((Bool.and_eq_true _ _).mp hf).2
  have hg : layout.offers .network g.call = true := ((Bool.and_eq_true _ _).mp hg).2
  obtain ⟨fmode, f⟩ := f
  obtain ⟨gmode, g⟩ := g
  obtain ⟨lock, lock', hsimulator, hnetwork⟩ := h
  rcases nests_network hg hnetwork with ⟨-, rfl⟩ |
    ⟨rfl, rfl, registered, rfl, c, hc, i, j, hchannel, rfl⟩ | ⟨rfl, rfl, receivers, rfl, c, hc, hin⟩
  · exact absurd rfl (nests_simulator_outer hf hsimulator)
  · obtain ⟨hhost, hclient⟩ := hmode rfl
    obtain ⟨rfl, k, num, bound, rfl, hstring⟩ | ⟨k, hgauge, -⟩ | ⟨hcore, -⟩ :=
      nests_simulator_protocol hclient hf hsimulator
    · cases hstring
      exact ⟨⟨rfl, ⟨rfl, rfl, rfl⟩, c, hc, hchannel⟩, hhost,
        gauges_ne_nil_of_hasChannel_element hf⟩
    · cases hgauge
    · cases hcore
  · obtain ⟨hhost, hclient⟩ := hmode rfl
    obtain ⟨-, k, num, bound, -, rfl⟩ | ⟨k, rfl, hclashes⟩ | ⟨rfl, callees, rfl, hconnection⟩ :=
      nests_simulator_protocol hclient hf hsimulator
    · exact absurd hin (c.not_enters_string k num)
    · have hchannel := c.channel_of_enters_gauge hin
      exact ⟨⟨rfl, hclashes receivers ⟨c, hc, hchannel⟩⟩, hhost,
        gauges_ne_nil_of_receiver hg hc hchannel⟩
    · obtain ⟨k, hchannel⟩ := c.channel_of_enters_core hin
      exact ⟨⟨rfl, hconnection, c, hc, k, hchannel⟩, hhost,
        gauges_ne_nil_of_receiver hg hc hchannel⟩

/-- Opposed functions of the two threads conflict, in a session on a host with gauges. -/
theorem conflict_of_opposed {t u : Thread} {f g : Invocation} (htu : t ≠ u)
    (hf : (locking mode layout).offers t f = true) (hg : (locking mode layout).offers u g = true)
    (h : Locking.Opposed (fun f : Invocation => f.call.nests f.mode layout) f g) :
    f.Conflict layout g ∧ mode = .host ∧ layout.gauges ≠ [] := by
  cases t with
  | simulator => cases u with
    | simulator => exact absurd rfl htu
    | network =>
      obtain ⟨hclashes, hhost⟩ := clashes_of_opposed hf hg h
      exact ⟨.inl hclashes, hhost⟩
  | network => cases u with
    | simulator =>
      obtain ⟨hclashes, hhost⟩ := clashes_of_opposed hg hf h.symm
      exact ⟨.inr hclashes, hhost⟩
    | network => exact absurd rfl htu

end Layout

/-! ### Functions that clash deadlock -/

/-- Sending enters the lock of the protocol only. -/
theorem enter_mem_sendChannelPacket {bound : Bool} {l : Lock}
    (h : .enter l ∈ sendChannelPacket .host bound) : l = .protocol := by
  cases bound <;> simpa [sendChannelPacket, within, getIdNum, createIdNum, setIdNum] using h

/-- What a channel enters when it answers a full-state request. -/
theorem enter_mem_sendFullState {c : ChannelCall} {l : Lock}
    (h : .enter l ∈ c.sendFullState .host) :
    l = .protocol ∨ ∃ g num, c.channel = .element g num .string ∧ l = .string g num := by
  unfold ChannelCall.sendFullState at h
  split at h
  · rename_i g num kind hchannel
    cases kind with
    | string =>
      rcases LockOp.enter_mem_within h with rfl | h
      · exact .inr ⟨g, num, hchannel, rfl⟩
      · exact .inl (enter_mem_sendChannelPacket h)
    | icon => exact .inl (enter_mem_sendChannelPacket h)
    | needle => exact .inl (enter_mem_sendChannelPacket h)
    | static => exact .inl (enter_mem_sendChannelPacket h)
  · exact (List.not_mem_nil h).elim

/-- What a channel enters when it receives on the host. -/
theorem enter_mem_receive {c : ChannelCall} {l : Lock} (h : .enter l ∈ c.receive .host) :
    l = .protocol ∨ c.Enters l := by
  obtain ⟨channel, bound, toCompressor⟩ := c
  cases channel with
  | gauge g =>
    have hlock : l = .gauge g ∨ l = .core := by
      simpa [ChannelCall.receive, within, triggerAsyncCallback] using h
    exact .inr hlock
  | element g num kind => cases kind <;> exact (List.not_mem_nil h).elim
  | metafile k =>
    cases toCompressor with
    | true => exact .inr (.inl (by simpa [ChannelCall.receive, within] using h))
    | false =>
      rcases LockOp.enter_mem_within h with rfl | h
      · exact .inr (.inr rfl)
      · exact .inl (enter_mem_sendChannelPacket h)
  | fsuipc =>
    have hlock : l = .fsuipcModule := by simpa [ChannelCall.receive, within] using h
    exact .inr hlock
  | position => exact (List.not_mem_nil h).elim

namespace Call

/-- On the host a packet sent by id gets to the first of its receivers with some property, holding
the lock of the protocol. -/
theorem body_idChannelPacket (layout : Layout) {receivers : List ChannelCall}
    {P : ChannelCall → Prop} (h : ∃ c ∈ receivers, P c) :
    ∃ c ops rest, body .host layout (.idChannelPacket receivers) =
        ops ++ (c.receive .host ++ rest) ∧ P c ∧ LockOp.after [] ops = [.protocol] ∧
      ∀ l, .enter l ∈ ops → l = .protocol ∨ ∃ b : ChannelCall, ¬ P b ∧ b.Enters l := by
  obtain ⟨c, before, after, hsplit, hc, hbefore⟩ :=
    LockOp.flatMap_first (ChannelCall.receive .host) h
  have hbalanced : LockOp.Balanced (before.flatMap (ChannelCall.receive .host)) :=
    .flatMap fun b _ => balanced_receive b
  refine ⟨c, .enter .protocol :: before.flatMap (ChannelCall.receive .host),
    after.flatMap (ChannelCall.receive .host) ++ .leave .protocol :: createIdNum, ?_, hc,
    hbalanced [.protocol], fun l hl => ?_⟩
  · simp [body, receiveChannelPacket, within, hsplit]
  · rcases List.mem_cons.mp hl with heq | hl
    · exact .inl (LockOp.enter.inj heq)
    · obtain ⟨b, hb, hin⟩ := List.mem_flatMap.mp hl
      exact (enter_mem_receive hin).imp id fun henters => ⟨b, hbefore b hb, henters⟩

/-- On the host a packet sent by id to a gauge gets to the lock of the gauge. -/
theorem body_idChannelPacket_gauge (layout : Layout) {receivers : List ChannelCall} {g : ℕ}
    (h : ∃ c ∈ receivers, c.channel = .gauge g) :
    ∃ ops rest, body .host layout (.idChannelPacket receivers) = ops ++ .enter (.gauge g) :: rest ∧
      LockOp.after [] ops = [.protocol] ∧ ∀ l, .enter l ∈ ops → l ≠ .gauge g := by
  obtain ⟨c, ops, rest, hbody, hc, hafter, hfree⟩ := body_idChannelPacket layout h
  have hreceive : c.receive .host =
      .enter (.gauge g) :: .leave (.gauge g) :: triggerAsyncCallback := by
    simp [ChannelCall.receive, hc, within]
  refine ⟨ops, .leave (.gauge g) :: triggerAsyncCallback ++ rest, by rw [hbody, hreceive]; rfl,
    hafter, fun l hl => ?_⟩
  rintro rfl
  rcases hfree _ hl with heq | ⟨b, hb, henters⟩
  · cases heq
  · exact hb (b.channel_of_enters_gauge henters)

/-- Then it gets to the lock of the core. -/
theorem body_idChannelPacket_core (layout : Layout) {receivers : List ChannelCall}
    (h : ∃ c ∈ receivers, ∃ g, c.channel = .gauge g) :
    ∃ ops rest, body .host layout (.idChannelPacket receivers) = ops ++ .enter .core :: rest ∧
      LockOp.after [] ops = [.protocol] ∧ ∀ l, .enter l ∈ ops → l ≠ .core := by
  obtain ⟨c, ops, rest, hbody, ⟨g, hc⟩, hafter, hfree⟩ := body_idChannelPacket layout h
  have hreceive : c.receive .host =
      [.enter (.gauge g), .leave (.gauge g)] ++ [.enter .core, .leave .core] := by
    simp [ChannelCall.receive, hc, within, triggerAsyncCallback]
  refine ⟨ops ++ [.enter (.gauge g), .leave (.gauge g)], .leave .core :: rest, ?_, ?_,
    fun l hl => ?_⟩
  · simp [hbody, hreceive]
  · rw [LockOp.after_append, hafter]
    exact balanced_within_nil (.gauge g) _
  · rintro rfl
    have hops : .enter Lock.core ∈ ops := by simpa using hl
    rcases hfree _ hops with heq | ⟨b, hb, henters⟩
    · cases heq
    · exact hb (b.channel_of_enters_core henters)

/-- On the host a full-state request gets to a string, holding the lock of the protocol. -/
theorem body_fullSendPacket (layout : Layout) {registered : List ChannelCall} {g num : ℕ}
    (h : ∃ c ∈ registered, c.channel = .element g num .string) :
    ∃ ops rest, body .host layout (.fullSendPacket registered) =
        ops ++ .enter (.string g num) :: rest ∧ LockOp.after [] ops = [.protocol] ∧
      ∀ l, .enter l ∈ ops → l ≠ .string g num := by
  obtain ⟨c, before, after, hsplit, hc, hbefore⟩ :=
    LockOp.flatMap_first (ChannelCall.sendFullState .host) h
  have hbalanced : LockOp.Balanced (before.flatMap (ChannelCall.sendFullState .host)) :=
    .flatMap fun b _ => balanced_sendFullState b
  have hstring : c.sendFullState .host =
      within (.string g num) (sendChannelPacket .host c.bound) := by
    simp [ChannelCall.sendFullState, hc, sendState]
  refine ⟨.enter .protocol :: before.flatMap (ChannelCall.sendFullState .host),
    sendChannelPacket .host c.bound ++ .leave (.string g num) ::
      (after.flatMap (ChannelCall.sendFullState .host) ++ [.leave .protocol]), ?_,
    hbalanced [.protocol], fun l hl => ?_⟩
  · simp [body, handleFullState, within, hsplit, hstring]
  · rintro rfl
    rcases List.mem_cons.mp hl with heq | hl
    · cases heq
    · obtain ⟨b, hb, hin⟩ := List.mem_flatMap.mp hl
      rcases enter_mem_sendFullState hin with heq | ⟨i, j, hchannel, heq⟩
      · cases heq
      · cases heq
        exact hbefore b hb hchannel

/-- A gauge that installs itself gets to the point where it registers an element, holding its own
lock. -/
theorem body_installGauge (mode : Mode) {layout : Layout} {g : ℕ} (attached : Bool)
    (h : layout.HasElement g) :
    ∃ ops rest, body mode layout (.installGauge g attached true false) =
        ops ++ .enter .protocol :: rest ∧ LockOp.after [] ops = [.gauge g, .gauge g] := by
  obtain ⟨kind, hkind⟩ := h
  obtain ⟨before, after, hsplit⟩ := List.append_of_mem hkind
  have hdetach : LockOp.Balanced (if attached = true then detach g else []) :=
    .ite (balanced_within_nil _) LockOp.balanced_nil
  refine ⟨.enter (.gauge g) :: ((if attached = true then detach g else []) ++
      (createElements g false before ++ [.enter (.gauge g)])),
    within .protocol [] ++ [.leave .protocol, .leave (.gauge g)] ++
      (createElements g false after ++ [.leave (.gauge g)]), ?_, ?_⟩
  · simp [body, hsplit, createElements, within, registerNetworkChannel, getIdNum]
  · simp only [LockOp.after, LockOp.after_append, hdetach [.gauge g],
      balanced_createElements g false before [.gauge g]]

/-- The destructor of a gauge gets to the point where it unregisters an element, holding the
gauge's lock. -/
theorem body_destroyGauge (mode : Mode) {layout : Layout} {g : ℕ} (attached : Bool)
    (h : layout.HasElement g) :
    ∃ ops rest, body mode layout (.destroyGauge g attached) =
        ops ++ .enter .protocol :: rest ∧ LockOp.after [] ops = [.gauge g] := by
  obtain ⟨kind, hkind⟩ := h
  obtain ⟨before, after, hsplit⟩ := List.append_of_mem hkind
  have hdetach : LockOp.Balanced (if attached = true then detach g else []) :=
    .ite (balanced_within_nil _) LockOp.balanced_nil
  let unregister (kind : Option ElementKind) : List (LockOp Lock) :=
    if kind.isSome then unregisterNetworkChannel else []
  refine ⟨.enter (.gauge g) :: ((if attached = true then detach g else []) ++
      before.flatMap unregister),
    .leave .protocol :: (after.flatMap unregister ++
      .leave (.gauge g) :: unregisterNetworkChannel), ?_, ?_⟩
  · simp [body, hsplit, within, unregisterNetworkChannel, unregister]
  · have hbefore : LockOp.Balanced (before.flatMap unregister) := balanced_unregister before
    simp only [LockOp.after, LockOp.after_append, hdetach [.gauge g], hbefore [.gauge g]]

/-- The simulator thread gets to the point where it stops the protocol for a closed connection,
holding the lock of the core. -/
theorem body_callbackAsync (mode : Mode) (layout : Layout) {callees : List Callee}
    (h : .connection ∈ callees) :
    ∃ ops rest, body mode layout (.callbackAsync callees) = ops ++ .enter .protocol :: rest ∧
      LockOp.after [] ops = [.core] := by
  obtain ⟨before, after, rfl⟩ := List.append_of_mem h
  have hbefore : LockOp.Balanced (before.flatMap Callee.asyncCallback) :=
    .flatMap fun callee _ => balanced_asyncCallback callee
  refine ⟨.enter .core :: before.flatMap Callee.asyncCallback,
    .leave .protocol :: (after.flatMap Callee.asyncCallback ++ [.leave .core]), ?_,
    hbefore [.core]⟩
  have hconnection : Callee.connection.asyncCallback = [.enter .protocol, .leave .protocol] := rfl
  simp [body, within, hconnection]

end Call

/-- Each of two functions that clash gets to hold the lock that the other one enters next. -/
theorem Call.opposite_of_clashes {mode : Mode} {layout : Layout} {f g : Call}
    (h : f.Clashes mode layout g) :
    ∃ ops rest ops' rest' lock, f.body mode layout = ops ++ .enter .protocol :: rest ∧
      g.body .host layout = ops' ++ .enter lock :: rest' ∧ lock ∈ LockOp.after [] ops ∧
      .protocol ∈ LockOp.after [] ops' ∧ ∀ l, .enter l ∈ ops' → l ∉ LockOp.after [] ops := by
  unfold Clashes at h
  split at h
  · rename_i g num kind differs bound registered
    obtain ⟨⟨rfl, rfl, rfl⟩, hregistered⟩ := h
    obtain ⟨ops', rest', hbody', hafter, hfree⟩ := body_fullSendPacket layout hregistered
    refine ⟨[.enter (.string g num), .enter (.string g num)], _, ops', rest', .string g num, rfl,
      hbody', List.mem_cons_self, hafter ▸ List.mem_cons_self, fun l hl => ?_⟩
    simpa [LockOp.after] using hfree l hl
  · rename_i g attached hookElements reused receivers
    obtain ⟨⟨rfl, rfl, helement⟩, hreceivers⟩ := h
    obtain ⟨ops, rest, hbody, hheld⟩ := body_installGauge mode attached helement
    obtain ⟨ops', rest', hbody', hafter, hfree⟩ :=
      body_idChannelPacket_gauge layout hreceivers
    refine ⟨ops, rest, ops', rest', .gauge g, hbody, hbody', hheld ▸ List.mem_cons_self,
      hafter ▸ List.mem_cons_self, fun l hl => ?_⟩
    simpa [hheld] using hfree l hl
  · rename_i g attached receivers
    obtain ⟨helement, hreceivers⟩ := h
    obtain ⟨ops, rest, hbody, hheld⟩ := body_destroyGauge mode attached helement
    obtain ⟨ops', rest', hbody', hafter, hfree⟩ :=
      body_idChannelPacket_gauge layout hreceivers
    refine ⟨ops, rest, ops', rest', .gauge g, hbody, hbody', hheld ▸ List.mem_cons_self,
      hafter ▸ List.mem_cons_self, fun l hl => ?_⟩
    simpa [hheld] using hfree l hl
  · rename_i callees receivers
    obtain ⟨hconnection, hreceivers⟩ := h
    obtain ⟨ops, rest, hbody, hheld⟩ :=
      body_callbackAsync mode layout hconnection
    obtain ⟨ops', rest', hbody', hafter, hfree⟩ :=
      body_idChannelPacket_core layout hreceivers
    refine ⟨ops, rest, ops', rest', .core, hbody, hbody', hheld ▸ List.mem_cons_self,
      hafter ▸ List.mem_cons_self, fun l hl => ?_⟩
    simpa [hheld] using hfree l hl
  · exact h.elim

/-- A function of the simulator thread and one of the network thread get into a deadlock exactly
when the one clashes with the other. -/
theorem deadlock_iff_clashes {mode : Mode} {layout : Layout} {f g : Invocation}
    (hf : (locking mode layout).offers .simulator f = true)
    (hg : (locking mode layout).offers .network g = true) :
    (∃ s, (locking mode layout).machine.Reachable s ∧ s.Deadlock ∧ s.Inside .simulator f ∧
      s.Inside .network g) ↔ f.Clashes layout g := by
  constructor
  · rintro ⟨s, hs, hdeadlock, ⟨fops, hsimulator⟩, gops, hnetwork⟩
    obtain ⟨t, u, f', g', htu, ⟨ops, ht⟩, ⟨ops', hu⟩, hopposed⟩ :=
      (Locking.sound (locking_disciplined mode layout) hs).opposed_of_deadlock hdeadlock
    have hopposed : Locking.Opposed (fun f : Invocation => f.call.nests f.mode layout) f g := by
      cases t with
      | simulator => cases u with
        | simulator => exact absurd rfl htu
        | network =>
          cases ht.symm.trans hsimulator
          cases hu.symm.trans hnetwork
          exact hopposed
      | network => cases u with
        | simulator =>
          cases ht.symm.trans hnetwork
          cases hu.symm.trans hsimulator
          exact hopposed.symm
        | network => exact absurd rfl htu
    exact (Layout.clashes_of_opposed hf hg hopposed).1
  · intro h
    obtain ⟨gmode, g⟩ := g
    obtain ⟨rfl, h⟩ := h
    obtain ⟨ops, rest, ops', rest', lock, hbody, hbody', hheld, hheld', hfree⟩ :=
      Call.opposite_of_clashes h
    exact Locking.reachable_deadlock (by decide) hf hg hbody hbody' hheld hheld' hfree

/-- On a host with gauges there are functions that clash: the callback of a closed connection and a
packet sent by id to a gauge. -/
theorem exists_clashes {layout : Layout} (h : layout.gauges ≠ []) :
    ∃ f g, (locking .host layout).offers .simulator f = true ∧
      (locking .host layout).offers .network g = true ∧ f.Clashes layout g := by
  refine ⟨⟨.host, .callbackAsync [.connection]⟩,
    ⟨.host, .idChannelPacket [⟨.gauge 0, true, false⟩]⟩, rfl, ?_, rfl, List.mem_cons_self, _,
    List.mem_cons_self, 0, rfl⟩
  simp [locking, Layout.offers, Layout.hasChannel, List.length_pos_iff.mpr h]

/-- A function of the simulator thread and one of the network thread get into a deadlock in some
run exactly when the one clashes with the other. So no run of the two threads deadlocks exactly
when the sessions of the process are not those of a host with a gauge; and no run does in which a
function starts only while the other thread is in none that it conflicts with. -/
theorem deadlock_free_iff (mode : Mode) (layout : Layout) :
    (∀ f g, (locking mode layout).offers .simulator f = true →
      (locking mode layout).offers .network g = true →
      ((∃ s, (locking mode layout).machine.Reachable s ∧ s.Deadlock ∧ s.Inside .simulator f ∧
        s.Inside .network g) ↔ f.Clashes layout g)) ∧
    ((∀ s, (locking mode layout).machine.Reachable s → ¬ s.Deadlock) ↔
      (mode = .host → layout.gauges = [])) ∧
    ∀ s, (locking mode layout).machine.ReachableVia
        (Locking.CallsApart (Invocation.Conflict layout)) s → ¬ s.Deadlock := by
  refine ⟨fun f g hf hg => deadlock_iff_clashes hf hg,
    ⟨fun hfree hhost => ?_, fun hnone s hs => ?_⟩, fun s hs => ?_⟩
  · subst hhost
    by_contra hgauges
    obtain ⟨f, g, hf, hg, hclashes⟩ := exists_clashes hgauges
    obtain ⟨s, hs, hdeadlock, -⟩ := (deadlock_iff_clashes hf hg).mpr hclashes
    exact hfree s hs hdeadlock
  · refine Locking.deadlock_free (locking_disciplined mode layout) ?_ hs
    intro t u f g htu hf hg hopposed
    obtain ⟨-, hhost, hgauges⟩ := Layout.conflict_of_opposed htu hf hg hopposed
    exact hgauges (hnone hhost)
  · refine Locking.deadlock_free_of_callsApart (locking_disciplined mode layout)
      (fun _ _ => Invocation.Conflict.symm) ?_ hs
    intro t u f g htu hf hg hopposed
    exact (Layout.conflict_of_opposed htu hf hg hopposed).1

/-- A host with a gauge that has one string element. -/
def stringLayout : Layout where
  gauges := [[some .string]]

/-- The simulator makes the gauge and installs it, then shows a new text; meanwhile a client asks
for the full state. -/
def stringRun : List (LockAction Thread Invocation) :=
  .call .simulator ⟨.host, .newGauge 0⟩ :: List.replicate 5 (.go .simulator) ++
    .call .simulator ⟨.host, .installGauge 0 false true false⟩ ::
      List.replicate 9 (.go .simulator) ++
    [.call .simulator ⟨.host, .elementCallback 0 0 .string true false⟩, .go .simulator,
      .go .simulator,
      .call .network ⟨.host, .fullSendPacket
        [⟨.gauge 0, false, false⟩, ⟨.element 0 0 .string, false, false⟩]⟩, .go .network]

/-- The simulator thread holds the string and waits for the protocol, the network thread the other
way round. -/
theorem stringRun_deadlocks :
    ∃ s, (locking .host stringLayout).machine.run {} stringRun = some s ∧ s.Deadlock :=
  ⟨_, rfl, .simulator, .network, .protocol, .string 0 0, by decide, ⟨_, _, rfl⟩, by decide,
    ⟨_, _, rfl⟩, by decide⟩

end Multicrew.Gauge
