import Multicrew.Core.Wire
import Multicrew.Gauge.Metafile

/-!
# What channels decode

The first channel registered under an id makes a packet object of a payload, and all of them
receive that object as one of their own class. Most decoders copy a fixed number of bytes; the
`FSUIPC` packet names the number of its bytes itself, and a metafile channel unpacks two more
layers with a key of one byte each. The `FSUIPC` module and the gauges only queue what they
receive; a callback of the simulator's thread looks into it later.
-/

namespace Multicrew.Gauge

open Multicrew.Core Multicrew.Library

/-- The channels with a `StructPacket`. -/
inductive StructChannel
  | iconElement
  | needleElement
  | staticElement
  | gauge
  | positionModule
  deriving DecidableEq, Repr

/-- `sizeof` of `IconStruct`, `NeedleStruct`, `StaticStruct`, `MouseStruct` and `PositionStruct`,
which are packed. -/
def StructChannel.sizeof : StructChannel → ℕ
  | .iconElement => 12
  | .needleElement => 8
  | .staticElement => 4
  | .gauge => 24
  | .positionModule => 44

/-- The classes derived from `NetworkChannel`. -/
inductive ChannelKind
  | structChannel (c : StructChannel)
  | stringElement
  | fsuipcModule
  | metafileChannel
  deriving DecidableEq, Repr

/-- The objects `createPacket` makes. -/
inductive ChannelPacket
  | structPacket (c : StructChannel) (data : List UInt8)
  | stringPacket (string : Str)
  | fsuipcPacket (buffer : Received)
  | metafileChannelPacket (buffer : Received)

/-- The class of the channels that make the object. -/
def ChannelPacket.kind : ChannelPacket → ChannelKind
  | .structPacket c _ => .structChannel c
  | .stringPacket _ => .stringElement
  | .fsuipcPacket _ => .fsuipcModule
  | .metafileChannelPacket _ => .metafileChannel

/-- The use of a packet object through a pointer to the class of `kind`. -/
def ChannelPacket.cast (kind : ChannelKind) (packet : ChannelPacket) : Except Fault ChannelPacket :=
  if packet.kind = kind then .ok packet else .error .wrongType

/-! ### The `FSUIPC` packet -/

namespace FsuipcPacket

variable (buffer : Received)

/-- `FsuipcPacket::id` -/
def id : Except Fault UInt16 := (fun bytes => .ofNat (ofBytes bytes)) <$> buffer.buffer.read 2

/-- `FsuipcPacket::size` -/
def size : Except Fault UInt8 := buffer.buffer.readByte 2

/-- `wrappee()->buffer()` -/
def data : Except Fault Received := buffer.slice 3

/-- What `Fsuipc::write` gets: the id and, if FSUIPC takes the entry, the bytes it copies. -/
def write (accepted : Bool) : Except Fault (UInt16 × List UInt8) := do
  let id ← id buffer
  let size ← size buffer
  let data ← data buffer
  let bytes ← (if accepted then data.buffer.read size.toNat else .ok [])
  return (id, bytes)

end FsuipcPacket

/-! ### The metafile packets -/

/-- What `MetafileFactory` makes of a metafile packet. -/
inductive MetafileWrappee
  | resetPacket
  | ackPacket
  | dataPacket (buffer : Received)

/-- `MetafileFactory::createPacket`; none is the null pointer. -/
def MetafileFactory.createPacket (key : UInt8) (buffer : Received) : Option MetafileWrappee :=
  if key = 0 then some .resetPacket
  else if key = 1 then some .ackPacket
  else if key = 2 then some (.dataPacket buffer)
  else none

/-- The key of a `TypedPacket` with a key of type `char`. -/
def typedKey (buffer : Received) : Except Fault UInt8 := buffer.buffer.readByte 0

/-- `MetafilePacket::wrappee` -/
def MetafilePacket.wrappee (mp : Received) : Except Fault (Option MetafileWrappee) := do
  let buffer ← mp.slice 1
  let key ← typedKey mp
  return MetafileFactory.createPacket key buffer

/-- The counter and the delta. The delta is only taken in sequence; where the counter could be read
that cannot fail. -/
def MetafileDataPacket.decode (buffer : Received) : Except Fault MetafileDataPacket := do
  let counter ← buffer.buffer.read 4
  let delta ← buffer.slice 4
  return ⟨.ofNat (ofBytes counter), delta.bytes⟩

/-- What reaches the compressor, none if the key is unknown to it, or the decompressor. -/
inductive MetafileReceipt
  | compressor (reply : Option MetafileReply)
  | decompressor (mdp : MetafileDataPacket)
  deriving DecidableEq, Repr

/-- `MetafileChannelImpl::receive` up to the work of the compressor or the decompressor. -/
def MetafileChannel.receive (mcp : Received) : Except Fault MetafileReceipt := do
  let key ← typedKey mcp
  let mp ← mcp.slice 1
  if key = 0 then
    let key ← typedKey mp
    return .compressor (if key = 0 then some .resetPacket
      else if key = 1 then some .ackPacket else none)
  else
    match ← MetafilePacket.wrappee mp with
    | some (.dataPacket buffer) =>
      let mdp ← MetafileDataPacket.decode buffer
      return .decompressor mdp
    | some _ => throw .wrongType
    | none => throw .nullPacket

/-! ### Channels of any kind -/

namespace ChannelKind

/-- `createPacket` of the channel's class. -/
def createPacket (buffer : Received) : ChannelKind → Except Fault ChannelPacket
  | .structChannel c => .structPacket c <$> buffer.buffer.read c.sizeof
  | .stringElement => .stringPacket <$> buffer.buffer.readString
  | .fsuipcModule => .ok (.fsuipcPacket buffer)
  | .metafileChannel => .ok (.metafileChannelPacket buffer)

/-- What receiving the packet reads at once; the queue is `FsuipcModule::todo` or
`Gauge::mouseEvents`. -/
def receive (mode : Mode) (packet : ChannelPacket) (queue : List ChannelPacket) :
    ChannelKind → Except Fault (List ChannelPacket)
  | .structChannel .gauge => .ok (queue ++ [packet])
  | .structChannel c =>
    if mode = .client then (fun _ => queue) <$> packet.cast (.structChannel c) else .ok queue
  | .stringElement =>
    if mode = .client then (fun _ => queue) <$> packet.cast .stringElement else .ok queue
  | .fsuipcModule => if mode = .idle then .ok queue else .ok (queue ++ [packet])
  | .metafileChannel =>
    match packet with
    | .metafileChannelPacket buffer => (fun _ => queue) <$> MetafileChannel.receive buffer
    | _ => .error .wrongType

end ChannelKind

/-- `ChannelProtocol::receiveChannelPacket`: the first channel of the id makes the packet, and all
of them receive it. -/
def deliver (kind : ℕ → ChannelKind) (mode : Mode) (queues : ℕ → List ChannelPacket)
    (h : Handover Received) : Except Fault (ℕ → List ChannelPacket) :=
  match h.receivers with
  | [] => .ok queues
  | first :: rest => do
    let packet ← (kind first).createPacket h.packet
    (first :: rest).foldlM (fun queues channel =>
      Function.update queues channel <$> (kind channel).receive mode packet (queues channel)) queues

/-! ### An endpoint and its channels -/

/-- The protocol, and the queues of the channels that have one. -/
structure Endpoint where
  protocol : ChannelProtocol Received
  queues : ℕ → List ChannelPacket := fun _ => []

/-- The loop over `todo` from its `i`-th entry on, until FSUIPC refuses one: what the request
holds. -/
def writeTodo (accepts : ℕ → Bool) :
    ℕ → List ChannelPacket → Except Fault (List (UInt16 × List UInt8))
  | _, [] => .ok []
  | i, .fsuipcPacket buffer :: rest => do
    let entry ← FsuipcPacket.write buffer (accepts i)
    if accepts i then (fun request => entry :: request) <$> writeTodo accepts (i + 1) rest
    else .ok []
  | _, _ :: _ => .error .wrongType

/-- What `handleMouseEvents` takes from a queued packet. -/
def mouseEvent : ChannelPacket → Except Fault (List UInt8)
  | .structPacket .gauge data => .ok data
  | _ => .error .wrongType

namespace Endpoint

variable (s : Endpoint)

/-- `ChannelProtocol::receive` of a buffer, with what the channels queue. -/
def receiveBuffer (kind : ℕ → ChannelKind) (buf : Received) : Except Fault Endpoint := do
  match ← ChannelProtocol.parse s.protocol.mode buf with
  | none => return s
  | some m =>
    let r := s.protocol.receive m
    let queues ← r.handed.foldlM (deliver kind s.protocol.mode) s.queues
    return ⟨r.state, queues⟩

/-- `Connection::processPacket` -/
def processPacket (kind : ℕ → ChannelKind) (data : List UInt8) : Except Fault Endpoint :=
  s.receiveBuffer kind (.copyOf data)

/-- `FsuipcModule::frameCallback` and its `todo`; `fsuipc` tells whether the pointer is set, and
FSUIPC's library, which is asked for each entry, is outside. -/
def frameCallback (channel : ℕ) (fsuipc : Bool) (accepts : ℕ → Bool) :
    Except Fault (Endpoint × List (UInt16 × List UInt8)) :=
  if s.protocol.mode = .client ∧ fsuipc = true then do
    let request ← writeTodo accepts 0 (s.queues channel)
    return ({ s with queues := Function.update s.queues channel [] }, request)
  else .ok (s, [])

/-- `Gauge::asyncCallback` and its `mouseEvents`: off the host they are dropped. -/
def asyncCallback (channel : ℕ) : Except Fault (Endpoint × List (List UInt8)) := do
  let events ← (if s.protocol.mode = .host then (s.queues channel).mapM mouseEvent else .ok [])
  return ({ s with queues := Function.update s.queues channel [] }, events)

end Endpoint

end Multicrew.Gauge
