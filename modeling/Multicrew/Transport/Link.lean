import Multicrew.Library.Machine
import Multicrew.Transport.Incoming

/-!
# A link

Two ends of a connection and the datagrams between them. The network may deliver a datagram that
was sent to an end at any time, again and again and in any order, or never; the clocks of the ends
are arbitrary.
-/

namespace Multicrew.Transport

open Multicrew.Library

/-- The ends of a connection. -/
inductive End
  | client
  | server
  deriving DecidableEq, Repr

/-- The other end. -/
def End.other : End → End
  | client => server
  | server => client

/-- What `SetMTUSize` admits. -/
structure MtuSize where
  size : ℕ
  min : 512 ≤ size
  max : size ≤ maximumMtuSize

/-- `DEFAULT_MTU_SIZE`. -/
def defaultMtuSize : MtuSize := ⟨576, by decide, by decide⟩

namespace ReliabilityLayer

/-- The message `Send` takes and the packets it queues for it. -/
def submitted (l : ReliabilityLayer) (data : List UInt8) (priority : PacketPriority)
    (reliability : PacketReliability) (orderingChannel mtuSize : ℕ) (time : UInt32) :
    List InternalPacket × List InternalPacket :=
  if data = [] then ([], [])
  else
    let (l, p) := l.numbered data priority reliability (sendChannel orderingChannel) time
    ([{ p with splitPacketId := l.splitPacketId.toNat }], l.packets p mtuSize)

end ReliabilityLayer

/-- Both ends, with the history of what each did. -/
structure Link where
  layer : End → ReliabilityLayer
  /-- The messages that were given to `Send`, as they were numbered. -/
  sent : End → List InternalPacket
  /-- The packets that were queued for them. -/
  queued : End → List InternalPacket
  /-- What was given to the socket. -/
  datagrams : End → List (List UInt8)
  /-- The packets the user was handed. -/
  handed : End → List InternalPacket

namespace Link

/-- What happens on a link, in any order. -/
inductive Action
  | send (e : End) (data : List UInt8) (priority : PacketPriority)
      (reliability : PacketReliability) (orderingChannel : ℕ) (time : UInt32)
  | update (e : End) (buffer : BitStream) (time : UInt32)
  | deliver (e : End) (index : ℕ) (time : UInt32)
  | receive (e : End)

variable (mtu : End → MtuSize)

/-- One step; a datagram may be delivered any number of times, in any order, or never. -/
def step (s : Link) : Action → Option Link
  | .send e data priority reliability orderingChannel time =>
    let (messages, packets) :=
      (s.layer e).submitted data priority reliability orderingChannel (mtu e).size time
    some { s with
      layer := Function.update s.layer e
        ((s.layer e).send data priority reliability orderingChannel (mtu e).size time)
      sent := Function.update s.sent e (s.sent e ++ messages)
      queued := Function.update s.queued e (s.queued e ++ packets) }
  | .update e buffer time =>
    let (l, datagram) := (s.layer e).update buffer (mtu e).size time
    some { s with
      layer := Function.update s.layer e l
      datagrams := Function.update s.datagrams e (s.datagrams e ++ datagram.toList) }
  | .deliver e index time => do
    let datagram ← (s.datagrams e.other)[index]?
    some { s with
      layer := Function.update s.layer e ((s.layer e).handleSocketReceive datagram time) }
  | .receive e =>
    let (l, p) := (s.layer e).receive
    some { s with
      layer := Function.update s.layer e l
      handed := Function.update s.handed e (s.handed e ++ p.toList) }

/-- Two new layers, and whatever was in their memory. -/
def machine : Machine Link Action where
  initial s := ∃ ordered sequenced orderedRead sequencedRead : End → ℕ → UInt32,
    s =
      { layer := fun e => ReliabilityLayer.initializeVariables (ordered e) (sequenced e)
          (orderedRead e) (sequencedRead e)
        sent := fun _ => []
        queued := fun _ => []
        datagrams := fun _ => []
        handed := fun _ => [] }
  step := step mtu

/-- Two new layers on memory full of zeros. -/
def blank : Link :=
  { layer := fun _ => ReliabilityLayer.initializeVariables (fun _ => 0) (fun _ => 0) (fun _ => 0)
      fun _ => 0
    sent := fun _ => []
    queued := fun _ => []
    datagrams := fun _ => []
    handed := fun _ => [] }

/-- Blank layers with nothing on the way are a start. -/
theorem initial_blank : (machine mtu).initial blank :=
  ⟨fun _ _ => 0, fun _ _ => 0, fun _ _ => 0, fun _ _ => 0, rfl⟩

/-- Two messages on one channel in a datagram that comes twice. -/
def repeated : List Action :=
  [.send .client [1, 2] .high .reliableOrdered 3 0, .send .client [7] .high .reliableOrdered 3 0,
    .update .client (BitStream.ofBytes []) 1, .deliver .server 0 4, .deliver .server 0 5,
    .receive .server, .receive .server]

end Link

end Multicrew.Transport
