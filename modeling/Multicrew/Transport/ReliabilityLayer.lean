import Multicrew.Transport.InternalPacket
import Mathlib.Data.List.Basic

/-!
# The reliability layer

One end of a RakNet connection, as the peer's thread drives it: `Send` numbers a message and queues
it, a frame carries acknowledgements, what has to be sent again and what is new, and a received
datagram is acknowledged, filtered for duplicates, put together and put in order.

Times are 32-bit milliseconds that wrap around. The arrays of ordering counters hold 32-bit words,
while an ordering index on the wire is a byte.
-/

namespace Multicrew.Transport

open Multicrew.Library

/-- `TIMEOUT_TIME`. -/
def timeoutTime : UInt32 := 10000

/-- `RECEIVED_PACKET_LOG_LENGTH`: packet numbers are below it. -/
def receivedPacketLogLength : ℕ := 65530

/-- `MINIMUM_WINDOW_SIZE`. -/
def minimumWindowSize : ℕ := 5

/-- `MAXIMUM_WINDOW_SIZE`: the acknowledgements that fit into a frame of the default MTU size. -/
def maximumWindowSize : ℕ := (576 - udpHeaderSize) * 8 / ackBitLength

/-- The number after a packet number. -/
def nextPacketNumber (packetNumber : ℕ) : ℕ :=
  if packetNumber + 1 = receivedPacketLogLength then 0 else packetNumber + 1

/-- `IsOlderOrderedPacket`: within the last 128 before the one waited for. -/
def isOlderOrderedPacket (newIndex waitingIndex : UInt8) : Bool :=
  if 127 < waitingIndex then waitingIndex - 128 ≤ newIndex ∧ newIndex < waitingIndex
  else waitingIndex - 128 ≤ newIndex ∨ newIndex < waitingIndex

/-- Delete from an array by moving its last element into the hole, at most so many turns. -/
def swapRemove {α : Type*} (p : α → Bool) : ℕ → List α → List α
  | 0, list => list
  | _ + 1, [] => []
  | turns + 1, a :: rest =>
    if p a then
      match rest.getLast? with
      | none => []
      | some last => swapRemove p turns (last :: rest.dropLast)
    else a :: swapRemove p turns rest

/-- The queues, lists and counters of a `ReliabilityLayer`. -/
structure ReliabilityLayer where
  sendQueue : PacketPriority → List InternalPacket := fun _ => []
  /-- With holes where packets were acknowledged. -/
  resendQueue : List (Option InternalPacket) := []
  /-- Packet numbers, with the times their acknowledgements are due. -/
  acknowledgementQueue : List (ℕ × UInt32) := []
  outputQueue : List InternalPacket := []
  splitPacketList : List InternalPacket := []
  orderingList : ℕ → List InternalPacket := fun _ => []
  packetNumber : ℕ := 0
  splitPacketId : UInt32 := 0
  lastAckTime : UInt32 := 0
  waitingForOrderedPacketWriteIndex : ℕ → UInt32
  waitingForSequencedPacketWriteIndex : ℕ → UInt32
  waitingForOrderedPacketReadIndex : ℕ → UInt32
  waitingForSequencedPacketReadIndex : ℕ → UInt32
  deadConnection : Bool := false
  lostPacketResendDelay : UInt32 := 1000
  receivedPackets : ℕ → UInt32 := fun _ => 0
  windowSize : ℕ := minimumWindowSize
  lossyWindowSize : ℕ := maximumWindowSize + 1
  lastWindowIncreaseSizeTime : UInt32 := 0

namespace ReliabilityLayer

/-- The counters of an array after `memset( array, 0, NUMBER_OF_ORDERED_STREAMS )`, which clears
so many bytes: a quarter of the words. -/
def memsetCounters (counters : ℕ → UInt32) (channel : ℕ) : UInt32 :=
  if channel < numberOfOrderedStreams / 4 then 0 else counters channel

/-- A new layer on memory with these words in its four arrays: `InitializeVariables`. -/
def initializeVariables (ordered sequenced orderedRead sequencedRead : ℕ → UInt32) :
    ReliabilityLayer :=
  { waitingForOrderedPacketWriteIndex := memsetCounters ordered
    waitingForSequencedPacketWriteIndex := memsetCounters sequenced
    waitingForOrderedPacketReadIndex := memsetCounters orderedRead
    waitingForSequencedPacketReadIndex := memsetCounters sequencedRead }

variable (l : ReliabilityLayer)

/-! ### Sending -/

/-- The packets wait in the queue of their priority. -/
def pushSendQueue (packets : List InternalPacket) (priority : PacketPriority) : ReliabilityLayer :=
  { l with
    sendQueue := Function.update l.sendQueue priority (l.sendQueue priority ++ packets) }

/-- The largest block of a split packet, in bytes. -/
def maximumSendBlock (p : InternalPacket) (mtuSize : ℕ) : ℕ :=
  mtuSize - udpHeaderSize - bitsToBytes { p with splitPacketCount := 1 }.getBitStreamHeaderLength

/-- `splitPacketCount`, an `unsigned short` here. -/
def splitCount (p : InternalPacket) (mtuSize : ℕ) : ℕ :=
  ((p.data.length - 1) / maximumSendBlock p mtuSize + 1) % 2 ^ 16

/-- One of the packets a packet is split into. -/
def splitPart (p : InternalPacket) (mtuSize : ℕ) (splitPacketIndex : ℕ) : InternalPacket :=
  { p with
    data := (p.data.drop (splitPacketIndex * maximumSendBlock p mtuSize)).take
      (maximumSendBlock p mtuSize)
    splitPacketIndex
    splitPacketId := l.splitPacketId.toNat
    splitPacketCount := splitCount p mtuSize
    packetNumber :=
      -- the first part keeps the number already assigned
      if splitPacketIndex = 0 then p.packetNumber
      else nextPacketNumber^[splitPacketIndex - 1] l.packetNumber }

/-- `SplitPacketAndDeleteOriginal`. -/
def splitPacketAndDeleteOriginal (p : InternalPacket) (mtuSize : ℕ) : ReliabilityLayer :=
  { l with
    packetNumber := nextPacketNumber^[splitCount p mtuSize - 1] l.packetNumber
    splitPacketId := l.splitPacketId + 1 }.pushSendQueue
      ((List.range (splitCount p mtuSize)).map (l.splitPart p mtuSize)) p.priority

/-- The message as a packet, with its place among those of its kind on the ordering channel. -/
def numbered (data : List UInt8) (priority : PacketPriority) (reliability : PacketReliability)
    (orderingChannel : ℕ) (time : UInt32) : ReliabilityLayer × InternalPacket :=
  let p : InternalPacket :=
    { packetNumber := l.packetNumber, priority, reliability, creationTime := time, data }
  let l := { l with packetNumber := nextPacketNumber l.packetNumber }
  match reliability with
  | .reliableSequenced | .unreliableSequenced =>
    let index := l.waitingForSequencedPacketWriteIndex orderingChannel
    ({ l with
        waitingForSequencedPacketWriteIndex :=
          Function.update l.waitingForSequencedPacketWriteIndex orderingChannel (index + 1) },
      { p with orderingChannel, orderingIndex := index.toUInt8 })
  | .reliableOrdered =>
    let index := l.waitingForOrderedPacketWriteIndex orderingChannel
    ({ l with
        waitingForOrderedPacketWriteIndex :=
          Function.update l.waitingForOrderedPacketWriteIndex orderingChannel (index + 1) },
      { p with orderingChannel, orderingIndex := index.toUInt8 })
  | .reliable | .unreliable => (l, p)

/-- The bytes that fit into one packet. -/
def maxDataSize (p : InternalPacket) (mtuSize : ℕ) : ℕ :=
  mtuSize - udpHeaderSize - bitsToBytes p.getBitStreamHeaderLength

/-- `Send`. -/
def send (data : List UInt8) (priority : PacketPriority) (reliability : PacketReliability)
    (orderingChannel mtuSize : ℕ) (time : UInt32) : ReliabilityLayer :=
  if data = [] then l
  else
    let channel := if numberOfOrderedStreams ≤ orderingChannel then 0 else orderingChannel
    let (l, p) := l.numbered data priority reliability channel time
    if maxDataSize p mtuSize < data.length then l.splitPacketAndDeleteOriginal p mtuSize
    else l.pushSendQueue [p] priority

/-! ### Frames -/

/-- `IsSendThrottled`. -/
def isSendThrottled : Bool := l.windowSize ≤ l.resendQueue.length

/-- `IsFrameReady`. -/
def isFrameReady (time : UInt32) : Bool :=
  !l.isSendThrottled || minimumWindowSize ≤ l.acknowledgementQueue.length ||
    match l.resendQueue with
    | some p :: _ => p.nextActionTime < time
    | _ => false

/-- `UpdatePacketloss`. -/
def updatePacketloss (time : UInt32) : ReliabilityLayer :=
  { l with
    windowSize := max (l.windowSize - 1) minimumWindowSize
    lossyWindowSize := max (l.windowSize - 1) minimumWindowSize
    lastWindowIncreaseSizeTime := time }

/-- `InsertPacketIntoResendQueue`, at its end. -/
def insertPacketIntoResendQueue (p : InternalPacket) (time : UInt32) : ReliabilityLayer :=
  { l with
    lastAckTime := if l.lastAckTime = 0 ∨ l.resendQueue = [] then time else l.lastAckTime
    resendQueue := l.resendQueue ++ [some p] }

/-- The acknowledgements at the beginning of a frame; at its end, whether the frame is full. -/
def writeAcknowledgements (maxDataBitSize : ℕ) :
    List (ℕ × UInt32) → BitStream → BitStream × List (ℕ × UInt32) × Bool
  | [], output => (output, [], false)
  | (packetNumber, _) :: rest, output =>
    let output := output.writeEntry (.acknowledgement packetNumber)
    if maxDataBitSize < output.numberOfBitsUsed + ackBitLength then (output, rest, true)
    else writeAcknowledgements maxDataBitSize rest output

/-- The loop over the resend queue, at most so many turns; at its end, whether packets were sent
again and whether the frame is full. -/
def resendPackets (l : ReliabilityLayer) (maxDataBitSize : ℕ) (time : UInt32) :
    ℕ → BitStream → Bool → ReliabilityLayer × BitStream × Bool × Bool
  | 0, output, anyPacketsLost => (l, output, anyPacketsLost, false)
  | turns + 1, output, anyPacketsLost =>
    match l.resendQueue with
    | [] => (l, output, anyPacketsLost, false)
    | none :: rest =>   -- this was a hole
      { l with resendQueue := rest }.resendPackets maxDataBitSize time turns output anyPacketsLost
    | some p :: rest =>
      if p.nextActionTime < time then
        if maxDataBitSize <
            output.numberOfBitsUsed + (p.getBitStreamHeaderLength + p.dataBitLength) then
          (l, output, anyPacketsLost, true)
        else
          ({ l with resendQueue := rest }.insertPacketIntoResendQueue
            { p with nextActionTime := time + l.lostPacketResendDelay } time).resendPackets
              maxDataBitSize time turns (output.writeEntry (.packet p)) true
      else (l, output, anyPacketsLost, false)

/-- The loop over one send queue, up to the first packet that does not fit. -/
def sendPackets (l : ReliabilityLayer) (maxDataBitSize : ℕ) (time : UInt32) :
    List InternalPacket → BitStream → ReliabilityLayer × BitStream × List InternalPacket
  | [], output => (l, output, [])
  | p :: rest, output =>
    if maxDataBitSize <
        output.numberOfBitsUsed + (p.getBitStreamHeaderLength + p.dataBitLength) then
      (l, output, p :: rest)
    else
      let l :=
        if p.reliability.isReliable then
          l.insertPacketIntoResendQueue
            { p with nextActionTime := time + l.lostPacketResendDelay } time
        else l
      l.sendPackets maxDataBitSize time rest (output.writeEntry (.packet p))

/-- One send queue after the other, from the highest priority to the lowest. -/
def sendQueues (l : ReliabilityLayer) (maxDataBitSize : ℕ) (time : UInt32) :
    List PacketPriority → BitStream → ReliabilityLayer × BitStream
  | [], output => (l, output)
  | priority :: rest, output =>
    let (l, output, queue) := l.sendPackets maxDataBitSize time (l.sendQueue priority) output
    { l with sendQueue := Function.update l.sendQueue priority queue }.sendQueues maxDataBitSize time
      rest output

/-- The acknowledgements that fit behind the packets of a frame. -/
def appendAcknowledgements (maxDataBitSize : ℕ) :
    List (ℕ × UInt32) → BitStream → BitStream × List (ℕ × UInt32)
  | [], output => (output, [])
  | (packetNumber, due) :: rest, output =>
    if output.numberOfBitsUsed + ackBitLength < maxDataBitSize then
      appendAcknowledgements maxDataBitSize rest
        (output.writeEntry (.acknowledgement packetNumber))
    else (output, (packetNumber, due) :: rest)

/-- Whether acknowledgements go out at the beginning of a frame. -/
def acknowledgementsDue (time : UInt32) : Bool :=
  match l.acknowledgementQueue with
  | [] => false
  | (_, due) :: rest => minimumWindowSize ≤ rest.length + 1 || due < time

/-- What follows the acknowledgements at the beginning of a frame in `GenerateFrame`. -/
def generatePackets (maxDataBitSize : ℕ) (time : UInt32) (acknowledgementPacketsSent : Bool)
    (output : BitStream) : ReliabilityLayer × BitStream :=
  let (l, output, anyPacketsLost, full) := l.resendPackets maxDataBitSize time
    (maxDataBitSize + l.resendQueue.length + 1) output false
  let l := if anyPacketsLost then l.updatePacketloss time else l
  if full || l.isSendThrottled then (l, output)
  else
    let (l, output) := l.sendQueues maxDataBitSize time [.system, .high, .medium, .low] output
    if acknowledgementPacketsSent || output.numberOfBitsUsed = 0 then (l, output)
    else
      let (output, queue) := appendAcknowledgements maxDataBitSize l.acknowledgementQueue output
      ({ l with acknowledgementQueue := queue }, output)

/-- `GenerateFrame` into an empty stream, without an encryption key. -/
def generateFrame (output : BitStream) (mtuSize : ℕ) (time : UInt32) :
    ReliabilityLayer × BitStream :=
  let maxDataBitSize := 8 * (mtuSize - udpHeaderSize)
  if l.acknowledgementsDue time then
    let (output, queue, full) :=
      writeAcknowledgements maxDataBitSize l.acknowledgementQueue output
    let l := { l with acknowledgementQueue := queue }
    if full then (l, output) else l.generatePackets maxDataBitSize time true output
  else l.generatePackets maxDataBitSize time false output

/-- One pass of `Update`: a datagram, when there is something to send. -/
def update (buffer : BitStream) (mtuSize : ℕ) (time : UInt32) :
    ReliabilityLayer × Option (List UInt8) :=
  if l.resendQueue ≠ [] ∧ l.lastAckTime < time ∧ l.lastAckTime ≠ 0 ∧
      timeoutTime < time - l.lastAckTime then
    ({ l with deadConnection := true }, none)
  else if l.isFrameReady time then
    let (l, output) := l.generateFrame buffer.reset mtuSize time
    (l, if 0 < output.numberOfBitsUsed then some output.toBytes else none)
  else (l, none)

/-! ### Received datagrams -/

/-- `RemovePacketFromResendQueueAndDeleteOlderReliableSequenced`. -/
def removePacketFromResendQueue (packetNumber : ℕ) : ReliabilityLayer :=
  match l.resendQueue.findIdx? fun q => q.any fun p => p.packetNumber = packetNumber with
  | none => l
  | some i =>
    let queue := if i = 0 then l.resendQueue.tail else l.resendQueue.set i none
    match l.resendQueue[i]? with
    | some (some p) =>
      if p.reliability = .reliableSequenced then
        { l with
          resendQueue := queue.map fun q => q.filter fun older =>
            !(older.reliability = .reliableSequenced && older.orderingChannel = p.orderingChannel &&
              isOlderOrderedPacket older.orderingIndex p.orderingIndex) }
      else { l with resendQueue := queue }
    | _ => l

/-- `SendAcknowledgementPacket`. -/
def sendAcknowledgementPacket (packetNumber : ℕ) (time : UInt32) : ReliabilityLayer :=
  { l with
    acknowledgementQueue :=
      l.acknowledgementQueue ++ [(packetNumber, time + (l.lostPacketResendDelay >>> 2))] }

/-- `DeleteOldUnreliableSplitPackets`: once the newest unreliable one is old, all those with its
ordering index. -/
def deleteOldUnreliableSplitPackets (time : UInt32) : ReliabilityLayer :=
  let newest := l.splitPacketList.foldl
    (fun newest p =>
      if !p.reliability.isReliable && (newest.elim 0 Prod.fst) ≤ p.creationTime then
        some (p.creationTime, p.orderingIndex)
      else newest) (none : Option (UInt32 × UInt8))
  match newest with
  | none => l
  | some (creationTime, orderingIndex) =>
    if 5000 < time - creationTime then
      { l with
        splitPacketList := swapRemove (fun p => p.orderingIndex = orderingIndex)
          l.splitPacketList.length l.splitPacketList }
    else l

/-- The data of the parts in a buffer for all of them, each copied to its place. -/
def joinParts (parts : List InternalPacket) (maxDataSize : ℕ) : List UInt8 :=
  parts.foldl (fun block p => Library.overwrite block (p.splitPacketIndex * maxDataSize) p.data)
    (List.replicate (parts.map fun p => p.data.length).sum 0)

/-- `BuildPacketFromSplitPacketList`: the message, once all its parts are there. -/
def buildPacketFromSplitPacketList (splitPacketId : ℕ) (time : UInt32) :
    ReliabilityLayer × Option InternalPacket :=
  let parts := l.splitPacketList.filter fun p => p.splitPacketId = splitPacketId
  match l.splitPacketList.findIdx? fun p => p.splitPacketId = splitPacketId, parts with
  | some i, first :: _ =>
    -- are there enough elements in the list to have all the parts?
    if l.splitPacketList.length - i < first.splitPacketCount then (l, none)
    else if parts.length = first.splitPacketCount then
      let maxDataSize := (parts.map fun p => p.data.length).foldl max 0
      ({ l with
          splitPacketList := swapRemove (fun p => p.splitPacketId = splitPacketId)
            l.splitPacketList.length l.splitPacketList },
        some
          { first with
            splitPacketId := 0
            splitPacketIndex := 0
            splitPacketCount := 0
            creationTime := time
            nextActionTime := 0
            data := joinParts parts maxDataSize })
    else (l, none)
  | _, _ => (l, none)

/-- `InsertIntoSplitPacketList` and `BuildPacketFromSplitPacketList`, as they are called. -/
def collectSplitPacket (p : InternalPacket) (time : UInt32) :
    ReliabilityLayer × Option InternalPacket :=
  { l with splitPacketList := l.splitPacketList ++ [p] }.buildPacketFromSplitPacketList
    p.splitPacketId time

/-- Push a packet for the user to read. -/
def pushOutputQueue (p : InternalPacket) : ReliabilityLayer :=
  { l with outputQueue := l.outputQueue ++ [p] }

/-- A sequenced packet that is not older than the one waited for: the index goes on behind it. -/
def outputSequenced (p : InternalPacket) : ReliabilityLayer :=
  { l with
    waitingForSequencedPacketReadIndex :=
      Function.update l.waitingForSequencedPacketReadIndex p.orderingChannel
        (p.orderingIndex.toUInt32 + 1) }.pushOutputQueue p

/-- A sequenced packet, whole or in parts, for which there is a channel. -/
def handleSequenced (p : InternalPacket) (time : UInt32) : ReliabilityLayer :=
  if numberOfOrderedStreams ≤ p.orderingChannel then l
  else if isOlderOrderedPacket p.orderingIndex
      (l.waitingForSequencedPacketReadIndex p.orderingChannel).toUInt8 then l
  else if 0 < p.splitPacketCount then
    match l.collectSplitPacket p time with
    | (l, none) => l
    | (l, some q) => l.outputSequenced q
  else l.outputSequenced p

/-- An ordered packet that was waited for: the index, a word, goes on by one. -/
def outputOrdered (p : InternalPacket) (channel : ℕ) : ReliabilityLayer :=
  { l with
    waitingForOrderedPacketReadIndex :=
      Function.update l.waitingForOrderedPacketReadIndex channel
        (l.waitingForOrderedPacketReadIndex channel + 1) }.pushOutputQueue p

/-- Whether an ordering index is the one waited for, compared as words. -/
def isWaitedFor (channel : ℕ) (p : InternalPacket) : Bool :=
  p.orderingIndex.toUInt32 = l.waitingForOrderedPacketReadIndex channel

/-- The loop that pops packets that were delayed due to ordering, at most so many turns. -/
def popOrderingList (l : ReliabilityLayer) (channel : ℕ) : ℕ → ReliabilityLayer
  | 0 => l
  | turns + 1 =>
    match (l.orderingList channel).find? (l.isWaitedFor channel) with
    | none => l
    | some p =>
      ({ l with
          orderingList := Function.update l.orderingList channel
            ((l.orderingList channel).eraseP (l.isWaitedFor channel)) }.outputOrdered p
        channel).popOrderingList channel turns

/-- `AddToOrderingList`, at the beginning of the list. -/
def addToOrderingList (p : InternalPacket) : ReliabilityLayer :=
  { l with
    orderingList :=
      Function.update l.orderingList p.orderingChannel (p :: l.orderingList p.orderingChannel) }

/-- An ordered packet, for which there is a channel. -/
def handleOrdered (p : InternalPacket) : ReliabilityLayer :=
  if numberOfOrderedStreams ≤ p.orderingChannel then l
  else if l.isWaitedFor p.orderingChannel p then
    (l.outputOrdered p p.orderingChannel).popOrderingList p.orderingChannel
      (l.orderingList p.orderingChannel).length
  else l.addToOrderingList p

/-- A packet that is neither split nor sequenced, or that was put together. -/
def handleWhole (p : InternalPacket) : ReliabilityLayer :=
  if p.reliability = .reliableOrdered then l.handleOrdered p else l.pushOutputQueue p

/-- A packet behind the duplicate filter. -/
def handlePacket (p : InternalPacket) (time : UInt32) : ReliabilityLayer :=
  let l := if 0 < p.splitPacketCount then l.deleteOldUnreliableSplitPackets time else l
  if p.reliability = .reliableSequenced ∨ p.reliability = .unreliableSequenced then
    l.handleSequenced p time
  else if 0 < p.splitPacketCount then
    match l.collectSplitPacket p time with
    | (l, none) => l
    | (l, some q) => l.handleWhole q
  else l.handleWhole p

/-- Whether the packet number was received recently. -/
def isDuplicate (p : InternalPacket) (time : UInt32) : Bool :=
  time - timeoutTime < l.receivedPackets p.packetNumber

/-- One turn of the parse loop; `none` where it returns, with the layer it leaves. -/
def handleEntry (entry : FrameEntry) (time : UInt32) : ReliabilityLayer × Bool :=
  match entry with
  | .acknowledgement packetNumber =>
    ({ l with lastAckTime := if l.resendQueue = [] then 0 else time }.removePacketFromResendQueue
      packetNumber, true)
  | .packet p =>
    let l := if p.reliability.isReliable then l.sendAcknowledgementPacket p.packetNumber time else l
    if receivedPacketLogLength ≤ p.packetNumber then (l, false)
    else if l.isDuplicate p time then (l, true)
    else
      ({ l with receivedPackets := Function.update l.receivedPackets p.packetNumber time }.handlePacket
        p time, true)

/-- The parse loop. -/
def handleEntries (l : ReliabilityLayer) (time : UInt32) :
    List FrameEntry → ReliabilityLayer × Bool
  | [] => (l, true)
  | entry :: rest =>
    match l.handleEntry entry time with
    | (l, false) => (l, false)
    | (l, true) => l.handleEntries time rest

/-- The number of acknowledgements in a frame. -/
def numberOfAcksInFrame (entries : List FrameEntry) : ℕ :=
  entries.countP fun
    | .acknowledgement _ => true
    | .packet _ => false

/-- The window grows when a frame brought enough acknowledgements and packets are waiting. -/
def increaseWindow (acks : ℕ) (time : UInt32) : ReliabilityLayer :=
  if l.windowSize ≤ acks ∧
      (l.sendQueue .system ≠ [] ∨ l.sendQueue .high ≠ [] ∨ l.sendQueue .medium ≠ []) ∧
      (l.windowSize < l.lossyWindowSize ∨
        l.lostPacketResendDelay * 2 < time - l.lastWindowIncreaseSizeTime) then
    let windowSize := min (l.windowSize + 1) maximumWindowSize
    { l with
      windowSize
      lastWindowIncreaseSizeTime :=
        if l.lostPacketResendDelay * 2 < time - l.lastWindowIncreaseSizeTime then time
        else l.lastWindowIncreaseSizeTime
      lossyWindowSize :=
        if windowSize = maximumWindowSize ∨ 5 < windowSize - l.lossyWindowSize then
          l.lossyWindowSize + 1
        else l.lossyWindowSize }
  else l

/-- `HandleSocketReceiveFromConnectedPlayer`, without an encryption key. -/
def handleSocketReceive (datagram : List UInt8) (time : UInt32) : ReliabilityLayer :=
  if datagram.length ≤ 1 then l
  else
    let entries := parseDatagram datagram time
    match l.handleEntries time entries with
    | (l, false) => l
    | (l, true) => l.increaseWindow (numberOfAcksInFrame entries) time

/-- `Receive`: the packet whose data the user gets. -/
def receive : ReliabilityLayer × Option InternalPacket :=
  match l.outputQueue with
  | [] => (l, none)
  | p :: rest => ({ l with outputQueue := rest }, some p)

end ReliabilityLayer

end Multicrew.Transport
