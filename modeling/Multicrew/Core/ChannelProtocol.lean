import Multicrew.Library.Table

/-!
# The channel protocol of one party

`ChannelProtocol` binds channel ids to numbers and moves packets between `NetworkChannel`
objects. Here a packet is already split into type, number and payload; the byte format is
treated separately. A function returns what it does to the outside: the packets it gives to
`Connection::send`, its calls of `receiveChannelPacket`, and its calls of `sendFullState`.

`start` and `stop` set the connection together with the mode, so the connection is present
exactly outside `IdleMode` and is not a field of its own. A `NetworkChannel*` is an address.
-/

namespace Multicrew.Core

open Std (TreeMap TreeSet)
open Multicrew.Library

/-- A `std::string`, as its bytes. -/
abbrev Str := List UInt8

/-- `RESERVED_CHANNELS`: the ordering channels below it are shared by all ids. -/
def reservedChannels : ℕ := 16

/-- `IdleMode`, `HostMode` and `ClientMode`. -/
inductive Mode
  | idle
  | host
  | client
  deriving DecidableEq, Repr

/-- The `Priority` of a packet. -/
inductive Priority
  | high
  | medium
  | low
  deriving DecidableEq, Repr

/-- A `MulticrewPacket`, its key split into the packet type and the channel number. -/
inductive Message (P : Type*)
  | fullSendPacket
  | channelPacket (num : ℕ) (packet : P)
  | idChannelPacket (num : ℕ) (id : Str) (packet : P)
  | idNumPacket (num : ℕ) (string : Str)
  deriving DecidableEq, Repr

/-- The payload a message carries. -/
def Message.payload {P : Type*} : Message P → Option P
  | .fullSendPacket => none
  | .channelPacket _ packet => some packet
  | .idChannelPacket _ _ packet => some packet
  | .idNumPacket _ _ => none

/-- The arguments of one `Connection::send`; `channel` is the transport's ordering channel. -/
structure Outgoing (P : Type*) where
  message : Message P
  safe : Bool
  prio : Priority
  channel : ℕ
  deriving DecidableEq, Repr

/-- One `receiveChannelPacket` call: the packet and the registered channels that receive it. -/
structure Handover (P : Type*) where
  id : Str
  packet : P
  receivers : List ℕ
  deriving DecidableEq, Repr

/-- `ChannelProtocol::Data`. -/
structure ChannelProtocol (P : Type*) where
  mode : Mode := .idle
  channels : TreeMap Str (TreeSet ℕ) := ∅
  numToId : TreeMap ℕ Str := ∅
  idToNum : TreeMap Str ℕ := ∅
  todo : TreeMap ℕ (List P) := ∅
  sentReservedChannelPackets : ℕ := 0

/-- What handling one packet does. -/
structure Reaction (P : Type*) where
  state : ChannelProtocol P
  handed : List (Handover P) := []
  sent : List (Outgoing P) := []
  fullState : List (Str × ℕ) := []

namespace ChannelProtocol

variable {P : Type*} (d : ChannelProtocol P)

/-- Round robin over the reserved ordering channels. The source's counter wraps at `2^32`, a
multiple of 16, so the remainders agree. -/
def reservedChannel : ChannelProtocol P × ℕ :=
  ({ d with sentReservedChannelPackets := d.sentReservedChannelPackets + 1 },
    d.sentReservedChannelPackets % reservedChannels)

/-- The number bound to an id, 0 if there is none. -/
def getIdNum (id : Str) : ℕ := (d.idToNum[id]?).getD 0

/-- The id bound to a number, the empty string if there is none. -/
def getNumId (num : ℕ) : Str := (d.numToId[num]?).getD []

/-- Bind an id, unless it is bound already. -/
def setIdNum (id : Str) (num : ℕ) : ChannelProtocol P :=
  match d.idToNum[id]? with
  | none => { d with idToNum := d.idToNum.insert id num, numToId := d.numToId.insert num id }
  | some _ => d

/-- The number of an id, the next free one if it has none. -/
def createIdNum (id : Str) : ChannelProtocol P × ℕ :=
  match d.idToNum[id]? with
  | none =>
    let num := d.idToNum.size + reservedChannels
    (d.setIdNum id num, num)
  | some num => (d, num)

/-- The channels registered under an id, in the order of their addresses. -/
def receivers (id : Str) : List ℕ :=
  match d.channels[id]? with
  | none => []
  | some set => set.toList

/-- No channel object has this address. -/
def unused (channel : ℕ) : Bool :=
  d.channels.toList.all fun entry => !entry.2.toList.contains channel

/-- Add a channel object to the set of its id, and look up the number of the id. -/
def registerNetworkChannel (channel : ℕ) (id : Str) : ChannelProtocol P × ℕ :=
  ({ d with channels := d.channels.insert id (((d.channels[id]?).getD ∅).insert channel) },
    d.getIdNum id)

/-- Remove a channel object from the set of its id. -/
def unregisterNetworkChannel (channel : ℕ) (id : Str) : ChannelProtocol P :=
  match d.channels[id]? with
  | none => d
  | some set => { d with channels := d.channels.insert id (set.erase channel) }

/-- Hand a packet to every channel registered under an id; with none it is dropped. -/
def receiveChannelPacket (id : Str) (packet : P) : Handover P :=
  ⟨id, packet, d.receivers id⟩

/-- The `sendFullState` calls on all registered channels. -/
def handleFullState : List (Str × ℕ) :=
  d.channels.toList.flatMap fun entry => entry.2.toList.map fun channel => (entry.1, channel)

/-- Send a packet of the channel with the given id. -/
def sendChannelPacket (packet : P) (safe : Bool) (prio : Priority) (id : Str) :
    ChannelProtocol P × Option (Outgoing P) :=
  match d.mode with
  | .idle => (d, none)
  | .host =>
    let num := d.getIdNum id
    if num = 0 then
      let (d₁, num) := d.createIdNum id
      let (d₂, channel) := d₁.reservedChannel
      (d₂, some ⟨.idChannelPacket num id packet, true, prio, channel⟩)
    else
      (d, some ⟨.channelPacket num packet, safe, prio, num⟩)
  | .client =>
    let num := d.getIdNum id
    if num = 0 then
      -- number 0: the host replies with the number of the id
      let (d₁, channel) := d.reservedChannel
      (d₁, some ⟨.idChannelPacket 0 id packet, true, prio, channel⟩)
    else
      (d, some ⟨.channelPacket num packet, safe, prio, num⟩)

/-- Send an `idNumPacket` of the given number on a reserved channel. -/
def sendIdNum (num : ℕ) (string : Str) : ChannelProtocol P × Outgoing P :=
  let (d₁, channel) := d.reservedChannel
  (d₁, ⟨.idNumPacket num string, true, .high, channel⟩)

/-- The `idNumPacket` case: a client binds and delivers what waited for the number, the host
answers a request for the id of a number. -/
def receiveIdNum (num : ℕ) (string : Str) : Reaction P :=
  match d.mode with
  | .idle => { state := d }
  | .client =>
    let d₁ := d.setIdNum string num
    { state := { d₁ with todo := d₁.todo.erase num }
      handed := (queueAt d₁.todo num).map (d₁.receiveChannelPacket string) }
  | .host =>
    let (d₁, reply) := d.sendIdNum num (d.getNumId num)
    { state := d₁, sent := [reply] }

/-- The `channelPacket` case: a client parks the packet of an unknown number and asks for it. -/
def receiveChannel (num : ℕ) (packet : P) : Reaction P :=
  match d.mode with
  | .idle => { state := d }
  | .client =>
    let id := d.getNumId num
    if id.length = 0 then
      let (d₁, request) := { d with todo := enqueue d.todo num packet }.sendIdNum num []
      { state := d₁, sent := [request] }
    else
      { state := d, handed := [d.receiveChannelPacket id packet] }
  | .host => { state := d, handed := [d.receiveChannelPacket (d.getNumId num) packet] }

/-- The `idChannelPacket` case: a client binds, then delivers; the host delivers, then binds and
replies with the number. -/
def receiveIdChannel (num : ℕ) (id : Str) (packet : P) : Reaction P :=
  match d.mode with
  | .idle => { state := d }
  | .client =>
    let d₁ := d.setIdNum id num
    { state := d₁, handed := [d₁.receiveChannelPacket id packet] }
  | .host =>
    let handed := d.receiveChannelPacket id packet
    let (d₁, num) := d.createIdNum id
    let (d₂, reply) := d₁.sendIdNum num id
    { state := d₂, handed := [handed], sent := [reply] }

/-- `ChannelProtocol::receive`. -/
def receive : Message P → Reaction P
  | .idNumPacket num string => d.receiveIdNum num string
  | .fullSendPacket => { state := d, fullState := d.handleFullState }
  | .channelPacket num packet => d.receiveChannel num packet
  | .idChannelPacket num id packet => d.receiveIdChannel num id packet

/-- `ChannelProtocol::start`: fresh tables, then the host sends its full state and a client
requests the host's. -/
def start (host : Bool) : Reaction P :=
  let d₁ := { d with
    mode := if host then .host else .client
    idToNum := ∅
    numToId := ∅
    todo := ∅ }
  if host then
    { state := d₁, fullState := d₁.handleFullState }
  else
    let (d₂, channel) := d₁.reservedChannel
    { state := d₂, sent := [⟨.fullSendPacket, true, .high, channel⟩] }

/-- `ChannelProtocol::stop`. -/
def stop : ChannelProtocol P := { d with mode := .idle }

/-! ## What each operation changes -/

/-- Taking a reserved channel keeps the mode. -/
@[simp] theorem reservedChannel_mode : d.reservedChannel.1.mode = d.mode := rfl

/-- It keeps the channels. -/
@[simp] theorem reservedChannel_channels : d.reservedChannel.1.channels = d.channels := rfl

/-- It keeps the numbers of the ids. -/
@[simp] theorem reservedChannel_idToNum : d.reservedChannel.1.idToNum = d.idToNum := rfl

/-- It keeps the ids of the numbers. -/
@[simp] theorem reservedChannel_numToId : d.reservedChannel.1.numToId = d.numToId := rfl

/-- It keeps what waits for ids. -/
@[simp] theorem reservedChannel_todo : d.reservedChannel.1.todo = d.todo := rfl

/-- Binding an id keeps the mode. -/
@[simp] theorem setIdNum_mode (id : Str) (num : ℕ) : (d.setIdNum id num).mode = d.mode := by
  unfold setIdNum
  split <;> rfl

/-- It keeps the channels. -/
@[simp] theorem setIdNum_channels (id : Str) (num : ℕ) :
    (d.setIdNum id num).channels = d.channels := by
  unfold setIdNum
  split <;> rfl

/-- It keeps what waits for ids. -/
@[simp] theorem setIdNum_todo (id : Str) (num : ℕ) : (d.setIdNum id num).todo = d.todo := by
  unfold setIdNum
  split <;> rfl

/-- So the channels of an id are the same. -/
@[simp] theorem setIdNum_receivers (id id' : Str) (num : ℕ) :
    (d.setIdNum id num).receivers id' = d.receivers id' := by
  simp only [receivers, setIdNum_channels]

/-- After binding, the id has a number: the given one unless it had one before. -/
theorem setIdNum_idToNum_self (id : Str) (num : ℕ) :
    (d.setIdNum id num).idToNum[id]? = some ((d.idToNum[id]?).getD num) := by
  unfold setIdNum
  split <;> simp_all

/-- Binding keeps every earlier pair. -/
theorem setIdNum_keeps {id id' : Str} {num num' : ℕ} (h : d.idToNum[id']? = some num') :
    (d.setIdNum id num).idToNum[id']? = some num' := by
  unfold setIdNum
  split
  · rename_i hnone
    have hne : id ≠ id' := by
      rintro rfl
      rw [hnone] at h
      cases h
    rw [TreeMap.getElem?_insert, if_neg (by simpa using hne)]
    exact h
  · exact h

/-- Binding a number does not name another one. -/
theorem setIdNum_numToId_of_ne {num num' : ℕ} (h : num' ≠ num) (id : Str) :
    (d.setIdNum id num).numToId[num']? = d.numToId[num']? := by
  unfold setIdNum
  split
  · rw [TreeMap.getElem?_insert, if_neg (by simpa using h.symm)]
  · rfl

/-- Creating a number keeps the mode. -/
@[simp] theorem createIdNum_mode (id : Str) : (d.createIdNum id).1.mode = d.mode := by
  unfold createIdNum
  split <;> simp

/-- It keeps the channels. -/
@[simp] theorem createIdNum_channels (id : Str) : (d.createIdNum id).1.channels = d.channels := by
  unfold createIdNum
  split <;> simp

/-- It keeps what waits for ids. -/
@[simp] theorem createIdNum_todo (id : Str) : (d.createIdNum id).1.todo = d.todo := by
  unfold createIdNum
  split <;> simp

/-- The number `createIdNum` returns is the one the id is bound to afterwards. -/
theorem createIdNum_bound (id : Str) :
    (d.createIdNum id).1.idToNum[id]? = some (d.createIdNum id).2 := by
  unfold createIdNum
  split <;> simp_all [setIdNum_idToNum_self]

/-- `getIdNum` on a bound id. -/
theorem getIdNum_of_bound {id : Str} {num : ℕ} (h : d.idToNum[id]? = some num) :
    d.getIdNum id = num := by
  simp [getIdNum, h]

/-- `getNumId` on a bound number. -/
theorem getNumId_of_bound {id : Str} {num : ℕ} (h : d.numToId[num]? = some id) :
    d.getNumId num = id := by
  simp [getNumId, h]

/-- Announcing a number keeps the mode. -/
@[simp] theorem sendIdNum_mode (num : ℕ) (string : Str) :
    (d.sendIdNum num string).1.mode = d.mode := rfl

/-- It keeps the channels. -/
@[simp] theorem sendIdNum_channels (num : ℕ) (string : Str) :
    (d.sendIdNum num string).1.channels = d.channels := rfl

/-- It keeps the numbers of the ids. -/
@[simp] theorem sendIdNum_idToNum (num : ℕ) (string : Str) :
    (d.sendIdNum num string).1.idToNum = d.idToNum := rfl

/-- It keeps the ids of the numbers. -/
@[simp] theorem sendIdNum_numToId (num : ℕ) (string : Str) :
    (d.sendIdNum num string).1.numToId = d.numToId := rfl

/-- It keeps what waits for ids. -/
@[simp] theorem sendIdNum_todo (num : ℕ) (string : Str) :
    (d.sendIdNum num string).1.todo = d.todo := rfl

/-- What is sent is the number with its id. -/
@[simp] theorem sendIdNum_message (num : ℕ) (string : Str) :
    (d.sendIdNum num string).2.message = .idNumPacket num string := rfl

/-- It is sent safely. -/
@[simp] theorem sendIdNum_safe (num : ℕ) (string : Str) :
    (d.sendIdNum num string).2.safe = true := rfl

/-! ## What sending does, by mode -/

/-- An idle party sends nothing. -/
theorem sendChannelPacket_idle (hmode : d.mode = .idle) (packet : P) (safe : Bool)
    (prio : Priority) (id : Str) : d.sendChannelPacket packet safe prio id = (d, none) := by
  simp [sendChannelPacket, hmode]

/-- Who sends is not idle. -/
theorem mode_ne_idle_of_sends {d' : ChannelProtocol P} {packet : P} {safe : Bool} {prio : Priority}
    {id : Str} {out : Outgoing P} (h : d.sendChannelPacket packet safe prio id = (d', some out)) :
    d.mode ≠ .idle := by
  intro hidle
  rw [d.sendChannelPacket_idle hidle] at h
  cases h

/-- An id that has a number is bound to it. -/
theorem bound_of_getIdNum {id : Str} (hnum : d.getIdNum id ≠ 0) :
    ∃ num, d.idToNum[id]? = some num ∧ d.getIdNum id = num := by
  cases hid : d.idToNum[id]? with
  | none => simp [getIdNum, hid] at hnum
  | some num => exact ⟨num, rfl, d.getIdNum_of_bound hid⟩

/-- The host sends on the number of the id, or binds a number and announces it. -/
theorem sendChannelPacket_host (hmode : d.mode = .host) (packet : P) (safe : Bool)
    (prio : Priority) (id : Str) :
    (∃ num, d.idToNum[id]? = some num ∧ num ≠ 0 ∧
      d.sendChannelPacket packet safe prio id =
        (d, some ⟨.channelPacket num packet, safe, prio, num⟩)) ∨
    (d.getIdNum id = 0 ∧
      d.sendChannelPacket packet safe prio id =
        ((d.createIdNum id).1.reservedChannel.1,
          some ⟨.idChannelPacket (d.createIdNum id).2 id packet, true, prio,
            (d.createIdNum id).1.reservedChannel.2⟩)) := by
  by_cases hnum : d.getIdNum id = 0
  · right
    simp [sendChannelPacket, hmode, hnum]
  · left
    obtain ⟨num, hid, hget⟩ := d.bound_of_getIdNum hnum
    rw [hget] at hnum
    exact ⟨num, hid, hnum, by simp [sendChannelPacket, hmode, hget, hnum]⟩

/-- A client sends on the number of the id, or sends the id itself. -/
theorem sendChannelPacket_client (hmode : d.mode = .client) (packet : P) (safe : Bool)
    (prio : Priority) (id : Str) :
    (∃ num, d.idToNum[id]? = some num ∧ num ≠ 0 ∧
      d.sendChannelPacket packet safe prio id =
        (d, some ⟨.channelPacket num packet, safe, prio, num⟩)) ∨
    (d.getIdNum id = 0 ∧
      d.sendChannelPacket packet safe prio id =
        (d.reservedChannel.1,
          some ⟨.idChannelPacket 0 id packet, true, prio, d.reservedChannel.2⟩)) := by
  by_cases hnum : d.getIdNum id = 0
  · right
    simp [sendChannelPacket, hmode, hnum]
  · left
    obtain ⟨num, hid, hget⟩ := d.bound_of_getIdNum hnum
    rw [hget] at hnum
    exact ⟨num, hid, hnum, by simp [sendChannelPacket, hmode, hget, hnum]⟩

/-- What reaches the connection: a packet on the number of the id, or one with the id itself,
for which the host binds a number. -/
theorem sendChannelPacket_cases {d' : ChannelProtocol P} {packet : P} {safe : Bool}
    {prio : Priority} {id : Str} {out : Outgoing P}
    (h : d.sendChannelPacket packet safe prio id = (d', some out)) :
    (∃ num, d.idToNum[id]? = some num ∧ d' = d ∧
      out = ⟨.channelPacket num packet, safe, prio, num⟩) ∨
    (d.getIdNum id = 0 ∧ d'.mode = d.mode ∧ d'.todo = d.todo ∧
      d'.idToNum = (match d.mode with | .host => (d.createIdNum id).1.idToNum | _ => d.idToNum) ∧
      ∃ num, out.message = .idChannelPacket num id packet) := by
  cases hmode : d.mode with
  | idle => exact absurd hmode (d.mode_ne_idle_of_sends h)
  | host =>
    rcases d.sendChannelPacket_host hmode packet safe prio id with
      ⟨num, hnum, -, hsend⟩ | ⟨hnum, hsend⟩
    · rw [hsend] at h
      cases h
      exact .inl ⟨num, hnum, rfl, rfl⟩
    · rw [hsend] at h
      cases h
      exact .inr ⟨hnum, by simp [hmode], by simp, rfl, _, rfl⟩
  | client =>
    rcases d.sendChannelPacket_client hmode packet safe prio id with
      ⟨num, hnum, -, hsend⟩ | ⟨hnum, hsend⟩
    · rw [hsend] at h
      cases h
      exact .inl ⟨num, hnum, rfl, rfl⟩
    · rw [hsend] at h
      cases h
      exact .inr ⟨hnum, hmode, rfl, rfl, _, rfl⟩

/-- `sendFullState` is only called on registered channels. -/
theorem mem_channels_of_handleFullState {call : Str × ℕ} (h : call ∈ d.handleFullState) :
    call.1 ∈ d.channels := by
  obtain ⟨⟨id, set⟩, hentry, hcall⟩ := List.mem_flatMap.mp h
  obtain ⟨channel, -, rfl⟩ := List.mem_map.mp hcall
  rw [TreeMap.mem_iff_isSome_getElem?, TreeMap.mem_toList_iff_getElem?_eq_some.mp hentry]
  rfl

/-- The `sendFullState` calls are those of the registered channels. -/
theorem mem_handleFullState_iff {id : Str} {channel : ℕ} :
    (id, channel) ∈ d.handleFullState ↔ channel ∈ d.receivers id := by
  simp only [handleFullState, receivers, List.mem_flatMap, List.mem_map, Prod.mk.injEq]
  constructor
  · rintro ⟨⟨id', set⟩, hentry, channel', hchannel, rfl, rfl⟩
    rw [TreeMap.mem_toList_iff_getElem?_eq_some.mp hentry]
    exact hchannel
  · intro hchannel
    cases hid : d.channels[id]? with
    | none => simp [hid] at hchannel
    | some set =>
      rw [hid] at hchannel
      have hentry := TreeMap.mem_toList_iff_getElem?_eq_some.mpr hid
      exact ⟨(id, set), hentry, channel, hchannel, rfl, rfl⟩

/-! ## What receiving does, by message and mode -/

/-- A request for the full state calls all channels. -/
theorem receive_fullSendPacket :
    d.receive .fullSendPacket = { state := d, fullState := d.handleFullState } := rfl

/-- Nothing else is received in idle mode. -/
theorem receive_idle (hmode : d.mode = .idle) {m : Message P} (hm : m ≠ .fullSendPacket) :
    d.receive m = { state := d } := by
  cases m <;> simp_all [receive, receiveIdNum, receiveChannel, receiveIdChannel]

/-- A host looks up the id of the number. -/
theorem receive_channelPacket_host (hmode : d.mode = .host) (num : ℕ) (packet : P) :
    d.receive (.channelPacket num packet) =
      { state := d, handed := [d.receiveChannelPacket (d.getNumId num) packet] } := by
  simp [receive, receiveChannel, hmode]

/-- A host creates the number of the id and answers with it. -/
theorem receive_idChannelPacket_host (hmode : d.mode = .host) (num : ℕ) (id : Str) (packet : P) :
    d.receive (.idChannelPacket num id packet) =
      { state := ((d.createIdNum id).1.sendIdNum (d.createIdNum id).2 id).1
        handed := [d.receiveChannelPacket id packet]
        sent := [((d.createIdNum id).1.sendIdNum (d.createIdNum id).2 id).2] } := by
  simp [receive, receiveIdChannel, hmode]

/-- A host answers a number with its id. -/
theorem receive_idNumPacket_host (hmode : d.mode = .host) (num : ℕ) (string : Str) :
    d.receive (.idNumPacket num string) =
      { state := (d.sendIdNum num (d.getNumId num)).1
        sent := [(d.sendIdNum num (d.getNumId num)).2] } := by
  simp [receive, receiveIdNum, hmode]

/-- A client parks the packet of a number it cannot name, and asks for the id. -/
theorem receive_channelPacket_unknown (hmode : d.mode = .client) {num : ℕ}
    (hnum : d.numToId[num]? = none) (packet : P) :
    d.receive (.channelPacket num packet) =
      { state := ({ d with todo := enqueue d.todo num packet }.sendIdNum num []).1
        sent := [({ d with todo := enqueue d.todo num packet }.sendIdNum num []).2] } := by
  simp [receive, receiveChannel, hmode, getNumId, hnum]

/-- A client delivers the packet of a number it can name. -/
theorem receive_channelPacket_known (hmode : d.mode = .client) {num : ℕ} {id : Str}
    (hnum : d.numToId[num]? = some id) (hid : id ≠ []) (packet : P) :
    d.receive (.channelPacket num packet) =
      { state := d, handed := [d.receiveChannelPacket id packet] } := by
  simp [receive, receiveChannel, hmode, getNumId, hnum, hid]

/-- A client takes over the number of the id. -/
theorem receive_idChannelPacket_client (hmode : d.mode = .client) (num : ℕ) (id : Str)
    (packet : P) :
    d.receive (.idChannelPacket num id packet) =
      { state := d.setIdNum id num
        handed := [d.receiveChannelPacket id packet] } := by
  simp [receive, receiveIdChannel, hmode, receiveChannelPacket]

/-- A client takes over the number, and hands over what waited for it. -/
theorem receive_idNumPacket_client (hmode : d.mode = .client) (num : ℕ) (string : Str) :
    d.receive (.idNumPacket num string) =
      { state := { d.setIdNum string num with todo := d.todo.erase num }
        handed := (queueAt d.todo num).map (d.receiveChannelPacket string) } := by
  simp only [receive, receiveIdNum, hmode, setIdNum_todo, Reaction.mk.injEq, and_true, true_and]
  exact List.map_congr_left fun packet _ => by simp [receiveChannelPacket]

/-- Receiving changes neither the mode nor the registered channels. -/
theorem receive_unchanged (m : Message P) :
    (d.receive m).state.mode = d.mode ∧ (d.receive m).state.channels = d.channels := by
  cases m with
  | fullSendPacket => exact ⟨rfl, rfl⟩
  | channelPacket num packet =>
    simp only [receive, receiveChannel]
    split
    · exact ⟨rfl, rfl⟩
    · split <;> exact ⟨rfl, rfl⟩
    · exact ⟨rfl, rfl⟩
  | idChannelPacket num id packet =>
    simp only [receive, receiveIdChannel]
    split <;> simp
  | idNumPacket num string =>
    simp only [receive, receiveIdNum]
    split <;> simp

/-- Receiving never changes the mode. -/
@[simp] theorem receive_mode (m : Message P) : (d.receive m).state.mode = d.mode :=
  (d.receive_unchanged m).1

/-- Receiving never changes the registered channels. -/
@[simp] theorem receive_channels (m : Message P) : (d.receive m).state.channels = d.channels :=
  (d.receive_unchanged m).2

/-- A packet is handed to the channels registered under the id it is handed over for. -/
theorem receive_handed_receivers (m : Message P) :
    ∀ h ∈ (d.receive m).handed, h.receivers = d.receivers h.id := by
  cases m with
  | fullSendPacket => simp [receive]
  | channelPacket num packet =>
    simp only [receive, receiveChannel]
    split
    · simp
    · split <;> simp [receiveChannelPacket]
    · simp [receiveChannelPacket]
  | idChannelPacket num id packet =>
    simp only [receive, receiveIdChannel]
    split <;> simp [receiveChannelPacket]
  | idNumPacket num string =>
    simp only [receive, receiveIdNum]
    split <;> simp [receiveChannelPacket]

/-- Only a request for the full state makes `sendFullState` calls. -/
theorem receive_fullState {m : Message P} (hm : m ≠ .fullSendPacket) :
    (d.receive m).fullState = [] := by
  cases m with
  | fullSendPacket => exact absurd rfl hm
  | channelPacket num packet =>
    simp only [receive, receiveChannel]
    split
    · rfl
    · split <;> rfl
    · rfl
  | idChannelPacket num id packet =>
    simp only [receive, receiveIdChannel]
    split <;> rfl
  | idNumPacket num string =>
    simp only [receive, receiveIdNum]
    split <;> rfl

/-- Receiving makes `sendFullState` calls on registered channels only. -/
theorem mem_channels_of_receive_fullState {m : Message P} {call : Str × ℕ}
    (h : call ∈ (d.receive m).fullState) : call.1 ∈ d.channels := by
  by_cases hm : m = .fullSendPacket
  · subst hm
    exact d.mem_channels_of_handleFullState h
  · rw [d.receive_fullState hm] at h
    cases h

/-- Sending never changes the registered channels. -/
@[simp] theorem sendChannelPacket_channels (packet : P) (safe : Bool) (prio : Priority) (id : Str) :
    (d.sendChannelPacket packet safe prio id).1.channels = d.channels := by
  simp only [sendChannelPacket]
  split
  · rfl
  · split
    · simp
    · rfl
  · split
    · rfl
    · rfl

/-- Receiving keeps every pair of the tables. -/
theorem receive_keeps (m : Message P) {id : Str} {num : ℕ} (h : d.idToNum[id]? = some num) :
    (d.receive m).state.idToNum[id]? = some num := by
  cases m with
  | fullSendPacket => exact h
  | channelPacket num packet =>
    simp only [receive, receiveChannel]
    split
    · exact h
    · split <;> exact h
    · exact h
  | idChannelPacket num' id' packet =>
    simp only [receive, receiveIdChannel]
    split
    · exact h
    · exact d.setIdNum_keeps h
    · rw [sendIdNum_idToNum]
      unfold createIdNum
      split
      · exact d.setIdNum_keeps h
      · exact h
  | idNumPacket num' string =>
    simp only [receive, receiveIdNum]
    split
    · exact h
    · exact d.setIdNum_keeps h
    · exact h

/-! ## Registration -/

/-- An unused address is registered under no id. -/
theorem not_mem_receivers_of_unused {channel : ℕ} (h : d.unused channel) (id : Str) :
    channel ∉ d.receivers id := by
  unfold receivers
  cases hset : d.channels[id]? with
  | none => simp
  | some set =>
    have hentry := List.all_eq_true.mp h _ (TreeMap.mem_toList_iff_getElem?_eq_some.mpr hset)
    simpa using hentry

/-- Registering adds no id but the given one. -/
theorem mem_channels_registerNetworkChannel {channel : ℕ} {id id' : Str}
    (h : id' ∈ (d.registerNetworkChannel channel id).1.channels) : id' ∈ d.channels ∨ id' = id := by
  rw [registerNetworkChannel, TreeMap.mem_insert] at h
  exact h.symm.imp (·) fun heq => (Std.LawfulEqOrd.eq_of_compare heq).symm

/-- Unregistering adds no id. -/
theorem mem_channels_unregisterNetworkChannel {channel : ℕ} {id id' : Str}
    (h : id' ∈ (d.unregisterNetworkChannel channel id).channels) : id' ∈ d.channels := by
  unfold unregisterNetworkChannel at h
  split at h
  · exact h
  · rename_i set hset
    rw [TreeMap.mem_insert] at h
    rcases h with heq | hold
    · rw [← Std.LawfulEqOrd.eq_of_compare heq, TreeMap.mem_iff_isSome_getElem?, hset]
      rfl
    · exact hold

/-- The channels of an id after one is registered. -/
theorem mem_receivers_registerNetworkChannel (channel channel' : ℕ) (id id' : Str) :
    channel' ∈ (d.registerNetworkChannel channel id).1.receivers id' ↔
      channel' ∈ d.receivers id' ∨ channel' = channel ∧ id' = id := by
  have hchannel : compare channel channel' = .eq ↔ channel' = channel := by
    rw [Nat.compare_eq_eq, eq_comm]
  simp only [registerNetworkChannel, receivers]
  rw [TreeMap.getElem?_insert]
  by_cases hid : id = id'
  · subst hid
    rw [if_pos (by simp)]
    cases hset : d.channels[id]? with
    | none => simp [hchannel]
    | some set => simp [hchannel, or_comm]
  · rw [if_neg (by simpa using hid)]
    simp [Ne.symm hid]

/-- The channels of an id after one is unregistered. -/
theorem mem_receivers_unregisterNetworkChannel (channel channel' : ℕ) (id id' : Str) :
    channel' ∈ (d.unregisterNetworkChannel channel id).receivers id' ↔
      channel' ∈ d.receivers id' ∧ ¬ (channel' = channel ∧ id' = id) := by
  have hchannel : compare channel channel' = .eq ↔ channel' = channel := by
    rw [Nat.compare_eq_eq, eq_comm]
  unfold unregisterNetworkChannel
  cases hset : d.channels[id]? with
  | none =>
    simp only [receivers]
    by_cases hid : id' = id
    · simp [hid, hset]
    · simp [hid]
  | some set =>
    simp only [receivers, TreeMap.getElem?_insert]
    by_cases hid : id = id'
    · subst hid
      rw [if_pos (by simp)]
      simp [hset, and_comm, hchannel]
    · rw [if_neg (by simpa using hid)]
      simp [Ne.symm hid]

/-- Unregistering a channel keeps the mode. -/
@[simp] theorem unregisterNetworkChannel_mode (channel : ℕ) (id : Str) :
    (d.unregisterNetworkChannel channel id).mode = d.mode := by
  unfold unregisterNetworkChannel
  split <;> rfl

/-- It keeps the numbers of the ids. -/
@[simp] theorem unregisterNetworkChannel_idToNum (channel : ℕ) (id : Str) :
    (d.unregisterNetworkChannel channel id).idToNum = d.idToNum := by
  unfold unregisterNetworkChannel
  split <;> rfl

/-- It keeps the ids of the numbers. -/
@[simp] theorem unregisterNetworkChannel_numToId (channel : ℕ) (id : Str) :
    (d.unregisterNetworkChannel channel id).numToId = d.numToId := by
  unfold unregisterNetworkChannel
  split <;> rfl

/-- It keeps what waits for ids. -/
@[simp] theorem unregisterNetworkChannel_todo (channel : ℕ) (id : Str) :
    (d.unregisterNetworkChannel channel id).todo = d.todo := by
  unfold unregisterNetworkChannel
  split <;> rfl

end ChannelProtocol

end Multicrew.Core
