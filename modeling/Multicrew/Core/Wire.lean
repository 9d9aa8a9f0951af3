import Multicrew.Core.Packets
import Multicrew.Core.PacketKey

/-!
# Messages on the wire

`Connection::send` compiles a `MulticrewPacket` behind the byte 127, and `processPacket` gets what
follows that byte. `parse` reads the headers of a packet in the order in which
`ChannelProtocol::receive` reads them; what is done with the message is the protocol of a party
over the slices that are left for the channels.
-/

namespace Multicrew.Core

open Multicrew.Library

/-- The same message about other payloads. -/
def Message.map {P Q : Type*} (f : P → Q) : Message P → Message Q
  | .fullSendPacket => .fullSendPacket
  | .channelPacket num packet => .channelPacket num (f packet)
  | .idChannelPacket num id packet => .idChannelPacket num id (f packet)
  | .idNumPacket num string => .idNumPacket num string

/-- The type and the number in the key of a message. -/
def Message.key {P : Type*} : Message P → UInt16
  | .fullSendPacket => packetKey PacketType.fullSendPacket.code 0
  | .channelPacket num _ => packetKey PacketType.channelPacket.code num
  | .idChannelPacket num _ _ => packetKey PacketType.idChannelPacket.code num
  | .idNumPacket num _ => packetKey PacketType.idNumPacket.code num

/-- The `MulticrewPacket` of a message. -/
def Message.packet (heap : ℕ → UInt8) (m : Message PacketBase) : PacketBase :=
  multicrewPacket heap m.key <| match m with
    | .fullSendPacket => .emptyPacket
    | .channelPacket _ packet => packet
    | .idChannelPacket _ id packet => stringWrappedPacket heap id packet
    | .idNumPacket _ string => .stringPacket string

/-- The buffer `Connection::send` gives to the transport. -/
def wire (heap : ℕ → UInt8) (packet : PacketBase) : List UInt8 :=
  let size := packet.compiledSize + 1
  let buffer := malloc heap size
  let buffer := overwrite buffer 1 packet.compile
  overwrite buffer 0 [127]

/-- The data `processPacket` gets. -/
def unwire (buffer : List UInt8) : List UInt8 := buffer.drop 1

namespace MulticrewPacket

/-- `MulticrewPacket::key( buffer )` -/
def key (buffer : Received) : Except Fault UInt16 :=
  (fun bytes => .ofNat (ofBytes bytes)) <$> buffer.buffer.read 2

/-- `MulticrewPacket::data( buffer )` -/
def data (buffer : Received) : Except Fault Received := buffer.slice 2

end MulticrewPacket

namespace ChannelProtocol

/-- The message in a packet; none if the packet is ignored. -/
def parse (mode : Mode) (buf : Received) : Except Fault (Option (Message Received)) := do
  let key ← MulticrewPacket.key buf
  let num := keyNum key
  match PacketType.ofCode (keyType key) with
  | some .idNumPacket =>
    let data ← MulticrewPacket.data buf
    let string ← data.buffer.readString
    return some (.idNumPacket num string)
  | some .fullSendPacket => return some .fullSendPacket
  | some .channelPacket =>
    if mode = .idle then return none
    let data ← MulticrewPacket.data buf
    return some (.channelPacket num data)
  | some .idChannelPacket =>
    if mode = .idle then return none
    let data ← MulticrewPacket.data buf
    let id ← data.buffer.readString
    let packet ← data.slice (id.length + 1)
    return some (.idChannelPacket num id packet)
  | none => return none

/-- `ChannelProtocol::receive` of a buffer; `deliver` decodes a payload for its channels. -/
def receiveBuffer (deliver : Handover Received → Except Fault Unit) (d : ChannelProtocol Received)
    (buf : Received) : Except Fault (Reaction Received) := do
  match ← parse d.mode buf with
  | none => return { state := d }
  | some m =>
    let r := d.receive m
    forM r.handed deliver
    return r

/-- `Connection::processPacket` -/
def processPacket (deliver : Handover Received → Except Fault Unit) (d : ChannelProtocol Received)
    (data : List UInt8) : Except Fault (Reaction Received) :=
  d.receiveBuffer deliver (.copyOf data)

end ChannelProtocol

/-- The wire format of a message. -/
def Message.bytes (m : Message (List UInt8)) : List UInt8 :=
  toBytes 2 m.key.toNat ++ match m with
    | .fullSendPacket => []
    | .channelPacket _ packet => packet
    | .idChannelPacket _ id packet => id ++ 0 :: packet
    | .idNumPacket _ string => string ++ [0]

/-- The format has room for the number, and the strings contain no NUL. -/
def Message.Encodable {P : Type*} : Message P → Prop
  | .fullSendPacket => True
  | .channelPacket num _ => num < 4096
  | .idChannelPacket num id _ => num < 4096 ∧ 0 ∉ id
  | .idNumPacket num string => num < 4096 ∧ 0 ∉ string

/-- What is sent is the compiled packet behind the byte 127. -/
theorem CompilesTo.wire {heap : ℕ → UInt8} {packet : PacketBase} {bytes : List UInt8}
    (h : CompilesTo packet bytes) : wire heap packet = 127 :: bytes := by
  have hlength : (malloc heap (packet.compiledSize + 1)).length =
      ([127] : List UInt8).length + packet.compile.length := by
    simp [malloc, h.compile, h.compiledSize, Nat.add_comm]
  have hfill := overwrite_zero_overwrite hlength
  rw [h.compile] at hfill
  rw [Core.wire, h.compile]
  exact hfill

/-- Every message compiles to its wire format. -/
theorem Message.compilesTo (heap : ℕ → UInt8) {m : Message Payload} (hm : m.Encodable)
    (hpayload : ∀ p, m.payload = some p → p.NulFree) :
    CompilesTo ((m.map (Payload.packet heap)).packet heap) (m.map Payload.bytes).bytes := by
  cases m with
  | fullSendPacket =>
    have hbody : CompilesTo .emptyPacket [] := ⟨rfl, rfl⟩
    exact hbody.wrapped _
  | channelPacket num p => exact (p.compilesTo heap (hpayload p rfl)).wrapped _
  | idChannelPacket num id p =>
    exact ((p.compilesTo heap (hpayload p rfl)).stringWrapped hm.2).wrapped _
  | idNumPacket num string =>
    have hbody : CompilesTo (.stringPacket string) (string ++ [0]) :=
      Payload.compilesTo heap (.string string) hm.2
    exact hbody.wrapped _

/-- Two bytes of a key and the number read from them. -/
theorem MulticrewPacket.key_of_bytes {b : Received} {key : UInt16} {rest : List UInt8}
    (hb : b.bytes = toBytes 2 key.toNat ++ rest) :
    MulticrewPacket.key b = .ok key ∧ ∃ b', MulticrewPacket.data b = .ok b' ∧ b'.bytes = rest := by
  obtain ⟨hread, hdata⟩ := b.split hb (length_toBytes ..)
  have hkey : key.toNat < 256 ^ 2 := key.toNat_lt
  refine ⟨?_, hdata⟩
  simp [MulticrewPacket.key, hread, ofBytes_toBytes_of_lt hkey]

/-- The headers that are read behind a key. -/
theorem ChannelProtocol.parse_of_key {mode : Mode} {b b' : Received} {key : UInt16}
    (hkey : MulticrewPacket.key b = .ok key) (hdata : MulticrewPacket.data b = .ok b') :
    parse mode b = match PacketType.ofCode (keyType key) with
      | some .idNumPacket =>
        (fun string => some (.idNumPacket (keyNum key) string)) <$> b'.buffer.readString
      | some .fullSendPacket => .ok (some .fullSendPacket)
      | some .channelPacket =>
        if mode = .idle then .ok none else .ok (some (.channelPacket (keyNum key) b'))
      | some .idChannelPacket =>
        if mode = .idle then .ok none else b'.buffer.readString >>= fun id =>
          (fun packet => some (.idChannelPacket (keyNum key) id packet)) <$> b'.slice (id.length + 1)
      | none => .ok none := by
  rw [parse, hkey, ok_bind]
  cases PacketType.ofCode (keyType key) with
  | none => rfl
  | some type =>
    cases type with
    | fullSendPacket => rfl
    | idNumPacket => simp [hdata]
    | channelPacket =>
      simp only [hdata, ok_bind]
      split <;> rfl
    | idChannelPacket =>
      simp only [hdata, ok_bind]
      split <;> rfl

/-- A string in front of a NUL is read back. -/
theorem SharedBuffer.readString_of_data {b : SharedBuffer} {s rest : List UInt8} (hs : 0 ∉ s)
    (hb : b.data = s ++ 0 :: rest) : b.readString = .ok s := by
  rw [readString, hb, cString_append hs, if_pos]
  simp

/-- A party that is not idle parses the wire format of a message as that message. -/
theorem ChannelProtocol.parse_bytes {mode : Mode} (hmode : mode ≠ .idle) {m : Message (List UInt8)}
    (hm : m.Encodable) {b : Received} (hb : b.bytes = m.bytes) :
    ∃ m', parse mode b = .ok (some m') ∧ m'.map Received.bytes = m := by
  obtain ⟨hkey, data, hdata, hrest⟩ := MulticrewPacket.key_of_bytes hb
  have hnum : ∀ (type : PacketType) {num}, num < 4096 →
      keyNum (packetKey type.code num) = num :=
    fun type num => (keyNum_packetKey_eq_iff type.code_lt num).mpr
  have hparse := @parse_of_key mode _ _ _ hkey hdata
  cases m with
  | fullSendPacket =>
    refine ⟨.fullSendPacket, ?_, rfl⟩
    simp [hparse, Message.key]
  | channelPacket num p =>
    refine ⟨.channelPacket num data, ?_, by rw [Message.map, hrest]⟩
    simp [hparse, Message.key, hnum _ hm, hmode]
  | idChannelPacket num id p =>
    have hstring := SharedBuffer.readString_of_data hm.2 hrest
    have hlength : id.length + 1 ≤ data.bytes.length := by simp [hrest]
    obtain ⟨packet, hslice, hpacket⟩ := data.slice_of_le hlength
    have hdrop : data.bytes.drop (id.length + 1) = p := by simp [hrest]
    refine ⟨.idChannelPacket num id packet, ?_, by rw [Message.map, hpacket, hdrop]⟩
    simp [hparse, Message.key, hnum _ hm.1, hmode, hstring, hslice]
  | idNumPacket num string =>
    have hstring := SharedBuffer.readString_of_data hm.2 hrest
    refine ⟨.idNumPacket num string, ?_, rfl⟩
    simp [hparse, Message.key, hnum _ hm.1, hstring]

end Multicrew.Core
