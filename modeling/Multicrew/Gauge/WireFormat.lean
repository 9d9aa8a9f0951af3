import Multicrew.Gauge.Channels

/-!
# Payloads over the wire

A payload reaches the channels in two forms: behind the id of the channel, until its number is
known, and behind the number alone. In both forms the channel's decoder gets the compiled bytes of
the payload, and reads its fields back from them.
-/

namespace Multicrew.Gauge

open Std (TreeMap TreeSet)
open Multicrew.Core Multicrew.Library

/-- What the accessors of a packet object read. -/
def ChannelPacket.fields : ChannelPacket → Except Fault Payload
  | .structPacket _ data => return .struct data
  | .stringPacket string => return .string string
  | .fsuipcPacket buffer => do
    let id ← FsuipcPacket.id buffer
    let size ← FsuipcPacket.size buffer
    let data ← FsuipcPacket.data buffer
    return .fsuipc id size data.bytes
  | .metafileChannelPacket buffer => do
    let key ← typedKey buffer
    let mp ← buffer.slice 1
    let innerKey ← typedKey mp
    match ← MetafilePacket.wrappee mp with
    | some (.dataPacket buffer) =>
      let mdp ← MetafileDataPacket.decode buffer
      return .typed key (.typed innerKey (.metafileData mdp.counter mdp.buffer))
    | some _ => return .typed key (.typed innerKey .empty)
    | none => throw .nullPacket

/-- The payloads that channels of a kind send. -/
def ChannelKind.Sends : ChannelKind → Payload → Prop
  | .structChannel c, .struct data => data.length = c.sizeof
  | .stringElement, .string string => 0 ∉ string
  | .fsuipcModule, .fsuipc _ size data => data.length = size.toNat
  | .metafileChannel, .typed _ (.typed key (.metafileData _ _)) => key = 2
  | .metafileChannel, .typed _ (.typed key .empty) => key = 0 ∨ key = 1
  | _, _ => False

/-- The forms in which the payload of a channel travels. -/
inductive Form
  | idChannelPacket
  | channelPacket
  deriving DecidableEq, Repr

/-- The message with a payload of the channel `id`. -/
def Form.message {P : Type*} (form : Form) (num : ℕ) (id : Str) (packet : P) : Message P :=
  match form with
  | .idChannelPacket => .idChannelPacket num id packet
  | .channelPacket => .channelPacket num packet

/-- The party reads the message from the data, with its type, its number and its id, and its only
delivery is of the payload's compiled bytes, from which the first channel decodes the payload. -/
def Arrives (kind : ℕ → ChannelKind) (d : ChannelProtocol Received) (data : List UInt8)
    (form : Form) (num : ℕ) (id : Str) (packet : PacketBase) (payload : Payload) : Prop :=
  ∃ buffer : Received, buffer.bytes = packet.compile ∧ buffer.buffer.size = packet.compiledSize ∧
    ChannelProtocol.parse d.mode (.copyOf data) = .ok (some (form.message num id buffer)) ∧
    (∀ handOver, d.processPacket handOver data =
      (fun _ => d.receive (form.message num id buffer)) <$>
        handOver ⟨id, buffer, d.receivers id⟩) ∧
    ∀ first rest, d.receivers id = first :: rest →
      ∃ object, (kind first).createPacket buffer = .ok object ∧ object.fields = .ok payload

/-- What channels send contains no NUL in its strings. -/
theorem ChannelKind.Sends.nulFree {kind : ChannelKind} {payload : Payload}
    (h : kind.Sends payload) : payload.NulFree := by
  cases payload with
  | string s =>
    cases kind with
    | stringElement => exact h
    | _ => exact h.elim
  | typed key wrappee =>
    cases wrappee with
    | typed key wrappee =>
      cases wrappee with
      | string s => cases kind <;> exact h.elim
      | typed key wrappee => cases kind <;> exact h.elim
      | _ => trivial
    | string s => cases kind <;> exact h.elim
    | _ => trivial
  | _ => trivial

/-- The byte at the head of a range and the range behind it. -/
theorem typedKey_of_bytes {b : Received} {key : UInt8} {rest : List UInt8}
    (hb : b.bytes = key :: rest) :
    typedKey b = .ok key ∧ ∃ b', b.slice 1 = .ok b' ∧ b'.bytes = rest := by
  have hdata : b.buffer.data = key :: rest := hb
  have hsplit : b.bytes = [key] ++ rest := hb
  exact ⟨by simp [typedKey, SharedBuffer.readByte, hdata], (b.split hsplit rfl).2⟩

/-- A metafile packet is unwrapped by its key. -/
theorem MetafilePacket.wrappee_of_bytes {b : Received} {key : UInt8} {rest : List UInt8}
    (hb : b.bytes = key :: rest) :
    ∃ b', wrappee b = .ok (MetafileFactory.createPacket key b') ∧ b'.bytes = rest := by
  obtain ⟨hkey, b', hslice, hbytes⟩ := typedKey_of_bytes hb
  refine ⟨b', ?_, hbytes⟩
  simp only [wrappee, hslice, hkey, ok_bind]
  rfl

/-- A metafile data packet is read back. -/
theorem MetafileDataPacket.decode_of_bytes {b : Received} {counter : UInt32} {delta : List UInt8}
    (hb : b.bytes = toBytes 4 counter.toNat ++ delta) :
    MetafileDataPacket.decode b = .ok ⟨counter, delta⟩ := by
  obtain ⟨hread, b', hslice, hdelta⟩ := b.split hb (length_toBytes ..)
  have hcounter : counter.toNat < 256 ^ 4 := counter.toNat_lt
  simp only [decode, hread, hslice, ok_bind, ofBytes_toBytes_of_lt hcounter, UInt32.ofNat_toNat,
    hdelta]
  rfl

/-- The `FSUIPC` packet is read back. -/
theorem FsuipcPacket.fields_of_bytes {b : Received} {id : UInt16} {size : UInt8}
    {data : List UInt8} (hb : b.bytes = toBytes 2 id.toNat ++ size :: data) :
    FsuipcPacket.id b = .ok id ∧ FsuipcPacket.size b = .ok size ∧
      ∃ b', FsuipcPacket.data b = .ok b' ∧ b'.bytes = data := by
  have hlength : (toBytes 2 id.toNat).length = 2 := length_toBytes ..
  have hid : id.toNat < 256 ^ 2 := id.toNat_lt
  have hdata : b.buffer.data = toBytes 2 id.toNat ++ size :: data := hb
  have hsplit : b.bytes = (toBytes 2 id.toNat ++ [size]) ++ data := by simp [hb]
  refine ⟨?_, ?_, (b.split hsplit (by simp [hlength])).2⟩
  · simp [FsuipcPacket.id, (b.split hb hlength).1, ofBytes_toBytes_of_lt hid]
  · simp [FsuipcPacket.size, SharedBuffer.readByte, hdata, hlength]

/-- The first channel of an id reads back what a channel of its kind has sent. -/
theorem createPacket_fields {kind : ChannelKind} {payload : Payload} (h : kind.Sends payload)
    {b : Received} (hb : b.bytes = payload.bytes) :
    ∃ object, kind.createPacket b = .ok object ∧ object.fields = .ok payload := by
  cases kind with
  | structChannel c =>
    cases payload with
    | struct data =>
      have hread := (b.split (hb.trans (List.append_nil data).symm) h).1
      exact ⟨.structPacket c data, by simp [ChannelKind.createPacket, hread], rfl⟩
    | _ => exact h.elim
  | stringElement =>
    cases payload with
    | string s =>
      have hread : b.buffer.readString = .ok s := SharedBuffer.readString_of_data h hb
      exact ⟨.stringPacket s, by simp [ChannelKind.createPacket, hread], rfl⟩
    | _ => exact h.elim
  | fsuipcModule =>
    cases payload with
    | fsuipc id size data =>
      obtain ⟨hid, hsize, b', hdata, hbytes⟩ := FsuipcPacket.fields_of_bytes hb
      refine ⟨.fsuipcPacket b, rfl, ?_⟩
      simp only [ChannelPacket.fields, hid, hsize, hdata, ok_bind, hbytes]
      rfl
    | _ => exact h.elim
  | metafileChannel =>
    cases payload with
    | typed key wrappee =>
      cases wrappee with
      | typed innerKey inner =>
        obtain ⟨hkey, mp, hmp, hmpbytes⟩ := typedKey_of_bytes hb
        have hinner := (typedKey_of_bytes hmpbytes).1
        obtain ⟨body, hwrappee, hbody⟩ := MetafilePacket.wrappee_of_bytes hmpbytes
        refine ⟨.metafileChannelPacket b, rfl, ?_⟩
        cases inner with
        | metafileData counter delta =>
          obtain rfl : innerKey = 2 := h
          have hfactory : MetafileFactory.createPacket 2 body = some (.dataPacket body) := rfl
          have hdecode := MetafileDataPacket.decode_of_bytes hbody
          simp only [ChannelPacket.fields, hkey, hmp, hinner, hwrappee, hfactory, hdecode, ok_bind]
          rfl
        | empty =>
          rcases h with rfl | rfl
          · have hfactory : MetafileFactory.createPacket 0 body = some .resetPacket := rfl
            simp only [ChannelPacket.fields, hkey, hmp, hinner, hwrappee, hfactory, ok_bind]
            rfl
          · have hfactory : MetafileFactory.createPacket 1 body = some .ackPacket := rfl
            simp only [ChannelPacket.fields, hkey, hmp, hinner, hwrappee, hfactory, ok_bind]
            rfl
        | _ => exact h.elim
      | _ => exact h.elim
    | _ => exact h.elim

/-- The form does not depend on the payload. -/
theorem Form.message_map {P Q : Type*} (form : Form) (num : ℕ) (id : Str) (f : P → Q) (x : P) :
    form.message num id (f x) = (form.message num id x).map f := by
  cases form <;> rfl

/-- Both forms carry the payload. -/
theorem Form.payload_message {P : Type*} (form : Form) (num : ℕ) (id : Str) (x : P) :
    (form.message num id x).payload = some x := by
  cases form <;> rfl

/-- Both forms have room for a number of 12 bits and an id without NUL. -/
theorem Form.encodable {P : Type*} (form : Form) {num : ℕ} (hnum : num < 4096) {id : Str}
    (hid : 0 ∉ id) (x : P) : (form.message num id x).Encodable := by
  cases form with
  | idChannelPacket => exact ⟨hnum, hid⟩
  | channelPacket => exact hnum

/-- What a party hands over of a message in either form. -/
theorem Form.handed {d : ChannelProtocol Received} (hmode : d.mode ≠ .idle) {num : ℕ} {id : Str}
    (hbound : d.numToId[num]? = some id) {form : Form}
    (hid : form = .channelPacket → d.mode = .client → id ≠ []) (buffer : Received) :
    (d.receive (form.message num id buffer)).handed = [⟨id, buffer, d.receivers id⟩] := by
  cases hm : d.mode with
  | idle => exact absurd hm hmode
  | host =>
    cases form with
    | idChannelPacket => rw [Form.message, d.receive_idChannelPacket_host hm]; rfl
    | channelPacket =>
      rw [Form.message, d.receive_channelPacket_host hm, d.getNumId_of_bound hbound]; rfl
  | client =>
    cases form with
    | idChannelPacket => rw [Form.message, d.receive_idChannelPacket_client hm]; rfl
    | channelPacket =>
      rw [Form.message, d.receive_channelPacket_known hm hbound (hid rfl hm)]; rfl

/-- A payload arrives in either form, whatever was in the sender's memory: every packet has the
size it compiles to, and the receiver reads back the message and the payload. -/
theorem wire_round_trip (heap : ℕ → UInt8) (kind : ℕ → ChannelKind) (d : ChannelProtocol Received)
    (hmode : d.mode ≠ .idle) {id : Str} (hnul : 0 ∉ id) {num : ℕ} (hnum : num < 4096)
    (hbound : d.numToId[num]? = some id) {first : ℕ} {rest : List ℕ}
    (hreceivers : d.receivers id = first :: rest) {payload : Payload}
    (hsends : (kind first).Sends payload) (form : Form)
    (hid : form = .channelPacket → d.mode = .client → id ≠ []) :
    let packet := payload.packet heap
    let message := (form.message num id packet).packet heap
    (∀ p : Payload, p.NulFree → (p.packet heap).compiledSize = (p.packet heap).compile.length) ∧
      (stringWrappedPacket heap id packet).compiledSize =
        (stringWrappedPacket heap id packet).compile.length ∧
      message.compiledSize = message.compile.length ∧
      Arrives kind d (unwire (wire heap message)) form num id packet payload := by
  have hpayload := payload.compilesTo heap hsends.nulFree
  have hmessage : CompilesTo ((form.message num id (payload.packet heap)).packet heap)
      (form.message num id payload.bytes).bytes := by
    rw [form.message_map, form.message_map]
    refine Message.compilesTo heap (form.encodable hnum hnul payload) fun p hp => ?_
    rw [form.payload_message, Option.some.injEq] at hp
    exact hp ▸ hsends.nulFree
  refine ⟨fun p hp => (p.compilesTo heap hp).size_eq, (hpayload.stringWrapped hnul).size_eq,
    hmessage.size_eq, ?_⟩
  have hdata : unwire (wire heap ((form.message num id (payload.packet heap)).packet heap)) =
      (form.message num id payload.bytes).bytes := by
    rw [hmessage.wire]
    rfl
  obtain ⟨m, hparse, hmap⟩ := ChannelProtocol.parse_bytes hmode (form.encodable hnum hnul _)
    (Received.bytes_copyOf (form.message num id payload.bytes).bytes)
  obtain ⟨buffer, rfl, hbytes⟩ : ∃ buffer, m = form.message num id buffer ∧
      buffer.bytes = payload.bytes := by
    cases form <;> cases m <;> simp only [Form.message, Message.map, Message.channelPacket.injEq,
      Message.idChannelPacket.injEq, reduceCtorEq] at hmap
    · obtain ⟨rfl, rfl, hbytes⟩ := hmap
      exact ⟨_, rfl, hbytes⟩
    · obtain ⟨rfl, hbytes⟩ := hmap
      exact ⟨_, rfl, hbytes⟩
  refine ⟨buffer, hbytes.trans hpayload.compile.symm, ?_, ?_, ?_, ?_⟩
  · rw [buffer.size_eq, hbytes, hpayload.compiledSize]
  · rw [hdata, hparse]
  · intro handOver
    rw [ChannelProtocol.processPacket, ChannelProtocol.receiveBuffer, hdata, hparse, ok_bind]
    simp only [Form.handed hmode hbound hid buffer, List.forM_cons, List.forM_nil]
    cases handOver ⟨id, buffer, d.receivers id⟩ <;> rfl
  · intro first' rest' hreceivers'
    obtain ⟨rfl, -⟩ := List.cons.inj (hreceivers.symm.trans hreceivers')
    exact createPacket_fields hsends hbytes

/-- A party that knows number 16 and has one string element under its id. -/
def titleReceiver (mode : Mode) (id : Str) : ChannelProtocol Received where
  mode := mode
  channels := (∅ : TreeMap Str (TreeSet ℕ)).insert id ((∅ : TreeSet ℕ).insert 0)
  numToId := (∅ : TreeMap ℕ Str).insert 16 id

/-- A payload of a string element. -/
def title : Payload := .string [72, 105]

/-- The title as it is sent under number 16. -/
def titleData (id : Str) : List UInt8 :=
  unwire (wire (fun _ => 205)
    ((Form.channelPacket.message 16 id (title.packet fun _ => 205)).packet fun _ => 205))

/-- The title arrives at a client under its number. -/
theorem wire_round_trip_title : Arrives (fun _ => .stringElement) (titleReceiver .client [65])
    (titleData [65]) .channelPacket 16 [65] (title.packet fun _ => 205) title :=
  (wire_round_trip (fun _ => 205) (fun _ => .stringElement) (titleReceiver .client [65])
    (by decide) (by decide) (by decide) (by decide) (show _ = 0 :: [] by decide)
    (show ChannelKind.stringElement.Sends title by simp [ChannelKind.Sends, title])
    .channelPacket (by decide)).2.2.2

/-- An idle party ignores what is sent to its channels, and a client takes a number bound to the
empty string for an unknown one. -/
theorem wire_idle_or_empty :
    ¬ Arrives (fun _ => .stringElement) (titleReceiver .idle [65]) (titleData [65]) .channelPacket
        16 [65] (title.packet fun _ => 205) title ∧
      ¬ Arrives (fun _ => .stringElement) (titleReceiver .client []) (titleData []) .channelPacket
        16 [] (title.packet fun _ => 205) title := by
  constructor
  · rintro ⟨buffer, -, -, hparse, -⟩
    have hnone : ChannelProtocol.parse (titleReceiver .idle [65]).mode
      (.copyOf (titleData [65])) = .ok none := rfl
    rw [hnone] at hparse
    cases hparse
  · rintro ⟨buffer, -, -, -, hdelivery, -⟩
    -- nothing is handed over, so a fault of the channels would not show
    have hfault := hdelivery fun _ => .error .nullPacket
    obtain ⟨r, hr⟩ : ∃ r, (titleReceiver .client []).processPacket
      (fun _ => .error .nullPacket) (titleData []) = .ok r := ⟨_, rfl⟩
    rw [hr] at hfault
    cases hfault

end Multicrew.Gauge
