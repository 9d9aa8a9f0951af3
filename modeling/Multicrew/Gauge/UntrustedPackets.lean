import Multicrew.Gauge.WireFormat

/-!
# Packets from an untrusted peer

No decoder compares what it reads with the size of its buffer, and the decompressor uses what the
metafile factory makes of a packet without looking at its key. Which packets a party survives is
therefore a property of their bytes, of the channels registered under their id, and of the packets
that are parked for the number they bind. What a channel queues is survived at once; the callback
that looks into it later depends on the packets in the queue.
-/

namespace Multicrew.Gauge

open Std (TreeMap TreeSet)
open Multicrew.Core Multicrew.Library

/-- The contents a channel can make an object of and receive. -/
def ChannelKind.Fits (bytes : List UInt8) : ChannelKind → Prop
  | .structChannel c => c.sizeof ≤ bytes.length
  | .stringElement => 0 ∈ bytes
  | .fsuipcModule => True
  | .metafileChannel => ∃ key innerKey rest, bytes = key :: innerKey :: rest ∧
    (key = 0 ∨ innerKey = 2 ∧ 4 ≤ rest.length)

/-- The channel looks into the packet objects when it receives them. -/
def ChannelKind.Reads (mode : Mode) : ChannelKind → Prop
  | .structChannel .gauge => False
  | .structChannel _ => mode = .client
  | .stringElement => mode = .client
  | .fsuipcModule => False
  | .metafileChannel => True

/-- The content fits the first of the channels, and the others that look into the packet are of the
same class. -/
def Accepted (kind : ℕ → ChannelKind) (mode : Mode) (bytes : List UInt8) : List ℕ → Prop
  | [] => True
  | first :: rest => (kind first).Fits bytes ∧
    ∀ channel ∈ rest, (kind channel).Reads mode → kind channel = kind first

/-- What a party survives behind the key: a string that is read ends with a NUL, and each payload
that is handed over, the parked ones included, is accepted by the channels of its id. -/
def BodyAccepted (kind : ℕ → ChannelKind) (d : ChannelProtocol Received) (key : UInt16)
    (body : List UInt8) : Prop :=
  match PacketType.ofCode (keyType key) with
  | some .idNumPacket => 0 ∈ body ∧ (d.mode = .client → ∀ parked ∈ queueAt d.todo (keyNum key),
      Accepted kind d.mode parked.bytes (d.receivers (cString body)))
  | some .fullSendPacket => True
  | some .channelPacket => d.mode = .host ∨ d.mode = .client ∧
      (d.getNumId (keyNum key)).length ≠ 0 →
        Accepted kind d.mode body (d.receivers (d.getNumId (keyNum key)))
  | some .idChannelPacket => d.mode ≠ .idle → 0 ∈ body ∧
      Accepted kind d.mode (body.drop ((cString body).length + 1)) (d.receivers (cString body))
  | none => True

/-- The data a party survives. -/
def WellFormed (kind : ℕ → ChannelKind) (d : ChannelProtocol Received) : List UInt8 → Prop
  | lo :: hi :: body => BodyAccepted kind d (.ofNat (ofBytes [lo, hi])) body
  | _ => False

/-- An `FSUIPC` packet with an id and a size, and with that many bytes if they are copied. -/
def ChannelPacket.Writable (accepted : Bool) : ChannelPacket → Prop
  | .fsuipcPacket buffer => ∃ lo hi size rest, buffer.bytes = lo :: hi :: size :: rest ∧
    (accepted = true → size.toNat ≤ rest.length)
  | _ => False

/-- A read succeeds inside the memory. -/
theorem succeeds_read (b : Received) (n : ℕ) :
    Succeeds (b.buffer.read n) ↔ n ≤ b.bytes.length := by
  simp only [SharedBuffer.read, succeeds_ite, Received.bytes]

/-- A string can be read if there is a NUL. -/
theorem succeeds_readString (b : Received) : Succeeds b.buffer.readString ↔ 0 ∈ b.bytes := by
  simp only [SharedBuffer.readString, succeeds_ite, Received.bytes]

/-- The two bytes of a 16-bit number. -/
theorem pair_eq_toBytes (lo hi : UInt8) :
    [lo, hi] = toBytes 2 (UInt16.ofNat (ofBytes [lo, hi])).toNat := by
  have hlt : ofBytes [lo, hi] < 256 ^ 2 := ofBytes_lt [lo, hi]
  have hnat : (UInt16.ofNat (ofBytes [lo, hi])).toNat = ofBytes [lo, hi] := by
    rw [UInt16.toNat_ofNat']
    omega
  rw [hnat]
  exact (toBytes_ofBytes [lo, hi]).symm

/-- What `Fsuipc::write` copies is inside the packet exactly when the packet is as long as it
says. -/
theorem FsuipcPacket.succeeds_write (b : Received) (accepted : Bool) :
    Succeeds (FsuipcPacket.write b accepted) ↔
      (ChannelPacket.fsuipcPacket b).Writable accepted := by
  have hshort : b.bytes.length < 3 → ¬ Succeeds (FsuipcPacket.write b accepted) := by
    intro hlt hsucceeds
    rw [FsuipcPacket.write, succeeds_bind] at hsucceeds
    obtain ⟨id, -, hrest⟩ := hsucceeds
    rw [succeeds_bind] at hrest
    obtain ⟨size, hsize, -⟩ := hrest
    have hnone : b.buffer.data[2]? = none := List.getElem?_eq_none (Nat.le_of_lt_succ hlt)
    simp [FsuipcPacket.size, SharedBuffer.readByte, hnone] at hsize
  simp only [ChannelPacket.Writable]
  rcases hb : b.bytes with _ | ⟨lo, _ | ⟨hi, _ | ⟨size, rest⟩⟩⟩
  · exact iff_of_false (hshort (by simp [hb])) (by simp)
  · exact iff_of_false (hshort (by simp [hb])) (by simp)
  · exact iff_of_false (hshort (by simp [hb])) (by simp)
  · have hbytes : b.bytes = toBytes 2 (UInt16.ofNat (ofBytes [lo, hi])).toNat ++ size :: rest := by
      rw [hb, ← pair_eq_toBytes]
      rfl
    obtain ⟨hid, hsize, b', hdata, hrest⟩ := FsuipcPacket.fields_of_bytes hbytes
    rw [FsuipcPacket.write, hid, ok_bind, hsize, ok_bind, hdata, ok_bind]
    have hiff : (∃ lo' hi' size' rest', lo :: hi :: size :: rest = lo' :: hi' :: size' :: rest' ∧
        (accepted = true → size'.toNat ≤ rest'.length)) ↔
        (accepted = true → size.toNat ≤ rest.length) := by
      constructor
      · rintro ⟨lo', hi', size', rest', ⟨⟩, h⟩
        exact h
      · exact fun h => ⟨lo, hi, size, rest, rfl, h⟩
    rw [hiff]
    cases accepted with
    | false => exact iff_of_true (succeeds_pure _) fun h => by cases h
    | true =>
      have hread : Succeeds (b'.buffer.read size.toNat) ↔
          (true = true → size.toNat ≤ rest.length) := by
        rw [succeeds_read, hrest]
        exact ⟨fun h _ => h, fun h => h rfl⟩
      rw [← hread, if_pos rfl, succeeds_bind]
      exact exists_congr fun bytes => and_iff_left (succeeds_pure _)

/-- The decompressor's packet needs its counter. -/
theorem MetafileDataPacket.succeeds_decode (b : Received) :
    Succeeds (MetafileDataPacket.decode b) ↔ 4 ≤ b.bytes.length := by
  rw [MetafileDataPacket.decode, succeeds_bind]
  constructor
  · rintro ⟨counter, hread, -⟩
    exact (succeeds_read b 4).mp ⟨counter, hread⟩
  · intro hle
    obtain ⟨counter, hread⟩ := (succeeds_read b 4).mpr hle
    obtain ⟨b', hslice, -⟩ := b.slice_of_le hle
    refine ⟨counter, hread, ?_⟩
    rw [hslice, ok_bind]
    exact succeeds_pure _

/-- A key needs a byte. -/
theorem succeeds_typedKey (b : Received) : Succeeds (typedKey b) ↔ b.bytes ≠ [] := by
  cases hb : b.bytes with
  | nil =>
    have hdata : b.buffer.data = [] := hb
    simp [typedKey, SharedBuffer.readByte, hdata]
  | cons key rest => simp [(typedKey_of_bytes hb).1]

/-- The factory makes a data packet of key 2 alone. -/
theorem MetafileFactory.createPacket_eq_dataPacket {key : UInt8} {b b' : Received} :
    createPacket key b = some (.dataPacket b') ↔ key = 2 ∧ b' = b := by
  unfold createPacket
  split
  · rename_i hkey
    simp [hkey]
  · split
    · rename_i hkey
      simp [hkey]
    · split
      · rename_i hkey
        simp [hkey, eq_comm]
      · rename_i hkey
        simp [hkey]

/-- A metafile channel survives two keys, and for its decompressor only a data packet with a
counter. -/
theorem MetafileChannel.succeeds_receive (b : Received) :
    Succeeds (MetafileChannel.receive b) ↔ ∃ key innerKey rest, b.bytes = key :: innerKey :: rest ∧
      (key = 0 ∨ innerKey = 2 ∧ 4 ≤ rest.length) := by
  rcases hb : b.bytes with _ | ⟨key, inner⟩
  · refine iff_of_false ?_ (by simp)
    rw [MetafileChannel.receive, succeeds_bind]
    rintro ⟨key, hkey, -⟩
    exact (succeeds_typedKey b).mp ⟨key, hkey⟩ hb
  · obtain ⟨hkey, mp, hmp, hinner⟩ := typedKey_of_bytes hb
    rw [MetafileChannel.receive, hkey, ok_bind, hmp, ok_bind]
    cases inner with
    | nil =>
      refine iff_of_false ?_ (by simp)
      split
      · rw [succeeds_bind]
        rintro ⟨innerKey, hinnerKey, -⟩
        exact (succeeds_typedKey mp).mp ⟨innerKey, hinnerKey⟩ hinner
      · rw [MetafilePacket.wrappee, mp.slice_of_lt (by simp [hinner])]
        exact not_succeeds_error _
    | cons innerKey rest =>
      have hiff : (∃ key' innerKey' rest', key :: innerKey :: rest = key' :: innerKey' :: rest' ∧
          (key' = 0 ∨ innerKey' = 2 ∧ 4 ≤ rest'.length)) ↔
          key = 0 ∨ innerKey = 2 ∧ 4 ≤ rest.length := by
        constructor
        · rintro ⟨key', innerKey', rest', ⟨⟩, h⟩
          exact h
        · exact fun h => ⟨key, innerKey, rest, rfl, h⟩
      rw [hiff]
      split
      · rename_i hzero
        rw [(typedKey_of_bytes hinner).1, ok_bind]
        exact iff_of_true (succeeds_pure _) (.inl hzero)
      · rename_i hzero
        obtain ⟨body, hwrappee, hbody⟩ := MetafilePacket.wrappee_of_bytes hinner
        rw [hwrappee, ok_bind, or_iff_right hzero]
        split
        · rename_i buffer hdata
          obtain ⟨rfl, rfl⟩ := MetafileFactory.createPacket_eq_dataPacket.mp hdata
          rw [and_iff_right rfl, ← hbody, ← MetafileDataPacket.succeeds_decode]
          exact succeeds_map _ _
        · rename_i other hnot hother
          refine iff_of_false (not_succeeds_error _) ?_
          rintro ⟨rfl, -⟩
          exact hnot body (Option.some.inj hother).symm
        · rename_i hnone
          refine iff_of_false (not_succeeds_error _) ?_
          rintro ⟨rfl, -⟩
          cases hnone

namespace ChannelKind

/-- A channel makes objects of its own class. -/
theorem kind_of_createPacket {kind : ChannelKind} {b : Received} {object : ChannelPacket}
    (h : kind.createPacket b = .ok object) : object.kind = kind := by
  cases kind with
  | structChannel c =>
    simp only [createPacket] at h
    cases hread : b.buffer.read c.sizeof with
    | ok data =>
      rw [hread] at h
      cases h
      rfl
    | error e =>
      rw [hread] at h
      cases h
  | stringElement =>
    simp only [createPacket] at h
    cases hread : b.buffer.readString with
    | ok data =>
      rw [hread] at h
      cases h
      rfl
    | error e =>
      rw [hread] at h
      cases h
  | fsuipcModule =>
    cases h
    rfl
  | metafileChannel =>
    cases h
    rfl

/-- An object of another class may be received as long as nobody looks into it. -/
theorem succeeds_receive_of_ne {kind : ChannelKind} {mode : Mode} {object : ChannelPacket}
    (h : object.kind ≠ kind) (queue : List ChannelPacket) :
    Succeeds (kind.receive mode object queue) ↔ ¬ kind.Reads mode := by
  have hcast : ¬ Succeeds ((fun _ => queue) <$> object.cast kind) := by
    rw [succeeds_map, ChannelPacket.cast, if_neg h]
    exact not_succeeds_error _
  cases kind with
  | structChannel c =>
    cases c with
    | gauge => exact iff_of_true (succeeds_ok _) not_false
    | _ => exact succeeds_ite_ok hcast _
  | stringElement => exact succeeds_ite_ok hcast _
  | fsuipcModule =>
    refine iff_of_true ?_ not_false
    simp only [receive]
    split <;> exact succeeds_ok _
  | metafileChannel =>
    simp only [receive, Reads]
    refine iff_of_false ?_ (not_not_intro trivial)
    split
    · exact fun _ => h rfl
    · exact not_succeeds_error _

/-- Receiving an object of the channel's own class fails in a metafile channel only. -/
theorem succeeds_receive_of_eq {kind : ChannelKind} {mode : Mode} {object : ChannelPacket}
    (h : object.kind = kind) (hkind : kind ≠ .metafileChannel) (queue : List ChannelPacket) :
    Succeeds (kind.receive mode object queue) := by
  have hcast : ∀ c : Prop, [Decidable c] → Succeeds
      (if c then (fun _ => queue) <$> object.cast kind else .ok queue : Except Fault _) := by
    intro c _
    rw [ChannelPacket.cast, if_pos h]
    split <;> exact succeeds_ok _
  cases kind with
  | structChannel c =>
    cases c with
    | gauge => exact succeeds_ok _
    | _ => exact hcast _
  | stringElement => exact hcast _
  | fsuipcModule =>
    simp only [receive]
    split <;> exact succeeds_ok _
  | metafileChannel => exact absurd rfl hkind

/-- Whether receiving an object succeeds does not depend on what is queued. -/
theorem succeeds_receive_queue (kind : ChannelKind) (mode : Mode) (object : ChannelPacket)
    (queue queue' : List ChannelPacket) :
    Succeeds (kind.receive mode object queue) ↔ Succeeds (kind.receive mode object queue') := by
  by_cases hkind : object.kind = kind
  · by_cases hmetafile : kind = .metafileChannel
    · subst hmetafile
      simp only [receive]
      split
      · rw [succeeds_map, succeeds_map]
      · exact iff_of_false (not_succeeds_error _) (not_succeeds_error _)
    · exact iff_of_true (succeeds_receive_of_eq hkind hmetafile _)
        (succeeds_receive_of_eq hkind hmetafile _)
  · rw [succeeds_receive_of_ne hkind, succeeds_receive_of_ne hkind]

/-- A channel can make and receive an object of what fits it, and of nothing else. -/
theorem fits_iff (kind : ChannelKind) (mode : Mode) (b : Received) (queue : List ChannelPacket) :
    kind.Fits b.bytes ↔
      ∃ object, kind.createPacket b = .ok object ∧ Succeeds (kind.receive mode object queue) := by
  cases kind with
  | structChannel c =>
    simp only [Fits, createPacket, ← succeeds_read]
    constructor
    · rintro ⟨data, hread⟩
      refine ⟨.structPacket c data, by rw [hread]; rfl, succeeds_receive_of_eq rfl ?_ _⟩
      simp [ChannelPacket.kind]
    · rintro ⟨object, hobject, -⟩
      exact (succeeds_map _ _).mp ⟨object, hobject⟩
  | stringElement =>
    simp only [Fits, createPacket, ← succeeds_readString]
    constructor
    · rintro ⟨string, hread⟩
      refine ⟨.stringPacket string, by rw [hread]; rfl, succeeds_receive_of_eq rfl ?_ _⟩
      simp [ChannelPacket.kind]
    · rintro ⟨object, hobject, -⟩
      exact (succeeds_map _ _).mp ⟨object, hobject⟩
  | fsuipcModule =>
    refine iff_of_true trivial ⟨.fsuipcPacket b, rfl, succeeds_receive_of_eq rfl ?_ _⟩
    simp [ChannelPacket.kind]
  | metafileChannel =>
    simp only [Fits, createPacket, Except.ok.injEq, exists_eq_left', receive, succeeds_map,
      ← MetafileChannel.succeeds_receive]

end ChannelKind

/-- A payload is delivered without a fault exactly when the channels of its id accept it. -/
theorem succeeds_deliver (kind : ℕ → ChannelKind) (mode : Mode) (queues : ℕ → List ChannelPacket)
    (h : Handover Received) :
    Succeeds (deliver kind mode queues h) ↔ Accepted kind mode h.packet.bytes h.receivers := by
  unfold deliver
  cases h.receivers with
  | nil => exact iff_of_true (succeeds_ok _) trivial
  | cons first rest =>
    have hloop : ∀ object, Succeeds ((first :: rest).foldlM (fun queues channel =>
        Function.update queues channel <$> (kind channel).receive mode object (queues channel))
          queues) ↔
        ∀ channel ∈ first :: rest, Succeeds ((kind channel).receive mode object []) := by
      intro object
      refine succeeds_foldlM _ _ _ (fun queues channel _ => ?_) queues
      rw [succeeds_map]
      exact (kind channel).succeeds_receive_queue mode object _ _
    simp only [Accepted, succeeds_bind, hloop, List.forall_mem_cons,
      (kind first).fits_iff mode h.packet []]
    constructor
    · rintro ⟨object, hobject, hfirst, hrest⟩
      refine ⟨⟨object, hobject, hfirst⟩, fun channel hchannel hreads => ?_⟩
      by_contra hne
      have hkind := ChannelKind.kind_of_createPacket hobject
      exact (ChannelKind.succeeds_receive_of_ne (hkind ▸ Ne.symm hne) []).mp
        (hrest channel hchannel)
        hreads
    · rintro ⟨⟨object, hobject, hfirst⟩, hrest⟩
      refine ⟨object, hobject, hfirst, fun channel hchannel => ?_⟩
      by_cases hsame : kind channel = kind first
      · rw [hsame]
        exact hfirst
      · have hkind := ChannelKind.kind_of_createPacket hobject
        exact (ChannelKind.succeeds_receive_of_ne (hkind ▸ Ne.symm hsame) []).mpr
          fun hreads => hsame (hrest channel hchannel hreads)

/-- A packet is processed without a fault exactly when it parses and what it makes the party hand
over is accepted. -/
theorem succeeds_receiveBuffer (kind : ℕ → ChannelKind) (s : Endpoint) (b : Received) :
    Succeeds (s.receiveBuffer kind b) ↔
      ∃ message, ChannelProtocol.parse s.protocol.mode b = .ok message ∧
        ∀ m, message = some m → ∀ h ∈ (s.protocol.receive m).handed,
          Accepted kind s.protocol.mode h.packet.bytes h.receivers := by
  rw [Endpoint.receiveBuffer, succeeds_bind]
  apply exists_congr
  intro message
  apply and_congr_right
  intro _
  cases message with
  | none => exact iff_of_true (succeeds_pure _) (by simp)
  | some m =>
    have hloop := succeeds_foldlM (deliver kind s.protocol.mode)
      (fun h => Accepted kind s.protocol.mode h.packet.bytes h.receivers)
      (s.protocol.receive m).handed (fun queues h _ => succeeds_deliver kind _ queues h) s.queues
    simp only [Option.some.injEq, forall_eq', ← hloop, succeeds_bind]
    constructor
    · rintro ⟨queues, hqueues, -⟩
      exact ⟨queues, hqueues⟩
    · rintro ⟨queues, hqueues⟩
      exact ⟨queues, hqueues, succeeds_pure _⟩

/-- What a party hands over of a `channelPacket`. -/
theorem handed_channelPacket (d : ChannelProtocol Received) (num : ℕ) (packet : Received) :
    (d.receive (.channelPacket num packet)).handed =
      if d.mode = .host ∨ d.mode = .client ∧ (d.getNumId num).length ≠ 0 then
        [d.receiveChannelPacket (d.getNumId num) packet]
      else [] := by
  cases hm : d.mode with
  | idle => simp [ChannelProtocol.receive, ChannelProtocol.receiveChannel, hm]
  | host => simp [d.receive_channelPacket_host hm]
  | client =>
    by_cases hid : (d.getNumId num).length = 0
    · simp [ChannelProtocol.receive, ChannelProtocol.receiveChannel, hm, hid]
    · simp [ChannelProtocol.receive, ChannelProtocol.receiveChannel, hm, hid]

/-- What a party hands over of an `idChannelPacket`. -/
theorem handed_idChannelPacket (d : ChannelProtocol Received) (hmode : d.mode ≠ .idle) (num : ℕ)
    (id : Str) (packet : Received) : (d.receive (.idChannelPacket num id packet)).handed =
      [d.receiveChannelPacket id packet] := by
  cases hm : d.mode with
  | idle => exact absurd hm hmode
  | host => rw [d.receive_idChannelPacket_host hm]
  | client => rw [d.receive_idChannelPacket_client hm]

/-- What a party hands over of an `idNumPacket`. -/
theorem handed_idNumPacket (d : ChannelProtocol Received) (num : ℕ) (string : Str) :
    (d.receive (.idNumPacket num string)).handed =
      if d.mode = .client then (queueAt d.todo num).map (d.receiveChannelPacket string) else [] := by
  cases hm : d.mode with
  | idle => simp [ChannelProtocol.receive, ChannelProtocol.receiveIdNum, hm]
  | host => simp [d.receive_idNumPacket_host hm]
  | client => simp [d.receive_idNumPacket_client hm]

/-- A packet with a key is processed without a fault exactly when its body is accepted. -/
theorem bodyAccepted_iff (kind : ℕ → ChannelKind) (s : Endpoint) {b body : Received}
    {key : UInt16} (hkey : MulticrewPacket.key b = .ok key)
    (hdata : MulticrewPacket.data b = .ok body) :
    Succeeds (s.receiveBuffer kind b) ↔ BodyAccepted kind s.protocol key body.bytes := by
  rw [succeeds_receiveBuffer, ChannelProtocol.parse_of_key hkey hdata, BodyAccepted]
  generalize s.protocol = d
  cases PacketType.ofCode (keyType key) with
  | none => simp
  | some type =>
    cases type with
    | fullSendPacket => simp [ChannelProtocol.receive]
    | channelPacket =>
      by_cases hidle : d.mode = .idle
      · simp [hidle]
      · simp only [hidle, if_false, Except.ok.injEq, exists_eq_left', Option.some.injEq,
          forall_eq', handed_channelPacket]
        split
        · rename_i hhanded
          simp only [List.mem_singleton, forall_eq]
          exact ⟨fun h _ => h, fun h => h hhanded⟩
        · rename_i hhanded
          exact iff_of_true (by simp) fun h => absurd h hhanded
    | idChannelPacket =>
      by_cases hidle : d.mode = .idle
      · simp [hidle]
      · simp only [hidle, if_false, not_false_eq_true, forall_const, ne_eq]
        by_cases hnul : 0 ∈ body.bytes
        · -- the payload starts behind the NUL of the id
          have hstring : body.buffer.readString = .ok (cString body.bytes) := if_pos hnul
          obtain ⟨packet, hslice, hpacket⟩ := body.slice_of_le
            (Nat.succ_le_of_lt (length_cString_lt hnul))
          simp only [hstring, ok_bind, hslice, Except.map_ok, Except.ok.injEq, exists_eq_left',
            Option.some.injEq, forall_eq', handed_idChannelPacket d hidle, List.mem_singleton,
            forall_eq, hnul, true_and]
          rw [ChannelProtocol.receiveChannelPacket, hpacket]
        · have hstring : body.buffer.readString = .error .outOfBounds := if_neg hnul
          refine iff_of_false ?_ fun h => hnul h.1
          rintro ⟨message, hparse, -⟩
          rw [hstring] at hparse
          cases hparse
    | idNumPacket =>
      by_cases hnul : 0 ∈ body.bytes
      · have hstring : body.buffer.readString = .ok (cString body.bytes) := if_pos hnul
        simp only [hstring, Except.map_ok, Except.ok.injEq, exists_eq_left', Option.some.injEq,
          forall_eq', handed_idNumPacket, hnul, true_and]
        split
        · rename_i hclient
          simp [hclient, ChannelProtocol.receiveChannelPacket]
        · rename_i hclient
          simp [hclient]
      · have hstring : body.buffer.readString = .error .outOfBounds := if_neg hnul
        refine iff_of_false ?_ fun h => hnul h.1
        rintro ⟨message, hparse, -⟩
        rw [hstring] at hparse
        cases hparse

/-- A packet is processed without a fault exactly when it is well formed for the party. -/
theorem succeeds_processPacket (kind : ℕ → ChannelKind) (s : Endpoint) (data : List UInt8) :
    Succeeds (s.processPacket kind data) ↔ WellFormed kind s.protocol data := by
  have hshort : data.length < 2 → ¬ Succeeds (s.processPacket kind data) := by
    intro hlt hsucceeds
    rw [Endpoint.processPacket, succeeds_receiveBuffer] at hsucceeds
    obtain ⟨message, hparse, -⟩ := hsucceeds
    obtain ⟨key, hkey, -⟩ := (succeeds_bind _ _).mp ⟨message, hparse⟩
    have hread := (succeeds_read _ 2).mp ((succeeds_map _ _).mp ⟨key, hkey⟩)
    rw [Received.bytes_copyOf] at hread
    omega
  rcases data with _ | ⟨lo, _ | ⟨hi, body⟩⟩
  · exact iff_of_false (hshort (by simp)) id
  · exact iff_of_false (hshort (by simp)) id
  · have hbytes : (Received.copyOf (lo :: hi :: body)).bytes =
        toBytes 2 (UInt16.ofNat (ofBytes [lo, hi])).toNat ++ body := by
      rw [← pair_eq_toBytes]
      rfl
    obtain ⟨hkey, b', hdata, hbody⟩ := MulticrewPacket.key_of_bytes hbytes
    rw [Endpoint.processPacket, bodyAccepted_iff kind s hkey hdata, hbody]
    rfl

/-! ### Queued packets -/

/-- The queue is written without a fault exactly when each entry the loop comes to is an `FSUIPC`
packet that is as long as it says. -/
theorem succeeds_writeTodo (accepts : ℕ → Bool) (i : ℕ) (todo : List ChannelPacket) :
    Succeeds (writeTodo accepts i todo) ↔ ∀ k packet, todo[k]? = some packet →
      (∀ j < k, accepts (i + j) = true) → packet.Writable (accepts (i + k)) := by
  induction todo generalizing i with
  | nil => exact iff_of_true (succeeds_ok _) nofun
  | cons packet rest ih =>
    have hsplit : (∀ k packet', (packet :: rest)[k]? = some packet' →
        (∀ j < k, accepts (i + j) = true) → packet'.Writable (accepts (i + k))) ↔
        packet.Writable (accepts i) ∧ (accepts i = true → ∀ k packet', rest[k]? = some packet' →
          (∀ j < k, accepts (i + 1 + j) = true) → packet'.Writable (accepts (i + 1 + k))) := by
      constructor
      · intro h
        refine ⟨h 0 packet rfl nofun, fun hi k packet' hk hbefore => ?_⟩
        rw [Nat.add_right_comm]
        refine h (k + 1) packet' hk fun j hj => ?_
        cases j with
        | zero => exact hi
        | succ j =>
          rw [← Nat.add_assoc, Nat.add_right_comm]
          exact hbefore j (Nat.lt_of_succ_lt_succ hj)
      · rintro ⟨hfirst, hrest⟩ k packet' hk hbefore
        cases k with
        | zero => exact Option.some.inj hk ▸ hfirst
        | succ k =>
          rw [← Nat.add_assoc, Nat.add_right_comm]
          refine hrest (hbefore 0 (Nat.succ_pos k)) k packet' hk fun j hj => ?_
          rw [Nat.add_right_comm]
          exact hbefore (j + 1) (Nat.succ_lt_succ hj)
    rw [hsplit, ← ih]
    cases packet with
    | fsuipcPacket buffer =>
      rw [writeTodo, succeeds_bind, ← FsuipcPacket.succeeds_write]
      constructor
      · rintro ⟨entry, hentry, hloop⟩
        refine ⟨⟨entry, hentry⟩, fun hi => ?_⟩
        rwa [if_pos hi, succeeds_map] at hloop
      · rintro ⟨⟨entry, hentry⟩, hrest⟩
        refine ⟨entry, hentry, ?_⟩
        split
        · rename_i hi
          exact (succeeds_map _ _).mpr (hrest hi)
        · exact succeeds_ok _
    | _ => exact iff_of_false (not_succeeds_error _) fun h => h.1

/-- A mouse event is taken from mouse packets only. -/
theorem succeeds_mouseEvent (packet : ChannelPacket) :
    Succeeds (mouseEvent packet) ↔ packet.kind = .structChannel .gauge := by
  cases packet with
  | structPacket c data =>
    cases c with
    | gauge => exact iff_of_true (succeeds_ok _) rfl
    | _ => exact iff_of_false (not_succeeds_error _) nofun
  | _ => exact iff_of_false (not_succeeds_error _) nofun

/-- A party with one channel under the id `M`. -/
def lettered (mode : Mode) : Endpoint where
  protocol :=
    { mode := mode
      channels := (∅ : TreeMap Str (TreeSet ℕ)).insert [77] ((∅ : TreeSet ℕ).insert 0) }

/-- An `idChannelPacket` for that channel. -/
def letteredData (payload : List UInt8) : List UInt8 :=
  (Message.idChannelPacket 16 [77] payload).bytes

end Multicrew.Gauge
