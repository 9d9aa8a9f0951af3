import Multicrew.Core.ChannelNumbers

/-!
# The 16-bit packet key

A `MulticrewPacket` carries type and channel number in one `unsigned __int16`: the type in the
lower four bits, the number above. The numbers grow with the ids of the session and nothing
bounds them, while the key has room for numbers below 4096 and the transport for as many ordered
streams. The numbers start at `RESERVED_CHANNELS`, so 4080 ids fit.
-/

namespace Multicrew.Core

open Std (TreeMap TreeSet)
open Multicrew.Library

/-- The packet types of the protocol. -/
inductive PacketType
  | fullSendPacket
  | channelPacket
  | idChannelPacket
  | idNumPacket
  deriving DecidableEq, Repr

/-- The value of a type in the source's enumeration. -/
def PacketType.code : PacketType → ℕ
  | .fullSendPacket => 0
  | .channelPacket => 1
  | .idChannelPacket => 2
  | .idNumPacket => 3

/-- The type with a given value, if there is one. -/
def PacketType.ofCode : ℕ → Option PacketType
  | 0 => some .fullSendPacket
  | 1 => some .channelPacket
  | 2 => some .idChannelPacket
  | 3 => some .idNumPacket
  | _ => none

/-- The key `type + (num << 4)`, truncated to its 16 bits. -/
def packetKey (type num : ℕ) : UInt16 := UInt16.ofNat (type + num <<< 4)

/-- `key & 15`. -/
def keyType (key : UInt16) : ℕ := key.toNat &&& 15

/-- `key >> 4`. -/
def keyNum (key : UInt16) : ℕ := key.toNat >>> 4

/-- `NUMBER_OF_ORDERED_STREAMS` of the transport. -/
def numberOfOrderedStreams : ℕ := 4096

/-- The stream the transport uses for an ordering channel: too large ones share stream 0. -/
def orderedStream (orderingChannel : ℕ) : ℕ :=
  if orderingChannel ≥ numberOfOrderedStreams then 0 else orderingChannel

/-- A type code fits in the lower four bits. -/
theorem PacketType.code_lt (type : PacketType) : type.code < 16 := by
  cases type <;> decide

/-- The type always survives the key. -/
theorem keyType_packetKey {type : ℕ} (htype : type < 16) (num : ℕ) :
    keyType (packetKey type num) = type := by
  simp only [keyType, packetKey, UInt16.toNat_ofNat', Nat.shiftLeft_eq,
    Nat.and_two_pow_sub_one_eq_mod _ 4]
  omega

/-- The packet type can be read back from every key. -/
@[simp] theorem PacketType.ofCode_keyType (type : PacketType) (num : ℕ) :
    PacketType.ofCode (keyType (packetKey type.code num)) = some type := by
  rw [keyType_packetKey type.code_lt]
  cases type <;> rfl

/-- The number survives the key modulo 4096. -/
theorem keyNum_packetKey {type : ℕ} (htype : type < 16) (num : ℕ) :
    keyNum (packetKey type num) = num % 4096 := by
  simp only [keyNum, packetKey, UInt16.toNat_ofNat', Nat.shiftLeft_eq, Nat.shiftRight_eq_div_pow]
  omega

/-- A key can be read back exactly when its number is below 4096. -/
theorem keyNum_packetKey_eq_iff {type : ℕ} (htype : type < 16) (num : ℕ) :
    keyNum (packetKey type num) = num ↔ num < 4096 := by
  rw [keyNum_packetKey htype]
  omega

/-- The keys and ordered streams of the ids bound at the host serve each id alone. -/
structure KeysFit {P : Type*} (d : ChannelProtocol P) : Prop where
  decodes : ∀ (id : Str) (num : ℕ), d.idToNum[id]? = some num → ∀ type : PacketType,
    keyType (packetKey type.code num) = type.code ∧ keyNum (packetKey type.code num) = num
  keys_distinct : ∀ (id id' : Str) (num num' : ℕ), d.idToNum[id]? = some num →
    d.idToNum[id']? = some num' → ∀ type type' : PacketType,
      packetKey type.code num = packetKey type'.code num' → id = id'
  stream : ∀ (id : Str) (num : ℕ), d.idToNum[id]? = some num →
    reservedChannels ≤ num ∧ num < numberOfOrderedStreams
  streams_distinct : ∀ (id id' : Str) (num num' : ℕ), d.idToNum[id]? = some num →
    d.idToNum[id']? = some num' → orderedStream num = orderedStream num' → id = id'
  stream_unreserved : ∀ (id : Str) (num : ℕ), d.idToNum[id]? = some num →
    ∀ channel < reservedChannels, orderedStream num ≠ orderedStream channel

/-- Below the limit the transport keeps the ordering channel. -/
theorem orderedStream_of_lt {channel : ℕ} (h : channel < numberOfOrderedStreams) :
    orderedStream channel = channel :=
  if_neg (Nat.not_le.mpr h)

/-- Numbers below the limit fit. -/
theorem HostTable.keysFit {P : Type*} {d : ChannelProtocol P} (h : HostTable d)
    (hlt : ∀ (id : Str) (num : ℕ), d.idToNum[id]? = some num → num < numberOfOrderedStreams) :
    KeysFit d := by
  have hdecodes : ∀ (id : Str) (num : ℕ), d.idToNum[id]? = some num → ∀ type : PacketType,
      keyType (packetKey type.code num) = type.code ∧ keyNum (packetKey type.code num) = num := by
    intro id num hb type
    exact ⟨keyType_packetKey type.code_lt num,
      (keyNum_packetKey_eq_iff type.code_lt num).mpr (hlt id num hb)⟩
  refine ⟨hdecodes, ?_, ?_, ?_, ?_⟩
  · intro id id' num num' hb hb' type type' hkey
    have hnum : num = num' := by
      rw [← (hdecodes id num hb type).2, hkey, (hdecodes id' num' hb' type').2]
    subst hnum
    exact h.inverse.injective hb hb'
  · intro id num hb
    exact ⟨h.num_pos hb, hlt id num hb⟩
  · intro id id' num num' hb hb' hstream
    rw [orderedStream_of_lt (hlt id num hb), orderedStream_of_lt (hlt id' num' hb')] at hstream
    subst hstream
    exact h.inverse.injective hb hb'
  · intro id num hb channel hchannel
    have hpos := h.num_pos hb
    have hsmall : channel < numberOfOrderedStreams := by
      unfold reservedChannels at hchannel
      unfold numberOfOrderedStreams
      omega
    rw [orderedStream_of_lt (hlt id num hb), orderedStream_of_lt hsmall]
    omega

/-- A table of consecutive numbers fits exactly up to 4080 ids. -/
theorem HostTable.keysFit_iff {P : Type*} {d : ChannelProtocol P} (h : HostTable d) :
    KeysFit d ↔ d.idToNum.size ≤ 4080 := by
  constructor
  · intro hfit
    by_contra hsize
    have hlimit : reservedChannels ≤ numberOfOrderedStreams ∧
        numberOfOrderedStreams < reservedChannels + d.idToNum.size := by
      unfold reservedChannels numberOfOrderedStreams
      omega
    obtain ⟨id, hb⟩ := (h.numbered numberOfOrderedStreams).mpr hlimit
    exact absurd (hfit.stream id _ hb).2 (lt_irrefl _)
  · intro hsize
    apply h.keysFit
    intro id num hb
    have hrange := (h.numbered num).mp ⟨id, hb⟩
    unfold reservedChannels at hrange
    unfold numberOfOrderedStreams
    omega

namespace Session

variable {ι P : Type*} [DecidableEq ι]

/-- A host that sends on a new id binds one more. -/
theorem Agreement.size_submit {s : Session ι P} (h : s.Agreement) {id : Str}
    (hnone : (s.protocol .host).idToNum[id]? = none) (offer : Offer P) :
    ((s.submit .host id offer).protocol .host).idToNum =
      (s.protocol .host).idToNum.insert id ((s.protocol .host).idToNum.size + reservedChannels) := by
  rcases (s.protocol .host).sendChannelPacket_host h.host_mode
    ⟨offer.packet, offer.safe, (s.submitted .host).length⟩ offer.safe offer.prio id with
    ⟨num, hnum, -, -⟩ | ⟨-, hsend⟩
  · rw [hnone] at hnum
    cases hnum
  · rw [s.submit_of_some hsend, commit_protocol, withProtocol_self]
    simp [ChannelProtocol.createIdNum, ChannelProtocol.setIdNum, hnone]

/-- A session may use any number of ids. -/
theorem exists_reachable_size [Inhabited P] (order : Envelope ι P → Envelope ι P → Bool) (n : ℕ) :
    ∃ s, (sessionMachine P order []).Reachable s ∧ (s.protocol .host).idToNum.size = n ∧
      ∀ id : Str, n < id.length → (s.protocol .host).idToNum[id]? = none := by
  induction n with
  | zero => exact ⟨opening ι P [], .initial (begins_opening P List.nodup_nil), rfl, fun id _ => rfl⟩
  | succ n ih =>
    obtain ⟨s, hs, hsize, hfresh⟩ := ih
    let id : Str := List.replicate (n + 1) 65
    have hlength : id.length = n + 1 := List.length_replicate
    have hne : id ≠ [] := List.ne_nil_of_length_eq_add_one hlength
    let offer : Offer P := ⟨default, true, .high⟩
    have hidToNum := (Agreement.reachable hs).size_submit (hfresh id (by omega)) offer
    have hstep : (sessionMachine P order []).step s (.send .host ⟨id, hne⟩ offer) =
      some (s.submit .host id offer) := rfl
    refine ⟨s.submit .host id offer, hs.step hstep, ?_, ?_⟩
    · rw [hidToNum, size_insert_of_getElem?_none (hfresh id (by omega)), hsize]
    · intro id' hid'
      have hother : id ≠ id' := by
        rintro rfl
        omega
      rw [hidToNum, TreeMap.getElem?_insert, if_neg (by simpa using hother)]
      exact hfresh id' (by omega)

/-- In every reachable state of a session, whatever the transport: the keys and streams of all
channel numbers serve their ids alone exactly while the host has bound at most 4080 ids. -/
theorem keys_fit_iff {order : Envelope ι P → Envelope ι P → Bool} {members : List ι}
    {s : Session ι P} (h : (sessionMachine P order members).Reachable s) :
    KeysFit (s.protocol .host) ↔ (s.protocol .host).idToNum.size ≤ 4080 :=
  (Agreement.reachable h).host_table.keysFit_iff

/-- The keys of a session that has used 4080 ids, the last of them with number 4095, fit. -/
theorem keys_fit_iff_full : ∃ s : Session Unit ℕ, (sessionMachine ℕ anyOrder []).Reachable s ∧
    (s.protocol .host).idToNum.size = 4080 ∧ (∃ id, s.Bound id 4095) ∧ KeysFit (s.protocol .host) := by
  obtain ⟨s, hs, hsize, -⟩ : ∃ s : Session Unit ℕ, (sessionMachine ℕ anyOrder []).Reachable s ∧ _ :=
    exists_reachable_size anyOrder 4080
  have htable := (Agreement.reachable hs).host_table
  refine ⟨s, hs, hsize, ?_, (keys_fit_iff hs).mpr hsize.le⟩
  exact (htable.numbered 4095).mpr ⟨by decide, by rw [hsize]; decide⟩

/-- After 4081 ids the last number is 4096: its keys read as number 0, its stream is stream 0. -/
theorem keys_overflow : ∃ s : Session Unit ℕ, (sessionMachine ℕ anyOrder []).Reachable s ∧
    (s.protocol .host).idToNum.size = 4081 ∧ (∃ id, s.Bound id 4096) ∧
    keyNum (packetKey PacketType.channelPacket.code 4096) = 0 ∧ orderedStream 4096 = 0 ∧
    ¬ KeysFit (s.protocol .host) := by
  obtain ⟨s, hs, hsize, -⟩ : ∃ s : Session Unit ℕ, (sessionMachine ℕ anyOrder []).Reachable s ∧ _ :=
    exists_reachable_size anyOrder 4081
  have htable := (Agreement.reachable hs).host_table
  refine ⟨s, hs, hsize, ?_, by decide, by decide, ?_⟩
  · exact (htable.numbered 4096).mpr ⟨by decide, by rw [hsize]; decide⟩
  · rw [htable.keysFit_iff, hsize]
    decide

end Session

end Multicrew.Core
