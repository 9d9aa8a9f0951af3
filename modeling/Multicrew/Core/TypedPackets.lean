import Multicrew.Core.Packets

/-!
# Decoding typed packets

A `TypedPacket` starts with the bytes of its key, a `StringTypedPacket` with its key and a NUL. The
packet object behind the key is made by a factory, which gets the key and a range of the buffer. It is
called by the `wrappee` function of a packet object or by the factory's own `createPacket( buffer )`,
and each of them computes the range.
-/

namespace Multicrew.Core

open Multicrew.Library

/-- A type of keys: its values and the bytes they are in memory. -/
structure KeyType (Key : Type) where
  sizeof : ℕ
  toBytes : Key → List UInt8
  ofBytes : List UInt8 → Key
  length_toBytes : ∀ key, (toBytes key).length = sizeof
  ofBytes_toBytes : ∀ key, ofBytes (toBytes key) = key

/-- `char` -/
def KeyType.char : KeyType UInt8 where
  sizeof := 1
  toBytes key := [key]
  ofBytes bytes := bytes.headD 0
  length_toBytes _ := rfl
  ofBytes_toBytes _ := rfl

variable {Key R : Type}

/-! `createPacket` is the function with two arguments that a factory implements; `R` is what it
returns. -/

namespace TypedPacket

variable (K : KeyType Key)

/-- `TypedPacket( key, packet )` -/
def packet (heap : ℕ → UInt8) (key : Key) (wrappee : PacketBase) : PacketBase :=
  wrappedPacket heap (K.toBytes key) wrappee

/-- `TypedPacket::key( buffer )` -/
def key (buffer : SharedBuffer) : Except Fault Key := K.ofBytes <$> buffer.read K.sizeof

/-- `TypedPacket( buffer, factory )` and its `wrappee()` -/
def wrappee (createPacket : Key → SharedBuffer → R) (buffer : SharedBuffer) : Except Fault R := do
  let data ← buffer.slice K.sizeof
  return createPacket (← key K buffer) data

end TypedPacket

/-- `TypedPacketFactory::createPacket( buffer )` -/
def TypedPacketFactory.createPacket (K : KeyType Key) (createPacket : Key → SharedBuffer → R)
    (buffer : SharedBuffer) : Except Fault R := do
  return createPacket (← TypedPacket.key K buffer) (← buffer.slice K.sizeof)

namespace StringTypedPacket

/-- `StringTypedPacket::key( buffer )` -/
def key (buffer : SharedBuffer) : Except Fault Str := buffer.readString

/-- `StringTypedPacket( buffer, factory )` and its `wrappee()` -/
def wrappee (createPacket : Str → SharedBuffer → R) (buffer : SharedBuffer) : Except Fault R := do
  let data ← buffer.slice ((← buffer.readString).length + 1)
  return createPacket (← key buffer) data

end StringTypedPacket

/-- `StringTypedPacketFactory::createPacket( buffer )` -/
def StringTypedPacketFactory.createPacket (createPacket : Str → SharedBuffer → R)
    (buffer : SharedBuffer) : Except Fault R := do
  let key ← StringTypedPacket.key buffer
  return createPacket key (← buffer.slice key.length)

/-- The two classes of packets with a key. -/
inductive KeyedPacket (Key : Type)
  | typedPacket (key : Key)
  | stringTypedPacket (key : Str) (nulFree : 0 ∉ key)

namespace KeyedPacket

/-- What the packet compiles to. -/
def compile (K : KeyType Key) (heap : ℕ → UInt8) (wrappee : PacketBase) :
    KeyedPacket Key → List UInt8
  | typedPacket key => (TypedPacket.packet K heap key wrappee).compile
  | stringTypedPacket key _ => (stringWrappedPacket heap key wrappee).compile

/-- Two decoders call the `createPacket` of every factory with this key and the same range. -/
def CallAlike {Key : Type}
    (first second : ∀ R : Type, (Key → SharedBuffer → R) → SharedBuffer → Except Fault R)
    (key : Key) (buffer : SharedBuffer) : Prop :=
  ∃ data, ∀ (R : Type) (createPacket : Key → SharedBuffer → R),
    first R createPacket buffer = .ok (createPacket key data) ∧
      second R createPacket buffer = .ok (createPacket key data)

/-- The factory decodes the packet the way the packet object does. -/
def DecodedAlike (K : KeyType Key) (buffer : SharedBuffer) : KeyedPacket Key → Prop
  | typedPacket key =>
    CallAlike (fun _ => TypedPacketFactory.createPacket K) (fun _ => TypedPacket.wrappee K) key buffer
  | stringTypedPacket key _ =>
    CallAlike (fun _ => StringTypedPacketFactory.createPacket) (fun _ => StringTypedPacket.wrappee)
      key buffer

/-- The class is `TypedPacket`. -/
def IsTyped : KeyedPacket Key → Prop
  | typedPacket _ => True
  | stringTypedPacket _ _ => False

end KeyedPacket

/-- Whatever a wrapped packet writes behind it, its prefix stays in front. -/
theorem exists_compile_overwrite (block pre bytes : List UInt8) :
    ∃ rest, (PacketBase.wrappedPacket (.copyOf
      (overwrite (overwrite block 0 pre) pre.length bytes))).compile = pre ++ rest := by
  refine ⟨bytes ++ (overwrite block 0 pre).drop (pre.length + bytes.length), ?_⟩
  have hfirst : (overwrite block 0 pre).take pre.length = pre := by simp [overwrite]
  rw [overwrite, hfirst, PacketBase.compile, List.append_assoc]
  exact List.take_length

section Decoding

variable {K : KeyType Key} (before rest after : List UInt8)

/-- Both decoders of a `TypedPacket` call `createPacket` with what is behind the key. -/
theorem TypedPacketFactory.createPacket_within (key : Key) (createPacket : Key → SharedBuffer → R) :
    TypedPacketFactory.createPacket K createPacket
      (.within before (K.toBytes key ++ rest) after) =
        .ok (createPacket key (.within (before ++ K.toBytes key) rest after)) := by
  have hread := SharedBuffer.read_within before (K.toBytes key) rest after (K.length_toBytes key)
  have hslice := SharedBuffer.slice_within before (K.toBytes key) rest after (K.length_toBytes key)
  simp only [TypedPacketFactory.createPacket, TypedPacket.key, hread, hslice]
  exact congrArg (fun key => Except.ok (createPacket key _)) (K.ofBytes_toBytes key)

/-- The factory gets the key and what is behind it. -/
theorem TypedPacket.wrappee_within (key : Key) (createPacket : Key → SharedBuffer → R) :
    TypedPacket.wrappee K createPacket (.within before (K.toBytes key ++ rest) after) =
      .ok (createPacket key (.within (before ++ K.toBytes key) rest after)) := by
  have hread := SharedBuffer.read_within before (K.toBytes key) rest after (K.length_toBytes key)
  have hslice := SharedBuffer.slice_within before (K.toBytes key) rest after (K.length_toBytes key)
  simp only [TypedPacket.wrappee, TypedPacket.key, hread, hslice]
  exact congrArg (fun key => Except.ok (createPacket key _)) (K.ofBytes_toBytes key)

variable {key : Str} (hkey : 0 ∉ key) (createPacket : Str → SharedBuffer → R)

include hkey

/-- The factory of a `StringTypedPacket` passes the NUL on. -/
theorem StringTypedPacketFactory.createPacket_within :
    StringTypedPacketFactory.createPacket createPacket (.within before (key ++ 0 :: rest) after) =
      .ok (createPacket key (.within (before ++ key) (0 :: rest) after)) := by
  have hread := SharedBuffer.readString_within before rest after hkey
  have hslice := SharedBuffer.slice_within before key (0 :: rest) after rfl
  rw [StringTypedPacketFactory.createPacket, StringTypedPacket.key, hread, ok_bind, hslice]
  rfl

/-- The packet object does not. -/
theorem StringTypedPacket.wrappee_within :
    StringTypedPacket.wrappee createPacket (.within before (key ++ 0 :: rest) after) =
      .ok (createPacket key (.within (before ++ (key ++ [0])) rest after)) := by
  have hread := SharedBuffer.readString_within before rest after hkey
  have hslice : (SharedBuffer.within before (key ++ 0 :: rest) after).slice (key.length + 1) =
      .ok (.within (before ++ (key ++ [0])) rest after) := by
    rw [List.append_cons]
    exact SharedBuffer.slice_within before (key ++ [0]) rest after List.length_append
  rw [StringTypedPacket.wrappee, StringTypedPacket.key, hread, ok_bind, hslice]
  rfl

/-- So they never agree. -/
theorem KeyedPacket.not_callAlike_string :
    ¬ CallAlike (fun _ => StringTypedPacketFactory.createPacket)
      (fun _ => StringTypedPacket.wrappee) key (.within before (key ++ 0 :: rest) after) := by
  rintro ⟨data, hdata⟩
  obtain ⟨hfactory, hpacket⟩ := hdata (Str × SharedBuffer) Prod.mk
  simp only [StringTypedPacketFactory.createPacket_within before rest after hkey,
    StringTypedPacket.wrappee_within before rest after hkey, Except.ok.injEq, Prod.mk.injEq,
    true_and] at hfactory hpacket
  have hstart := congrArg SharedBuffer.start (hfactory.trans hpacket.symm)
  simp [SharedBuffer.within] at hstart

end Decoding

/-- The factory of a `TypedPacket` uses the same range as the packet object, whatever the key, the
payload and the factory are; that of a `StringTypedPacket` never does. -/
theorem decodedAlike_iff (K : KeyType Key) (heap : ℕ → UInt8) (packet : KeyedPacket Key)
    (wrappee : PacketBase) (before after : List UInt8) :
    packet.DecodedAlike K (.within before (packet.compile K heap wrappee) after) ↔
      packet.IsTyped := by
  cases packet with
  | typedPacket key =>
    refine iff_of_true ?_ trivial
    obtain ⟨rest, hbytes⟩ := exists_compile_overwrite
      (malloc heap ((K.toBytes key).length + wrappee.compiledSize)) (K.toBytes key) wrappee.compile
    have hcompile : KeyedPacket.compile K heap wrappee (.typedPacket key) = K.toBytes key ++ rest :=
      hbytes
    rw [hcompile]
    exact ⟨_, fun _ createPacket =>
      ⟨TypedPacketFactory.createPacket_within before rest after key createPacket,
        TypedPacket.wrappee_within before rest after key createPacket⟩⟩
  | stringTypedPacket key hkey =>
    refine iff_of_false ?_ id
    obtain ⟨rest, hbytes⟩ := exists_compile_overwrite
      (malloc heap (key.length + 1 + wrappee.compiledSize)) (key ++ [0]) wrappee.compile
    have hcompile : KeyedPacket.compile K heap wrappee (.stringTypedPacket key hkey) =
        key ++ 0 :: rest := by
      rw [List.append_cons, ← hbytes, List.length_append, List.length_singleton]
      simp only [KeyedPacket.compile, stringWrappedPacket, cString_eq_self hkey]
    rw [hcompile]
    exact KeyedPacket.not_callAlike_string before rest after hkey

/-- A `StringTypedPacket` with the key `a`. -/
def letterPacket : KeyedPacket UInt8 := .stringTypedPacket [0x61] (by decide)

/-- With one byte behind the key, the factory passes on two. -/
theorem letterPacket_not_decodedAlike :
    ¬ letterPacket.DecodedAlike .char
      (.within [] (letterPacket.compile .char (fun _ => 0) (.structPacket [1])) []) := by
  have hcompile : letterPacket.compile .char (fun _ => 0) (.structPacket [1]) =
      [0x61] ++ 0 :: [1] := by decide
  rw [hcompile]
  exact KeyedPacket.not_callAlike_string [] [1] [] (by decide)

end Multicrew.Core
