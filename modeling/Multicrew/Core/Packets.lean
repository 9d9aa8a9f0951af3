import Multicrew.Core.SharedBuffer

/-!
# Packet objects

Every packet class answers `compiledSize` and `compile`, and a wrapping packet compiles what it
wraps into its own buffer when it is constructed. The classes do so independently of each other;
what they write is described once, by the bytes of a payload.
-/

namespace Multicrew.Core

open Multicrew.Library

/-- The objects of the classes derived from `PacketBase`, as far as they are compiled. -/
inductive PacketBase
  | emptyPacket
  | wrappedPacket (buffer : SharedBuffer)
  | rawPacket (buffer : SharedBuffer)
  | structPacket (data : List UInt8)
  | stringPacket (string : Str)
  deriving DecidableEq, Repr

namespace PacketBase

/-- `compiledSize` of the class. -/
def compiledSize : PacketBase → ℕ
  | .emptyPacket => 0
  | .wrappedPacket buffer => buffer.size
  | .rawPacket buffer => buffer.size
  | .structPacket data => data.length
  | .stringPacket string => string.length + 1

/-- The bytes `compile` writes: a `memcpy`, or a `strcpy` of a string. -/
def compile : PacketBase → List UInt8
  | .emptyPacket => []
  | .wrappedPacket buffer => buffer.data.take buffer.size
  | .rawPacket buffer => buffer.data.take buffer.size
  | .structPacket data => data
  | .stringPacket string => cString string ++ [0]

end PacketBase

section Construction

/-! What `malloc` finds in memory is `heap`. -/

variable (heap : ℕ → UInt8)

/-- A new block of this size, with what the heap held. -/
def malloc (size : ℕ) : List UInt8 := (List.range size).map heap

/-- `WrappedPacket( prefix, wrappee )` -/
def wrappedPacket (pre : List UInt8) (wrappee : PacketBase) : PacketBase :=
  let buffer := malloc heap (pre.length + wrappee.compiledSize)
  let buffer := overwrite buffer 0 pre
  .wrappedPacket (.copyOf (overwrite buffer pre.length wrappee.compile))

/-- `StringWrappedPacket( key, wrappee )` -/
def stringWrappedPacket (key : Str) (wrappee : PacketBase) : PacketBase :=
  let buffer := malloc heap (key.length + 1 + wrappee.compiledSize)
  let buffer := overwrite buffer 0 (cString key ++ [0])
  .wrappedPacket (.copyOf (overwrite buffer (key.length + 1) wrappee.compile))

/-- `TypedPacket<char,P>( key, packet )` -/
def typedPacket (key : UInt8) (packet : PacketBase) : PacketBase :=
  wrappedPacket heap [key] packet

/-- `MulticrewPacket( key, packet )`, a `TypedPacket` with an `unsigned __int16` key. -/
def multicrewPacket (key : UInt16) (packet : PacketBase) : PacketBase :=
  wrappedPacket heap (toBytes 2 key.toNat) packet

/-- `FsuipcPacket( id, size, data )` -/
def fsuipcPacket (id : UInt16) (size : UInt8) (data : List UInt8) : PacketBase :=
  wrappedPacket heap (toBytes 2 id.toNat ++ [size]) (.rawPacket (.copyOf data))

/-- `MetafileDataPacket( counter, buffer )` -/
def metafileDataPacket (counter : UInt32) (data : List UInt8) : PacketBase :=
  wrappedPacket heap (toBytes 4 counter.toNat) (.rawPacket (.copyOf data))

/-- The payload packets of the program, by their fields. -/
inductive Payload
  | empty
  | struct (data : List UInt8)
  | string (string : Str)
  | fsuipc (id : UInt16) (size : UInt8) (data : List UInt8)
  | metafileData (counter : UInt32) (data : List UInt8)
  | typed (key : UInt8) (wrappee : Payload)
  deriving DecidableEq, Repr

namespace Payload

/-- The packet object with the given fields. -/
def packet : Payload → PacketBase
  | .empty => .emptyPacket
  | .struct data => .structPacket data
  | .string s => .stringPacket s
  | .fsuipc id size data => fsuipcPacket heap id size data
  | .metafileData counter data => metafileDataPacket heap counter data
  | .typed key wrappee => typedPacket heap key wrappee.packet

/-- The wire format. -/
def bytes : Payload → List UInt8
  | .empty => []
  | .struct data => data
  | .string s => s ++ [0]
  | .fsuipc id size data => toBytes 2 id.toNat ++ size :: data
  | .metafileData counter data => toBytes 4 counter.toNat ++ data
  | .typed key wrappee => key :: wrappee.bytes

/-- No string of the payload contains a NUL. -/
def NulFree : Payload → Prop
  | .string s => 0 ∉ s
  | .typed _ wrappee => wrappee.NulFree
  | _ => True

end Payload

/-- A packet that compiles to the given bytes and knows their number. -/
structure CompilesTo (packet : PacketBase) (bytes : List UInt8) : Prop where
  compile : packet.compile = bytes
  compiledSize : packet.compiledSize = bytes.length

/-- A packet knows how many bytes it compiles to. -/
theorem CompilesTo.size_eq {packet : PacketBase} {bytes : List UInt8}
    (h : CompilesTo packet bytes) : packet.compiledSize = packet.compile.length := by
  rw [h.compiledSize, h.compile]

variable {heap}

/-- Wrapping puts the prefix in front, whatever was in memory. -/
theorem CompilesTo.wrapped {packet : PacketBase} {bytes : List UInt8}
    (h : CompilesTo packet bytes) (pre : List UInt8) :
    CompilesTo (wrappedPacket heap pre packet) (pre ++ bytes) := by
  have hfill : overwrite (overwrite (malloc heap (pre.length + packet.compiledSize)) 0 pre)
      pre.length packet.compile = pre ++ bytes := by
    rw [overwrite_overwrite, h.compile]
    simp [malloc, h.compile, h.compiledSize]
  simp only [wrappedPacket, hfill]
  exact ⟨List.take_length, rfl⟩

/-- Wrapping under a string puts the string and a NUL in front. -/
theorem CompilesTo.stringWrapped {packet : PacketBase} {bytes : List UInt8}
    (h : CompilesTo packet bytes) {key : Str} (hkey : 0 ∉ key) :
    CompilesTo (stringWrappedPacket heap key packet) (key ++ 0 :: bytes) := by
  have hlength : (key ++ [0]).length = key.length + 1 := List.length_append
  have hfill : overwrite (overwrite (malloc heap (key.length + 1 + packet.compiledSize)) 0
      (cString key ++ [0])) (key.length + 1) packet.compile = key ++ 0 :: bytes := by
    rw [cString_eq_self hkey, ← hlength, overwrite_overwrite, h.compile]
    · simp
    · simp [malloc, h.compile, h.compiledSize]
  simp only [stringWrappedPacket, hfill]
  exact ⟨List.take_length, rfl⟩

/-- Raw bytes compile to themselves. -/
theorem CompilesTo.raw (data : List UInt8) : CompilesTo (.rawPacket (.copyOf data)) data :=
  ⟨List.take_length, rfl⟩

/-- Every payload compiles to its wire format. -/
theorem Payload.compilesTo (heap : ℕ → UInt8) (p : Payload) (hp : p.NulFree) :
    CompilesTo (p.packet heap) p.bytes := by
  induction p with
  | empty => exact ⟨rfl, rfl⟩
  | struct data => exact ⟨rfl, rfl⟩
  | string string =>
    refine ⟨?_, by simp [Payload.packet, Payload.bytes, PacketBase.compiledSize]⟩
    rw [Payload.packet, PacketBase.compile, cString_eq_self hp]
    rfl
  | fsuipc id size data =>
    have h : CompilesTo (fsuipcPacket heap id size data) (toBytes 2 id.toNat ++ [size] ++ data) :=
      (CompilesTo.raw data).wrapped _
    rwa [List.append_assoc] at h
  | metafileData counter data => exact (CompilesTo.raw data).wrapped _
  | typed key wrappee ih => exact (ih hp).wrapped [key]

end Construction

end Multicrew.Core
