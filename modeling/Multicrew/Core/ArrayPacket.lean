import Mathlib.Algebra.Order.BigOperators.Group.List
import Mathlib.Algebra.Order.Group.Nat
import Multicrew.Core.Packets
import Multicrew.Library.Machine

/-!
# Packets that are arrays of packets

A received `ArrayPacket` keeps its buffer until `begin`, `end` or `size` is called, which make the
children; `compile`, `compiledSize` and `append` do not. The class of the children is a parameter with
what the array calls of it, and arrays are such a class again, so arrays may be nested. `Meaning` says
what the objects of a class stand for.

Sizes are below 2^32, as are those of all buffers.
-/

namespace Multicrew.Core

open Multicrew.Library

/-- What an array calls of a class of packets. `Call` are the calls through an iterator that change an
object. -/
structure PacketClass (P Call : Type) where
  compiledSize : P → ℕ
  compile : P → List UInt8
  createChild : SharedBuffer → Except Fault (Option P)
  call : Call → P → Except Fault P

/-- `ArrayPacket` -/
structure ArrayPacket (P : Type) where
  compiled : Bool
  buffer : SharedBuffer
  packets : List P
  deriving DecidableEq

/-- The calls that change an array; `size` and `end` do what `begin` does. -/
inductive ArrayCall (P Call : Type)
  | begin
  | append (packet : P)
  | child (i : ℕ) (call : Call)
  deriving DecidableEq

namespace ArrayPacket

variable {P Call : Type} (C : PacketClass P Call)

/-- `ArrayPacket()` and an `append` for each packet -/
def ofPackets (packets : List P) : ArrayPacket P := ⟨false, .copyOf [0], packets⟩

/-- `ArrayPacket( buf )` -/
def ofBuffer (buf : SharedBuffer) : ArrayPacket P := ⟨true, buf, []⟩

/-- `compiledSize`: every packet has its size in front of it, and their number stands before all. -/
def compiledSize (a : ArrayPacket P) : ℕ :=
  a.packets.foldl (fun ret packet => ret + C.compiledSize packet) 0 + 4 + 4 * a.packets.length

/-- A packet with its size in front. -/
def compileItem (packet : P) : List UInt8 := toBytes 4 (C.compiledSize packet) ++ C.compile packet

/-- Every packet writes as many bytes as it announces. -/
def compile (a : ArrayPacket P) : List UInt8 :=
  toBytes 4 a.packets.length ++ a.packets.flatMap (compileItem C)

/-- The loop of `decompile` for the number of items that are left. -/
def decompileFrom (buffer : SharedBuffer) : ℕ → ℕ → Except Fault (List P)
  | 0, _ => .ok []
  | n + 1, pos => do
    let packetSize := ofBytes (← (buffer.range pos 4).read 4)
    let packet ← C.createChild (buffer.range (pos + 4) packetSize)
    return packet.toList ++ (← decompileFrom buffer n (pos + 4 + packetSize))

/-- What `decompile` finds, if it is still to be called. -/
def received (a : ArrayPacket P) : Except Fault (List P) := do
  if a.compiled then decompileFrom C a.buffer (ofBytes (← a.buffer.read 4)) 4 else return []

/-- `if( compiled ) decompile()` -/
def decompile (a : ArrayPacket P) : Except Fault (ArrayPacket P) := do
  return { a with compiled := false, packets := a.packets ++ (← a.received C) }

/-- `append` -/
def append (a : ArrayPacket P) (packet : P) : ArrayPacket P :=
  { a with packets := a.packets ++ [packet] }

/-- One call of the array, or of one of its packets. -/
def call : ArrayCall P Call → ArrayPacket P → Except Fault (ArrayPacket P)
  | .begin, a => a.decompile C
  | .append packet, a => .ok (a.append packet)
  | .child i c, a => do
    let a ← a.decompile C
    match a.packets[i]? with
    | some packet => return { a with packets := a.packets.set i (← C.call c packet) }
    | none => return a

end ArrayPacket

/-- Arrays are packets. -/
def PacketClass.array {P Call : Type} (C : PacketClass P Call) :
    PacketClass (ArrayPacket P) (ArrayCall P Call) where
  compiledSize := ArrayPacket.compiledSize C
  compile := ArrayPacket.compile C
  createChild buffer := .ok (some (.ofBuffer buffer))
  call := ArrayPacket.call C

/-- The packets of a class that is not an array, with what makes an object from a buffer. -/
def PacketClass.plain (createChild : SharedBuffer → Except Fault (Option PacketBase)) :
    PacketClass PacketBase Empty where
  compiledSize := PacketBase.compiledSize
  compile := PacketBase.compile
  createChild := createChild
  call c := nomatch c

/-- What the objects of a class stand for, and what calls are to do to it. `Ready` are the objects
that compile to the bytes of it, and `Proper` the calls that do what they are to do. Objects that are
not ready compile to less. -/
structure Meaning {P Call : Type} (C : PacketClass P Call) (V : Type) where
  val : P → V
  bytes : V → List UInt8
  effect : Call → V → V
  Sound : P → Prop
  Admissible : Call → Prop
  Ready : P → Prop
  Proper : Call → P → Prop
  compiledSize_eq : ∀ p, Sound p → C.compiledSize p = (C.compile p).length
  compile_of_ready : ∀ p, Sound p → Ready p → C.compile p = bytes (val p)
  compile_of_not_ready : ∀ p, Sound p → ¬ Ready p → (C.compile p).length < (bytes (val p)).length
  exists_call : ∀ c p, Admissible c → Sound p →
    ∃ q, C.call c p = .ok q ∧ Sound q ∧ (val q = effect c (val p) ↔ Proper c p)

/-- `createChild` makes an object for a value from its bytes, wherever they are. -/
def Meaning.Decodes {P Call V : Type} {C : PacketClass P Call} (M : Meaning C V) (v : V) : Prop :=
  ∀ before after, ∃ p, C.createChild (.within before (M.bytes v) after) = .ok (some p) ∧
    M.Sound p ∧ M.val p = v

namespace ArrayPacket

variable {P Call V : Type} {C : PacketClass P Call} (M : Meaning C V)

/-- The bytes of an array with the values of its children. -/
def itemBytes (v : V) : List UInt8 := toBytes 4 (M.bytes v).length ++ M.bytes v

/-- What an array with these values should be compiled to. -/
def arrayBytes (vs : List V) : List UInt8 := toBytes 4 vs.length ++ vs.flatMap (itemBytes M)

/-- The values of the children that `begin` and `end` are to show. -/
def content (a : ArrayPacket P) : List V :=
  a.packets.map M.val ++ match a.received C with
    | .ok packets => packets.map M.val
    | .error _ => []

/-- What is in the buffer can be decompiled. -/
def Sound (a : ArrayPacket P) : Prop :=
  ∃ packets, a.received C = .ok packets ∧ ∀ p ∈ a.packets ++ packets, M.Sound p

/-- Nothing is left in the buffer, and the children are ready. -/
def Ready (a : ArrayPacket P) : Prop := a.received C = .ok [] ∧ ∀ p ∈ a.packets, M.Ready p

end ArrayPacket

namespace ArrayCall

variable {P Call V : Type} {C : PacketClass P Call} (M : Meaning C V)

/-- What a call is to do to the values of the children. -/
def effect : ArrayCall P Call → List V → List V
  | .begin, vs => vs
  | .append packet, vs => vs ++ [M.val packet]
  | .child i c, vs => vs.modify i (M.effect c)

/-- The calls that fit into a sound array. -/
def Admissible : ArrayCall P Call → Prop
  | .begin => True
  | .append packet => M.Sound packet
  | .child _ c => M.Admissible c

/-- A packet is appended when nothing is left in the buffer, or only the same; what is called of a
child is proper for it. -/
def Proper (c : ArrayCall P Call) (a : ArrayPacket P) : Prop :=
  match c with
  | .begin => True
  | .append packet => ∀ packets, a.received C = .ok packets → ∀ p ∈ packets, M.val p = M.val packet
  | .child i c => ∀ packets, a.received C = .ok packets →
      ∀ p, (a.packets ++ packets)[i]? = some p → M.Proper c p

end ArrayCall

namespace ArrayPacket

variable {P Call V : Type} {C : PacketClass P Call} {M : Meaning C V} {a : ArrayPacket P}
  {packets : List P} {c : ArrayCall P Call}

/-! ### Arrays have a meaning -/

/-- Nothing is received unless the array is compiled. -/
theorem received_of_not_compiled (h : a.compiled = false) : a.received C = .ok [] := by
  rw [received, h]
  rfl

/-- Decompiling puts the received packets behind those appended. -/
theorem decompile_eq (h : a.received C = .ok packets) : a.decompile C =
    .ok { a with compiled := false, packets := a.packets ++ packets } := by
  rw [decompile, h]
  rfl

/-- The content is that of both. -/
theorem content_eq (h : a.received C = .ok packets) :
    content M a = (a.packets ++ packets).map M.val := by
  simp only [content, h, List.map_append]

/-- The content of an array that is not to be decompiled. -/
theorem content_of_not_compiled (h : a.compiled = false) : content M a = a.packets.map M.val := by
  rw [content_eq (received_of_not_compiled h), List.append_nil]

/-- The items of ready packets are those of their values. -/
theorem flatMap_compileItem (hsound : ∀ p ∈ packets, M.Sound p) (hready : ∀ p ∈ packets, M.Ready p) :
    packets.flatMap (compileItem C) = (packets.map M.val).flatMap (itemBytes M) := by
  rw [List.flatMap_map]
  refine List.flatMap_congr fun p hp => ?_
  rw [compileItem, itemBytes, M.compiledSize_eq p (hsound p hp),
    M.compile_of_ready p (hsound p hp) (hready p hp)]

/-- No item is longer than that of its value. -/
theorem length_compileItem_le {p : P} (hsound : M.Sound p) :
    (compileItem C p).length ≤ (itemBytes M (M.val p)).length := by
  simp only [compileItem, itemBytes, List.length_append, length_toBytes]
  by_cases hready : M.Ready p
  · rw [M.compile_of_ready p hsound hready]
  · have hlt := M.compile_of_not_ready p hsound hready
    omega

/-- No packet is compiled to more than its value takes. -/
theorem length_items_le (hsound : ∀ p ∈ packets, M.Sound p) :
    (packets.flatMap (compileItem C)).length ≤
      ((packets.map M.val).flatMap (itemBytes M)).length := by
  rw [List.flatMap_map, List.length_flatMap, List.length_flatMap]
  exact List.sum_le_sum fun p hp => length_compileItem_le (hsound p hp)

/-- A packet that is not ready makes the items shorter. -/
theorem length_items_lt (hsound : ∀ p ∈ packets, M.Sound p) (h : ∃ p ∈ packets, ¬ M.Ready p) :
    (packets.flatMap (compileItem C)).length <
      ((packets.map M.val).flatMap (itemBytes M)).length := by
  rw [List.flatMap_map, List.length_flatMap, List.length_flatMap]
  obtain ⟨p, hp, hready⟩ := h
  refine List.sum_lt_sum _ _ (fun p hp => length_compileItem_le (hsound p hp)) ⟨p, hp, ?_⟩
  have hlt := M.compile_of_not_ready p (hsound p hp) hready
  simp only [compileItem, itemBytes, List.length_append, length_toBytes]
  omega

/-- An array announces as many bytes as it writes. -/
theorem Sound.compiledSize_eq (ha : a.Sound M) : a.compiledSize C = (a.compile C).length := by
  obtain ⟨packets, -, hsound⟩ := ha
  have hitems : ∀ (ps : List P) (ret : ℕ), (∀ p ∈ ps, M.Sound p) →
      ps.foldl (fun ret packet => ret + C.compiledSize packet) ret + 4 * ps.length =
        ret + (ps.flatMap (compileItem C)).length := by
    intro ps ret hps
    induction ps generalizing ret with
    | nil => rfl
    | cons p ps ih =>
      have hp := M.compiledSize_eq p (hps p List.mem_cons_self)
      have hrest := ih (ret + C.compiledSize p) fun q hq => hps q (List.mem_cons_of_mem p hq)
      simp only [List.foldl_cons, List.flatMap_cons, List.length_cons, List.length_append,
        compileItem, length_toBytes]
      omega
  have hown := hitems a.packets 0 fun p hp => hsound p (List.mem_append_left packets hp)
  rw [compiledSize, compile, List.length_append, length_toBytes]
  omega

/-- A ready array compiles to the bytes of its content. -/
theorem Sound.compile_of_ready (ha : a.Sound M) (hready : a.Ready M) :
    a.compile C = arrayBytes M (content M a) := by
  obtain ⟨packets, hreceived, hsound⟩ := ha
  obtain rfl : [] = packets := Except.ok.inj (hready.1.symm.trans hreceived)
  rw [List.append_nil] at hsound
  rw [content_eq hready.1, List.append_nil, compile, arrayBytes, List.length_map,
    flatMap_compileItem hsound hready.2]

/-- Any other array compiles to less. -/
theorem Sound.compile_of_not_ready (ha : a.Sound M) (hready : ¬ a.Ready M) :
    (a.compile C).length < (arrayBytes M (content M a)).length := by
  obtain ⟨packets, hreceived, hsound⟩ := ha
  have hown := fun p hp => hsound p (List.mem_append_left packets hp)
  rw [content_eq hreceived, List.map_append, arrayBytes, compile, List.flatMap_append]
  simp only [List.length_append, length_toBytes]
  cases packets with
  | nil =>
    have hexists : ∃ p ∈ a.packets, ¬ M.Ready p := by
      by_contra hall
      refine hready ⟨hreceived, fun p hp => ?_⟩
      by_contra hnot
      exact hall ⟨p, hp, hnot⟩
    have hlt := length_items_lt hown hexists
    omega
  | cons p packets =>
    have hle := length_items_le hown
    simp only [List.map_cons, List.flatMap_cons, List.length_append, itemBytes, length_toBytes]
    omega

/-- One value may be put in front of some others or behind them if it is the same as they are. -/
theorem append_singleton_comm_iff {V : Type} {v : V} {vs : List V} :
    [v] ++ vs = vs ++ [v] ↔ ∀ x ∈ vs, x = v := by
  induction vs with
  | nil => simp
  | cons x vs ih =>
    rw [List.forall_mem_cons, ← ih]
    constructor
    · intro h
      obtain ⟨rfl, htail⟩ := List.cons.inj h
      exact ⟨rfl, htail⟩
    · rintro ⟨rfl, htail⟩
      exact congrArg (List.cons _) htail

/-- `begin` brings the children from the buffer behind the ones that are there. -/
theorem Sound.decompile (ha : a.Sound M) (h : a.received C = .ok packets) :
    ∃ b, a.decompile C = .ok b ∧ b.Sound M ∧ b.compiled = false ∧ b.packets = a.packets ++ packets ∧
      content M b = content M a := by
  refine ⟨_, decompile_eq h, ?_, rfl, rfl, ?_⟩
  · obtain ⟨packets', hreceived, hsound⟩ := ha
    obtain rfl : packets = packets' := Except.ok.inj (h.symm.trans hreceived)
    exact ⟨[], received_of_not_compiled rfl, by simpa using hsound⟩
  · rw [content_of_not_compiled rfl, content_eq h]

/-- A packet is appended behind the ones that are there, and so before those from the buffer. -/
theorem Sound.append (ha : a.Sound M) {p : P} (hp : M.Sound p) :
    (a.append p).Sound M ∧ (content M (a.append p) = content M a ++ [M.val p] ↔
      (ArrayCall.append p : ArrayCall P Call).Proper M a) := by
  obtain ⟨packets, hreceived, hsound⟩ := ha
  have hreceived' : (a.append p).received C = .ok packets := hreceived
  constructor
  · refine ⟨packets, hreceived', fun q hq => ?_⟩
    simp only [ArrayPacket.append, List.mem_append, List.mem_singleton] at hq
    obtain (hold | rfl) | hnew := hq
    · exact hsound q (List.mem_append_left _ hold)
    · exact hp
    · exact hsound q (List.mem_append_right _ hnew)
  · rw [content_eq hreceived, content_eq hreceived']
    simp only [ArrayPacket.append, List.map_append, List.append_assoc, List.map_cons, List.map_nil,
      List.append_cancel_left_eq, append_singleton_comm_iff, List.forall_mem_map]
    constructor
    · intro hall packets' h
      obtain rfl : packets = packets' := Except.ok.inj (hreceived.symm.trans h)
      exact hall
    · exact fun hall => hall packets hreceived

/-- Replacing an element changes its image as a function does that gives the new image. -/
theorem map_set_eq_modify_iff {V : Type} {f : P → V} {g : V → V} {p q : P} {i : ℕ} {ps : List P}
    (h : ps[i]? = some p) : (ps.set i q).map f = (ps.map f).modify i g ↔ f q = g (f p) := by
  induction ps generalizing i with
  | nil => simp at h
  | cons x ps ih =>
    cases i with
    | zero =>
      obtain rfl : x = p := by simpa using h
      simp
    | succ i =>
      rw [List.getElem?_cons_succ] at h
      simpa using ih h

/-- A call changes the value of the child it is for as it changes the child. -/
theorem Sound.child (ha : a.Sound M) {c : Call} (hc : M.Admissible c) (i : ℕ) :
    ∃ b, a.call C (.child i c) = .ok b ∧ b.Sound M ∧
      (content M b = (content M a).modify i (M.effect c) ↔
        (ArrayCall.child i c : ArrayCall P Call).Proper M a) := by
  obtain ⟨packets, hreceived, -⟩ := id ha
  obtain ⟨b, hdecompile, hsound, hcompiled, hpackets, hcontent⟩ := ha.decompile hreceived
  have hproper : (ArrayCall.child i c : ArrayCall P Call).Proper M a ↔
      ∀ p, b.packets[i]? = some p → M.Proper c p := by
    rw [hpackets]
    constructor
    · exact fun h => h packets hreceived
    · intro h packets' h'
      obtain rfl : packets = packets' := Except.ok.inj (hreceived.symm.trans h')
      exact h
  rw [hproper, ← hcontent, content_of_not_compiled hcompiled]
  have hsound' : ∀ p ∈ b.packets, M.Sound p := by
    obtain ⟨rest, -, hall⟩ := hsound
    exact fun p hp => hall p (List.mem_append_left rest hp)
  cases hchild : b.packets[i]? with
  | none =>
    refine ⟨b, ?_, hsound, ?_⟩
    · rw [call, hdecompile, ok_bind]
      simp only [hchild]
      rfl
    · have hlength : (b.packets.map M.val).length ≤ i := by
        rw [List.length_map]
        exact List.getElem?_eq_none_iff.mp hchild
      rw [content_of_not_compiled hcompiled, List.modify_eq_self hlength]
      simp
  | some p =>
    obtain ⟨q, hq, hqsound, hval⟩ := M.exists_call c p hc (hsound' p (List.mem_of_getElem? hchild))
    refine ⟨{ b with packets := b.packets.set i q }, ?_, ?_, ?_⟩
    · rw [call, hdecompile, ok_bind]
      simp only [hchild, hq]
      rfl
    · refine ⟨[], received_of_not_compiled hcompiled, fun x hx => ?_⟩
      rw [List.append_nil] at hx
      obtain hold | rfl := List.mem_or_eq_of_mem_set hx
      · exact hsound' x hold
      · exact hqsound
    · have hafter : content M { b with packets := b.packets.set i q } =
          (b.packets.set i q).map M.val := content_of_not_compiled hcompiled
      rw [hafter, map_set_eq_modify_iff hchild, hval]
      simp

end ArrayPacket

/-- What arrays stand for: the values of their children. -/
def Meaning.array {P Call V : Type} {C : PacketClass P Call} (M : Meaning C V) :
    Meaning C.array (List V) where
  val := ArrayPacket.content M
  bytes := ArrayPacket.arrayBytes M
  effect := ArrayCall.effect M
  Sound := ArrayPacket.Sound M
  Admissible := ArrayCall.Admissible M
  Ready := ArrayPacket.Ready M
  Proper := ArrayCall.Proper M
  compiledSize_eq _ ha := ha.compiledSize_eq
  compile_of_ready _ ha := ha.compile_of_ready
  compile_of_not_ready _ ha := ha.compile_of_not_ready
  exists_call c a hc ha := by
    cases c with
    | begin =>
      obtain ⟨packets, hreceived, -⟩ := id ha
      obtain ⟨b, hb, hsound, -, -, hcontent⟩ := ha.decompile hreceived
      exact ⟨b, hb, hsound, iff_of_true hcontent trivial⟩
    | append p => exact ⟨_, rfl, ha.append hc⟩
    | child i c => exact ha.child hc i

/-- The objects of the other classes stand for the bytes they compile to, if they announce as many. -/
def Meaning.plain (createChild : SharedBuffer → Except Fault (Option PacketBase)) :
    Meaning (.plain createChild) (List UInt8) where
  val := PacketBase.compile
  bytes := id
  effect c := nomatch c
  Sound p := p.compiledSize = p.compile.length
  Admissible _ := True
  Ready _ := True
  Proper _ _ := True
  compiledSize_eq _ h := h
  compile_of_ready _ _ _ := rfl
  compile_of_not_ready _ _ h := absurd trivial h
  exists_call c := nomatch c

/-! ### Decoding -/

namespace ArrayPacket

variable {P Call V : Type} {C : PacketClass P Call} {M : Meaning C V} {vs : List V} {v : V}

/-- The loop of `decompile` makes the children from their items, behind what is done. -/
theorem decompileFrom_items (hdecodes : ∀ v ∈ vs, M.Decodes v)
    (hsize : ∀ v ∈ vs, (M.bytes v).length < 2 ^ 32) (before done after : List UInt8) :
    ∃ packets, decompileFrom C (.within before (done ++ vs.flatMap (itemBytes M)) after)
        vs.length done.length = .ok packets ∧
      (∀ p ∈ packets, M.Sound p) ∧ packets.map M.val = vs := by
  induction vs generalizing done with
  | nil => exact ⟨[], rfl, by simp, rfl⟩
  | cons v vs ih =>
    have hv := hsize v List.mem_cons_self
    have hitem : done ++ (v :: vs).flatMap (itemBytes M) =
        done ++ (toBytes 4 (M.bytes v).length ++ (M.bytes v ++ vs.flatMap (itemBytes M))) := by
      rw [List.flatMap_cons, itemBytes, List.append_assoc]
    have hnext : done ++ (v :: vs).flatMap (itemBytes M) =
        (done ++ itemBytes M v) ++ vs.flatMap (itemBytes M) := by
      rw [List.flatMap_cons, List.append_assoc]
    have hread : ((SharedBuffer.within before (done ++ (v :: vs).flatMap (itemBytes M)) after).range
        done.length 4).read 4 = .ok (toBytes 4 (M.bytes v).length) := by
      have hrange := SharedBuffer.range_within before done (toBytes 4 (M.bytes v).length)
        (M.bytes v ++ vs.flatMap (itemBytes M)) after rfl
      rw [length_toBytes] at hrange
      rw [hitem, hrange, ← List.append_nil (toBytes 4 (M.bytes v).length)]
      exact SharedBuffer.read_within _ _ _ _ (length_toBytes 4 _)
    have hrange : (SharedBuffer.within before (done ++ (v :: vs).flatMap (itemBytes M)) after).range
        (done.length + 4) (M.bytes v).length =
          .within (before ++ (done ++ toBytes 4 (M.bytes v).length)) (M.bytes v)
            (vs.flatMap (itemBytes M) ++ after) := by
      rw [hitem, ← List.append_assoc]
      exact SharedBuffer.range_within _ _ _ _ _ (by simp)
    obtain ⟨p, hp, hsound, hval⟩ := hdecodes v List.mem_cons_self
      (before ++ (done ++ toBytes 4 (M.bytes v).length)) (vs.flatMap (itemBytes M) ++ after)
    obtain ⟨packets, hpackets, hall, hvals⟩ := ih
      (fun x hx => hdecodes x (List.mem_cons_of_mem v hx))
      (fun x hx => hsize x (List.mem_cons_of_mem v hx)) (done ++ itemBytes M v)
    have hpos : (done ++ itemBytes M v).length = done.length + 4 + (M.bytes v).length := by
      simp [itemBytes, Nat.add_assoc]
    refine ⟨p :: packets, ?_, ?_, by rw [List.map_cons, hval, hvals]⟩
    · rw [List.length_cons, decompileFrom, hread, ok_bind, ofBytes_toBytes_of_lt hv]
      simp only [hrange, hp, ok_bind]
      rw [hnext, ← hpos, hpackets]
      rfl
    · exact List.forall_mem_cons.mpr ⟨hsound, hall⟩

/-- An item is no longer than the items. -/
theorem length_bytes_le (hv : v ∈ vs) : (M.bytes v).length ≤ (vs.flatMap (itemBytes M)).length := by
  obtain ⟨first, rest, rfl⟩ := List.append_of_mem hv
  simp only [List.flatMap_append, List.flatMap_cons, List.length_append, itemBytes]
  omega

/-- There are no more items than bytes of them. -/
theorem length_le_items (vs : List V) : vs.length ≤ (vs.flatMap (itemBytes M)).length := by
  induction vs with
  | nil => exact Nat.zero_le _
  | cons v vs ih =>
    rw [List.flatMap_cons, List.length_append, List.length_cons, itemBytes, List.length_append,
      length_toBytes]
    omega

/-- An array made from the bytes of an array has its content. -/
theorem ofBuffer_spec (hdecodes : ∀ v ∈ vs, M.Decodes v)
    (hsize : (arrayBytes M vs).length < 2 ^ 32) (before after : List UInt8) :
    (ofBuffer (.within before (arrayBytes M vs) after)).Sound M ∧
      content M (ofBuffer (.within before (arrayBytes M vs) after)) = vs := by
  rw [arrayBytes, List.length_append, length_toBytes] at hsize
  have hcount : vs.length < 256 ^ 4 := by
    have hle := length_le_items (M := M) vs
    omega
  obtain ⟨packets, hpackets, hsound, hvals⟩ := decompileFrom_items hdecodes
    (fun v hv => by
      have hle := length_bytes_le (M := M) hv
      omega) before (toBytes 4 vs.length) after
  have hreceived : (ofBuffer (.within before (arrayBytes M vs) after)).received C = .ok packets := by
    have hread := SharedBuffer.read_within before (toBytes 4 vs.length) (vs.flatMap (itemBytes M)) after
      (length_toBytes 4 _)
    rw [length_toBytes] at hpackets
    rw [received, ofBuffer, if_pos rfl, arrayBytes, hread, ok_bind, ofBytes_toBytes_of_lt hcount,
      hpackets]
  exact ⟨⟨packets, hreceived, hsound⟩, (content_eq hreceived).trans hvals⟩

/-- Arrays of values that can be decoded can be decoded. -/
theorem decodes_array (hdecodes : ∀ v ∈ vs, M.Decodes v)
    (hsize : (arrayBytes M vs).length < 2 ^ 32) : M.array.Decodes vs := fun before after =>
  ⟨_, rfl, ofBuffer_spec hdecodes hsize before after⟩

end ArrayPacket

/-- The packet compiles to the bytes of its value, and `createChild` makes the value from them. -/
structure Meaning.RoundTrips {P Call V : Type} {C : PacketClass P Call} (M : Meaning C V) (p : P) :
    Prop where
  sound : M.Sound p
  ready : M.Ready p
  decodes : M.Decodes (M.val p)

section Runs

variable {P Call V : Type} {C : PacketClass P Call} {M : Meaning C V} {children : List P}

open ArrayPacket

/-- An array that was built compiles to the bytes of its children's values. -/
theorem Meaning.RoundTrips.ofPackets (hchildren : ∀ p ∈ children, M.RoundTrips p) :
    (ArrayPacket.ofPackets children).Sound M ∧ (ArrayPacket.ofPackets children).Ready M ∧
      content M (ArrayPacket.ofPackets children) = children.map M.val :=
  ⟨⟨[], rfl, fun p hp => (hchildren p (by rwa [List.append_nil] at hp)).sound⟩,
    ⟨rfl, fun p hp => (hchildren p hp).ready⟩, content_of_not_compiled rfl⟩

/-- So it may itself be the child of an array. -/
theorem Meaning.RoundTrips.array (hchildren : ∀ p ∈ children, M.RoundTrips p)
    (hsize : ((ArrayPacket.ofPackets children).compile C).length < 2 ^ 32) :
    M.array.RoundTrips (ArrayPacket.ofPackets children) := by
  obtain ⟨hsound, hready, hcontent⟩ := Meaning.RoundTrips.ofPackets hchildren
  rw [hsound.compile_of_ready hready, hcontent] at hsize
  refine ⟨hsound, hready, ?_⟩
  rw [show M.array.val (ArrayPacket.ofPackets children) = children.map M.val from hcontent]
  refine decodes_array (fun v hv => ?_) hsize
  obtain ⟨p, hp, rfl⟩ := List.mem_map.mp hv
  exact (hchildren p hp).decodes

/-- What is done with a received array: `begin` is the loop up to `end`. -/
inductive ArrayOp (M : Meaning C V)
  | begin
  | size
  | compiledSize
  | compile
  | append (packet : P) (sound : M.Sound packet)
  | child (i : ℕ) (call : Call) (admissible : M.Admissible call)

namespace ArrayOp

/-- The call that changes the array, if there is one. -/
def call : ArrayOp M → Option (ArrayCall P Call)
  | begin => some .begin
  | size => some .begin
  | compiledSize => none
  | compile => none
  | append packet _ => some (.append packet)
  | child i c _ => some (.child i c)

end ArrayOp

/-- A received array, and the values its children are to have by now. -/
structure ReceivedArray (P V : Type) where
  array : ArrayPacket P
  vals : List V

/-- One operation after the other on a received array. -/
def arrayMachine (M : Meaning C V) : Machine (ReceivedArray P V) (ArrayOp M) where
  initial s := ∃ before after, s.array = .ofBuffer (.within before (arrayBytes M s.vals) after)
  step s op :=
    match op.call with
    | none => some s
    | some c =>
      match s.array.call C c with
      | .ok a => some ⟨a, c.effect M s.vals⟩
      | .error _ => none

namespace ReceivedArray

/-- What an operation has to show. -/
def Shows (s : ReceivedArray P V) : ArrayOp M → Prop
  | .begin => ∃ a, s.array.decompile C = .ok a ∧ a.packets.map M.val = s.vals
  | .size => ∃ a, s.array.decompile C = .ok a ∧ a.packets.length = s.vals.length
  | .compiledSize => s.array.compiledSize C = (arrayBytes M s.vals).length
  | .compile => s.array.compile C = arrayBytes M s.vals
  | .append packet _ => content M (s.array.append packet) = s.vals ++ [M.val packet]
  | .child i c _ => ∃ a, s.array.call C (.child i c) = .ok a ∧
      content M a = s.vals.modify i (M.effect c)

/-- An array is compiled when nothing is left in a buffer, and appended to when that makes no
difference. -/
def Proper (s : ReceivedArray P V) : ArrayOp M → Prop
  | .begin => True
  | .size => True
  | .compiledSize => s.array.Ready M
  | .compile => s.array.Ready M
  | .append packet _ => (ArrayCall.append packet).Proper M s.array
  | .child i c _ => (ArrayCall.child i c).Proper M s.array

/-- The array can be decompiled, and has the values it is to have. -/
def Holds (M : Meaning C V) (s : ReceivedArray P V) : Prop :=
  s.array.Sound M ∧ content M s.array = s.vals

/-- An operation shows what it has to show exactly if it is proper. -/
theorem Holds.shows_iff {s : ReceivedArray P V} (hs : s.Holds M) (op : ArrayOp M) :
    s.Shows op ↔ s.Proper op := by
  obtain ⟨hsound, hcontent⟩ := hs
  obtain ⟨packets, hreceived, -⟩ := id hsound
  obtain ⟨b, hb, -, hcompiled, -, hvals⟩ := hsound.decompile hreceived
  rw [content_of_not_compiled hcompiled, hcontent] at hvals
  cases op with
  | begin => exact iff_of_true ⟨b, hb, hvals⟩ trivial
  | size => exact iff_of_true ⟨b, hb, by rw [← hvals, List.length_map]⟩ trivial
  | compiledSize =>
    rw [Shows, Proper, hsound.compiledSize_eq, ← hcontent]
    constructor
    · intro heq
      by_contra hready
      exact absurd heq (hsound.compile_of_not_ready hready).ne
    · intro hready
      rw [hsound.compile_of_ready hready]
  | compile =>
    rw [Shows, Proper, ← hcontent]
    constructor
    · intro heq
      by_contra hready
      exact absurd (congrArg List.length heq) (hsound.compile_of_not_ready hready).ne
    · exact hsound.compile_of_ready
  | append packet hpacket =>
    rw [Shows, Proper, ← hcontent]
    exact (hsound.append hpacket).2
  | child i c hc =>
    obtain ⟨a, ha, -, hiff⟩ := hsound.child hc i
    rw [Proper, ← hiff, Shows, ha, ← hcontent]
    simp

/-- A proper operation keeps this. -/
theorem Holds.step {s t : ReceivedArray P V} (hs : s.Holds M) {op : ArrayOp M} (hok : s.Proper op)
    (h : (arrayMachine M).step s op = some t) : t.Holds M := by
  obtain ⟨hsound, hcontent⟩ := hs
  simp only [arrayMachine] at h
  cases hcall : op.call with
  | none =>
    simp only [hcall, Option.some.injEq] at h
    exact h ▸ ⟨hsound, hcontent⟩
  | some c =>
    have hc : c.Admissible M ∧ c.Proper M s.array := by
      cases op with
      | begin | size =>
        cases hcall
        exact ⟨trivial, trivial⟩
      | compiledSize | compile => cases hcall
      | append packet hpacket =>
        cases hcall
        exact ⟨hpacket, hok⟩
      | child i call hadmissible =>
        cases hcall
        exact ⟨hadmissible, hok⟩
    obtain ⟨a, ha, hsound', hiff⟩ := M.array.exists_call c s.array hc.1 hsound
    have ha' : s.array.call C c = .ok a := ha
    simp only [hcall, ha', Option.some.injEq] at h
    subst h
    exact ⟨hsound', (hiff.mpr hc.2).trans (congrArg (c.effect M) hcontent)⟩

end ReceivedArray

/-- For children that are decoded from what they compile to: an array announces what it writes, and
what is made from its bytes shows the children in order, reproduces the bytes and appends behind the
received children, exactly while it is not compiled before all of it is made from its buffers, and not
appended to before its children are, unless these are the same as the new one. -/
theorem received_array_iff (hchildren : ∀ p ∈ children, M.RoundTrips p)
    (hsize : ((ofPackets children).compile C).length < 2 ^ 32) (before after : List UInt8)
    (ops : List (ArrayOp M)) :
    (ofPackets children).compiledSize C = ((ofPackets children).compile C).length ∧
      ((arrayMachine M).Along ReceivedArray.Shows
          ⟨.ofBuffer (.within before ((ofPackets children).compile C) after), children.map M.val⟩ ops ↔
        (arrayMachine M).Along ReceivedArray.Proper
          ⟨.ofBuffer (.within before ((ofPackets children).compile C) after), children.map M.val⟩ ops) := by
  obtain ⟨hsound, hready, hcontent⟩ := Meaning.RoundTrips.ofPackets hchildren
  refine ⟨hsound.compiledSize_eq, ?_⟩
  refine Machine.along_iff_along (I := ReceivedArray.Holds M) (fun s op hs => hs.shows_iff op)
    (fun s op t hs hok h => hs.step hok h) ?_ ops
  rw [hsound.compile_of_ready hready, hcontent] at hsize ⊢
  refine ofBuffer_spec (fun v hv => ?_) hsize before after
  obtain ⟨p, hp, rfl⟩ := List.mem_map.mp hv
  exact (hchildren p hp).decodes

end Runs

/-- A `StringPacket` from a buffer. -/
def createStringPacket (buffer : SharedBuffer) : Except Fault (Option PacketBase) := do
  return some (.stringPacket (← buffer.readString))

/-- A string is read back. -/
theorem roundTrips_stringPacket {string : Str} (h : 0 ∉ string) :
    (Meaning.plain createStringPacket).RoundTrips (.stringPacket string) := by
  have hcompile : (PacketBase.stringPacket string).compile = string ++ 0 :: [] := by
    rw [PacketBase.compile, cString_eq_self h]
  have hsound : (PacketBase.stringPacket string).compiledSize =
      (PacketBase.stringPacket string).compile.length := by
    rw [hcompile, PacketBase.compiledSize, List.length_append, List.length_singleton]
  refine ⟨hsound, trivial, fun before after => ⟨.stringPacket string, ?_, hsound, rfl⟩⟩
  have hval : (Meaning.plain createStringPacket).bytes
      ((Meaning.plain createStringPacket).val (.stringPacket string)) = string ++ 0 :: [] := hcompile
  rw [hval]
  have hread := SharedBuffer.readString_within before [] after h
  simp only [PacketClass.plain, createStringPacket, hread]
  rfl

/-- Two strings. -/
def twoStrings : List PacketBase := [.stringPacket [0x61], .stringPacket []]

/-- An array of them and an empty array. -/
def twoArrays : List (ArrayPacket PacketBase) := [.ofPackets twoStrings, .ofPackets []]

/-- The array and the arrays in it are looked at before the array is compiled again, and one more is
appended. -/
theorem received_array_iff_twoArrays :
    (arrayMachine (Meaning.plain createStringPacket).array).Along ReceivedArray.Shows
      ⟨.ofBuffer (.within [] ((ArrayPacket.ofPackets twoArrays).compile
          (PacketClass.plain createStringPacket).array) []),
        twoArrays.map (Meaning.plain createStringPacket).array.val⟩
      [.size, .child 0 .begin trivial, .child 1 .begin trivial, .compile,
        .append (.ofPackets []) ⟨[], rfl, fun _ hp => absurd hp List.not_mem_nil⟩, .begin] := by
  have hstrings : ∀ p ∈ twoStrings, (Meaning.plain createStringPacket).RoundTrips p :=
    List.forall_mem_cons.mpr ⟨roundTrips_stringPacket (by decide), List.forall_mem_singleton.mpr
      (roundTrips_stringPacket (by decide))⟩
  have harrays : ∀ p ∈ twoArrays, (Meaning.plain createStringPacket).array.RoundTrips p :=
    List.forall_mem_cons.mpr ⟨.array hstrings (by decide), List.forall_mem_singleton.mpr
      (.array (fun _ hp => absurd hp List.not_mem_nil) (by decide))⟩
  refine (received_array_iff harrays (by decide) [] [] _).2.mpr ?_
  refine ⟨trivial, fun _ _ _ _ => trivial, fun _ _ _ _ => trivial, ⟨rfl, ?_⟩,
    fun packets hreceived p hp => ?_, trivial, trivial⟩
  · exact List.forall_mem_cons.mpr ⟨⟨rfl, fun _ _ => trivial⟩,
      List.forall_mem_singleton.mpr ⟨rfl, fun _ _ => trivial⟩⟩
  · obtain rfl : [] = packets := Except.ok.inj hreceived
    exact absurd hp (List.not_mem_nil)

/-- The array of the two strings as it is received. -/
def receivedStrings : ReceivedArray PacketBase (List UInt8) where
  array := .ofBuffer (.within [] ((ArrayPacket.ofPackets twoStrings).compile
    (.plain createStringPacket)) [])
  vals := twoStrings.map PacketBase.compile

/-- An array that is compiled before its children are looked at loses them, and a packet that is
appended before them comes first. -/
theorem receivedStrings_not_reproduced :
    ¬ (arrayMachine (.plain createStringPacket)).Along ReceivedArray.Shows receivedStrings
        [.compile] ∧
      ¬ (arrayMachine (.plain createStringPacket)).Along ReceivedArray.Shows receivedStrings
        [.append (.stringPacket [0x62]) rfl] := by
  have hlost : ¬ receivedStrings.array.compile (.plain createStringPacket) =
      ArrayPacket.arrayBytes (.plain createStringPacket) receivedStrings.vals := by decide
  have hmisplaced : ¬ ArrayPacket.content (.plain createStringPacket)
      (receivedStrings.array.append (.stringPacket [0x62])) =
        receivedStrings.vals ++ [(PacketBase.stringPacket [0x62]).compile] := by decide
  exact ⟨fun h => hlost h.1, fun h => hmisplaced h.1⟩

end Multicrew.Core
