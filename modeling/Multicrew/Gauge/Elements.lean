import Multicrew.Core.ChannelProtocol

/-!
# Gauge elements

An element mirrors one drawing element of a panel. On the host its update callback compares what
the simulator's own callback reports with the state sent last and sends a difference; on a client
the callback shows the state received last. `attach` puts the element onto the header of a panel
that is opened, `detach` takes it off again.

The simulator owns the headers: what it has written into one, and what its own callbacks answer,
are arguments here.
-/

namespace Multicrew.Gauge

open Multicrew.Core (Mode Str)

/-- An IEEE 754 double, by its bits. -/
structure FLOAT64 where
  bits : BitVec 64
  deriving DecidableEq, Repr

namespace FLOAT64

/-- All but the sign. -/
def magnitude (x : FLOAT64) : BitVec 64 := x.bits &&& 0x7FFFFFFFFFFFFFFF#64

/-- Maximal exponent and a nonzero mantissa. -/
def isNaN (x : FLOAT64) : Bool := 0x7FF0000000000000#64 < x.magnitude

/-- The `==` of two doubles: never for a NaN, and the two zeros are equal. -/
def eq (x y : FLOAT64) : Bool :=
  !x.isNaN && !y.isNaN && (x.bits == y.bits || (x.magnitude == 0#64 && y.magnitude == 0#64))

/-- `0.0` -/
def zero : FLOAT64 := ⟨0#64⟩

/-- A double equals itself unless it is a NaN. -/
theorem eq_self (x : FLOAT64) : x.eq x = !x.isNaN := by
  simp [eq]

/-- `==` is symmetric. -/
theorem eq_symm {x y : FLOAT64} (h : x.eq y) : y.eq x := by
  simp only [eq, Bool.and_eq_true, Bool.or_eq_true, beq_iff_eq] at h ⊢
  obtain ⟨⟨hx, hy⟩, hbits | ⟨hx0, hy0⟩⟩ := h
  · exact ⟨⟨hy, hx⟩, .inl hbits.symm⟩
  · exact ⟨⟨hy, hx⟩, .inr ⟨hy0, hx0⟩⟩

/-- `==` is transitive. -/
theorem eq_trans {x y z : FLOAT64} (hxy : x.eq y) (hyz : y.eq z) : x.eq z := by
  simp only [eq, Bool.and_eq_true, Bool.or_eq_true, beq_iff_eq] at hxy hyz ⊢
  obtain ⟨⟨hx, -⟩, hxy⟩ := hxy
  obtain ⟨⟨-, hz⟩, hyz⟩ := hyz
  refine ⟨⟨hx, hz⟩, ?_⟩
  cases hxy with
  | inl hbits => cases hyz with
    | inl hbits' => exact .inl (hbits.trans hbits')
    | inr hzero => exact .inr ⟨by simpa only [magnitude, hbits] using hzero.1, hzero.2⟩
  | inr hzero => cases hyz with
    | inl hbits' => exact .inr ⟨hzero.1, by simpa only [magnitude, hbits'] using hzero.2⟩
    | inr hzero' => exact .inr ⟨hzero.1, hzero'.2⟩

end FLOAT64

/-- A header's `image_flags`. -/
abbrev FLAGS := BitVec 32

/-- `IMAGE_USE_TRANSPARENCY` -/
def IMAGE_USE_TRANSPARENCY : FLAGS := 0x00000001#32

/-- `IMAGE_HIDDEN` -/
def IMAGE_HIDDEN : FLAGS := 0x40000000#32

/-- `IMAGE_ON_SCREEN` -/
def IMAGE_ON_SCREEN : FLAGS := 0x80000000#32

/-- `ICON_FLAGS_MASK` -/
def ICON_FLAGS_MASK : FLAGS := ~~~(IMAGE_ON_SCREEN ||| IMAGE_HIDDEN)

/-- `STATIC_FLAGS_MASK` -/
def STATIC_FLAGS_MASK : FLAGS := ~~~(IMAGE_HIDDEN ||| IMAGE_ON_SCREEN)

/-- `SET_OFF_SCREEN` -/
def setOffScreen (flags : FLAGS) : FLAGS := flags &&& ~~~IMAGE_ON_SCREEN

/-- An update callback a header points to. -/
inductive UpdateCallback
  | simulator
  | adapter
  deriving DecidableEq, Repr

/-- What the simulator's own update callback does in one call: the value it returns and the flags
it leaves, from the flags it finds. -/
abbrev OrigCallback := FLAGS → FLOAT64 × FLAGS

/-- `ELEMENT_ICON`; `source_var` is its value if the variable has an id. -/
structure IconHeader where
  imageFlags : FLAGS
  updateCb : Option UpdateCallback := some .simulator
  sourceVar : Option FLOAT64 := none
  deriving DecidableEq, Repr

/-- `IconStruct` -/
structure IconStruct where
  value : FLOAT64
  flags : FLAGS
  deriving DecidableEq, Repr

/-- `IconElement::Data`. Until the first `attach` the flags are whatever the memory held. -/
structure IconElement where
  iconHeader : Option IconHeader := none
  origCallback : Option UpdateCallback := none
  oldValue : FLOAT64 := .zero
  oldFlags : FLAGS
  changed : Bool := false
  deriving DecidableEq, Repr

/-- What one update callback of an icon yields: the element, the value given to the simulator, the
packets sent, and whether the gauge's statics are to be redrawn. -/
structure IconUpdate where
  element : IconElement
  ret : FLOAT64
  sent : List IconStruct := []
  redrawStatics : Bool := false
  deriving DecidableEq, Repr

namespace IconElement

variable (d : IconElement)

/-- `IconElement::attach` -/
def attach (elementHeader : IconHeader) : IconElement :=
  { d with
    iconHeader := some { elementHeader with updateCb := some .adapter }
    origCallback := elementHeader.updateCb
    oldFlags := elementHeader.imageFlags &&& ICON_FLAGS_MASK }

/-- The element, and the header as the simulator gets it back. -/
def detach : IconElement × Option IconHeader :=
  ({ d with iconHeader := none, origCallback := none },
    d.iconHeader.map fun header => { header with updateCb := d.origCallback })

/-- `IconElement::receive` -/
def receive (mode : Mode) (packet : IconStruct) : IconElement :=
  match mode with
  | .idle => d
  | .host => d
  | .client =>
    { d with
      oldValue := packet.value
      oldFlags := packet.flags &&& ICON_FLAGS_MASK
      changed := true }

/-- `IconElement::sendState` -/
def sendState (mode : Mode) : List IconStruct :=
  match mode with
  | .idle => []
  | .host => [⟨d.oldValue, d.oldFlags⟩]
  | .client => []

/-- `IconElement::sendFullState` -/
def sendFullState (mode : Mode) : List IconStruct := d.sendState mode

/-- The value and the flags the simulator reports: by its own callback, else by the variable. -/
def read (pelement : IconHeader) (orig : OrigCallback) : FLOAT64 × FLAGS :=
  match d.origCallback with
  | some _ => orig pelement.imageFlags
  | none => (pelement.sourceVar.getD .zero, pelement.imageFlags)

/-- The client's flags as they stand before the simulator's callback runs. -/
def apply (imageFlags : FLAGS) : FLAGS := (imageFlags &&& ~~~ICON_FLAGS_MASK) ||| d.oldFlags

/-- One call through the adapter: `pelement` is the header as the simulator has left it. -/
def callback (mode : Mode) (pelement : IconHeader) (orig : OrigCallback) : IconUpdate :=
  match mode with
  | .idle =>
    let (ret, flags) := d.read pelement orig
    { element := { d with iconHeader := some { pelement with imageFlags := flags } }, ret := ret }
  | .host =>
    let (ret, flags) := d.read pelement orig
    let d := { d with iconHeader := some { pelement with imageFlags := flags } }
    if !ret.eq d.oldValue || flags &&& ICON_FLAGS_MASK != d.oldFlags then
      let d := { d with oldValue := ret, oldFlags := flags &&& ICON_FLAGS_MASK }
      { element := d, ret := ret, sent := d.sendState mode }
    else { element := d, ret := ret }
  | .client =>
    let flags := d.apply pelement.imageFlags
    let flags := if d.origCallback.isSome then (orig flags).2 else flags
    if d.changed then
      { element :=
          { d with
            changed := false
            iconHeader := some { pelement with imageFlags := setOffScreen flags } }
        ret := d.oldValue
        redrawStatics := flags &&& IMAGE_USE_TRANSPARENCY != 0 }
    else
      { element := { d with iconHeader := some { pelement with imageFlags := flags } }
        ret := d.oldValue }

/-- A callback sends at most one packet. -/
theorem callback_sent (mode : Mode) (pelement : IconHeader) (orig : OrigCallback) :
    (d.callback mode pelement orig).sent.length ≤ 1 := by
  cases mode with
  | idle => exact Nat.zero_le 1
  | host =>
    simp only [callback]
    split
    · exact Nat.le_refl 1
    · exact Nat.zero_le 1
  | client =>
    simp only [callback]
    split <;> exact Nat.zero_le 1

end IconElement

/-- `StaticStruct` -/
structure StaticStruct where
  flags : FLAGS
  deriving DecidableEq, Repr

/-- `ELEMENT_STATIC_IMAGE` -/
structure StaticHeader where
  imageFlags : FLAGS
  deriving DecidableEq, Repr

/-- `StaticElement::Data`. Until the first `attach` the flags are whatever the memory held. -/
structure StaticElement where
  staticHeader : Option StaticHeader := none
  oldFlags : FLAGS
  watchFlags : Bool
  deriving DecidableEq, Repr

namespace StaticElement

variable (d : StaticElement)

/-- `StaticElement::attach` -/
def attach (elementHeader : StaticHeader) : StaticElement :=
  { d with
    staticHeader := some elementHeader
    oldFlags := elementHeader.imageFlags &&& STATIC_FLAGS_MASK }

/-- `StaticElement::detach` -/
def detach : StaticElement := { d with staticHeader := none }

/-- `StaticElement::receive` -/
def receive (mode : Mode) (packet : StaticStruct) : StaticElement :=
  match mode with
  | .idle => d
  | .host => d
  | .client => { d with oldFlags := packet.flags &&& STATIC_FLAGS_MASK }

/-- `StaticElement::sendState` -/
def sendState (mode : Mode) : List StaticStruct :=
  match mode with
  | .idle => []
  | .host => [⟨d.oldFlags⟩]
  | .client => []

/-- `StaticElement::sendFullState` -/
def sendFullState (mode : Mode) : List StaticStruct := d.sendState mode

/-- The element with the flags the simulator has written into its header. -/
def drawn (imageFlags : FLAGS) : StaticElement :=
  { d with staticHeader := d.staticHeader.map fun _ => ⟨imageFlags⟩ }

/-- Taking the static off the screen on a client; none is the access to a header that is not
there. -/
def redraw (mode : Mode) : Option StaticElement :=
  match mode with
  | .idle => some d
  | .host => some d
  | .client =>
    d.staticHeader.map fun header =>
      { d with staticHeader := some ⟨setOffScreen header.imageFlags⟩ }

/-- The client's flags after a callback. -/
def apply (imageFlags : FLAGS) : FLAGS := (imageFlags &&& ~~~STATIC_FLAGS_MASK) ||| d.oldFlags

/-- The element and the packets sent. -/
def callback (mode : Mode) : StaticElement × List StaticStruct :=
  match d.staticHeader with
  | none => (d, [])
  | some header =>
    if !d.watchFlags then (d, [])
    else
      match mode with
      | .idle => (d, [])
      | .host =>
        if header.imageFlags &&& STATIC_FLAGS_MASK != d.oldFlags then
          let d := { d with oldFlags := header.imageFlags &&& STATIC_FLAGS_MASK }
          (d, d.sendState mode)
        else (d, [])
      | .client => ({ d with staticHeader := some ⟨d.apply header.imageFlags⟩ }, [])

/-- A callback sends at most one packet. -/
theorem callback_sent (mode : Mode) : (d.callback mode).2.length ≤ 1 := by
  unfold callback
  split
  · exact Nat.zero_le 1
  · split
    · exact Nat.zero_le 1
    · cases mode with
      | idle => exact Nat.zero_le 1
      | host =>
        simp only
        split
        · exact Nat.le_refl 1
        · exact Nat.zero_le 1
      | client => exact Nat.zero_le 1

end StaticElement

/-- `ELEMENT_NEEDLE` -/
structure NeedleHeader where
  imageFlags : FLAGS
  updateCb : Option UpdateCallback := some .simulator
  deriving DecidableEq, Repr

/-- `NeedleStruct` -/
structure NeedleStruct where
  value : FLOAT64
  deriving DecidableEq, Repr

/-- `NeedleElement::Data` -/
structure NeedleElement where
  needleHeader : Option NeedleHeader := none
  origCallback : Option UpdateCallback := none
  oldValue : FLOAT64 := .zero
  changed : Bool := false
  deriving DecidableEq, Repr

/-- What one update callback of a needle yields. -/
structure NeedleUpdate where
  element : NeedleElement
  ret : FLOAT64
  sent : List NeedleStruct := []
  redrawStatics : Bool := false
  deriving DecidableEq, Repr

namespace NeedleElement

variable (d : NeedleElement)

/-- The adapter is installed only over a callback of the simulator. -/
def attach (elementHeader : NeedleHeader) : NeedleElement :=
  { d with
    needleHeader := some { elementHeader with
      updateCb := elementHeader.updateCb.map fun _ => .adapter }
    origCallback := elementHeader.updateCb }

/-- The element, and the header as the simulator gets it back. -/
def detach : NeedleElement × Option NeedleHeader :=
  ({ d with needleHeader := none },
    d.needleHeader.map fun header => { header with updateCb := d.origCallback })

/-- `NeedleElement::receive` -/
def receive (mode : Mode) (packet : NeedleStruct) : NeedleElement :=
  match mode with
  | .idle => d
  | .host => d
  | .client => { d with oldValue := packet.value, changed := true }

/-- `NeedleElement::sendState` -/
def sendState (mode : Mode) : List NeedleStruct :=
  match mode with
  | .idle => []
  | .host => [⟨d.oldValue⟩]
  | .client => []

/-- `NeedleElement::sendFullState` -/
def sendFullState (mode : Mode) : List NeedleStruct := d.sendState mode

/-- One call through the adapter: `pelement` is the header as the simulator has left it. -/
def callback (mode : Mode) (pelement : NeedleHeader) (orig : OrigCallback) : NeedleUpdate :=
  let (ret, flags) := orig pelement.imageFlags
  match mode with
  | .idle =>
    { element := { d with needleHeader := some { pelement with imageFlags := flags } }, ret := ret }
  | .host =>
    let d := { d with needleHeader := some { pelement with imageFlags := flags } }
    if !ret.eq d.oldValue then
      let d := { d with oldValue := ret }
      { element := d, ret := ret, sent := d.sendState mode }
    else { element := d, ret := ret }
  | .client =>
    if d.changed then
      { element :=
          { d with
            changed := false
            needleHeader := some { pelement with imageFlags := setOffScreen flags } }
        ret := d.oldValue
        redrawStatics := flags &&& IMAGE_USE_TRANSPARENCY != 0 }
    else
      { element := { d with needleHeader := some { pelement with imageFlags := flags } }
        ret := d.oldValue }

/-- A callback sends at most one packet. -/
theorem callback_sent (mode : Mode) (pelement : NeedleHeader) (orig : OrigCallback) :
    (d.callback mode pelement orig).sent.length ≤ 1 := by
  cases mode with
  | idle => exact Nat.zero_le 1
  | host =>
    simp only [callback]
    split
    · exact Nat.le_refl 1
    · exact Nat.zero_le 1
  | client =>
    simp only [callback]
    split <;> exact Nat.zero_le 1

end NeedleElement

/-- `BUFFER_SIZE` -/
def bufferSize : ℕ := 256

/-- The C string a buffer of `bufferSize` characters and a final NUL holds after a `strncpy`. -/
def strncpy (source : Str) : Str := (source.takeWhile (· ≠ 0)).take bufferSize

/-- `ELEMENT_STRING`; `string` may be a null pointer. -/
structure StringHeader where
  imageFlags : FLAGS
  updateCb : Option UpdateCallback := some .simulator
  string : Option Str := none
  deriving DecidableEq, Repr

/-- `StringElement::Data`; both buffers hold C strings. -/
structure StringElement where
  stringHeader : Option StringHeader := none
  origCallback : Option UpdateCallback := none
  value : Str := []
  buffer : Str := []
  changed : Bool := false
  deriving DecidableEq, Repr

/-- What one update callback of a string yields. -/
structure StringUpdate where
  element : StringElement
  ret : FLOAT64
  sent : List Str := []
  redrawStatics : Bool := false
  deriving DecidableEq, Repr

namespace StringElement

variable (d : StringElement)

/-- The adapter is installed only over a callback of the simulator. -/
def attach (elementHeader : StringHeader) : StringElement :=
  { d with
    stringHeader := some { elementHeader with
      updateCb := elementHeader.updateCb.map fun _ => .adapter }
    origCallback := elementHeader.updateCb }

/-- The element, which keeps its pointer to the header, and the header as the simulator gets it
back. -/
def detach : StringElement × Option StringHeader :=
  let header := d.stringHeader.map fun header =>
    { header with updateCb := d.origCallback, string := some [] }
  ({ d with stringHeader := header }, header)

/-- `StringElement::receive` -/
def receive (mode : Mode) (packet : Str) : StringElement :=
  match mode with
  | .idle => d
  | .host => d
  | .client => { d with value := strncpy packet, changed := true }

/-- `StringElement::sendState` -/
def sendState (mode : Mode) : List Str :=
  match mode with
  | .idle => []
  | .host => [d.value]
  | .client => []

/-- `StringElement::sendFullState` -/
def sendFullState (mode : Mode) : List Str := d.sendState mode

/-- One call through the adapter; `orig` is what the simulator's own callback makes of the header.
None is a `strcmp` of a null pointer. -/
def callback (mode : Mode) (pelement : StringHeader)
    (orig : StringHeader → FLOAT64 × StringHeader) : Option StringUpdate :=
  let (ret, pelement) := orig pelement
  match mode with
  | .idle => some { element := { d with stringHeader := some pelement }, ret := ret }
  | .host =>
    let d := { d with stringHeader := some pelement }
    match pelement.string with
    | none =>
      if d.value ≠ [] then
        let d := { d with value := [] }
        some { element := d, ret := ret, sent := d.sendState mode }
      else none
    | some string =>
      if string.takeWhile (· ≠ 0) ≠ d.value then
        let d := { d with value := strncpy string }
        some { element := d, ret := ret, sent := d.sendState mode }
      else some { element := d, ret := ret }
  | .client =>
    let pelement := { pelement with string := some d.value }
    let d := { d with buffer := d.value }
    if d.changed then
      some
        { element :=
            { d with
              changed := false
              stringHeader := some { pelement with
                imageFlags := setOffScreen pelement.imageFlags } }
          ret := ret
          redrawStatics := pelement.imageFlags &&& IMAGE_USE_TRANSPARENCY != 0 }
    else some { element := { d with stringHeader := some pelement }, ret := ret }

/-- A callback sends at most one packet. -/
theorem callback_sent {mode : Mode} {pelement : StringHeader}
    {orig : StringHeader → FLOAT64 × StringHeader} {update : StringUpdate}
    (h : d.callback mode pelement orig = some update) : update.sent.length ≤ 1 := by
  cases mode with
  | idle =>
    cases h
    exact Nat.zero_le 1
  | host =>
    simp only [callback] at h
    split at h
    · split at h
      · cases h
        exact Nat.le_refl 1
      · cases h
    · split at h
      · cases h
        exact Nat.le_refl 1
      · cases h
        exact Nat.zero_le 1
  | client =>
    simp only [callback] at h
    split at h <;> cases h <;> exact Nat.zero_le 1

end StringElement

/-! ### Elements of any kind -/

/-- The classes of elements. -/
inductive ElementKind
  | icon
  | needle
  | string
  | static
  deriving DecidableEq, Repr

/-- A packet of an element, as the element with its id on the other side decodes it. -/
inductive ElementPacket
  | icon (s : IconStruct)
  | needle (s : NeedleStruct)
  | string (s : Str)
  | static (s : StaticStruct)
  deriving DecidableEq, Repr

/-- An element of any class. -/
inductive Element
  | icon (d : IconElement)
  | needle (d : NeedleElement)
  | string (d : StringElement)
  | static (d : StaticElement)
  deriving DecidableEq, Repr

/-- The class of the element that sent the packet. -/
def ElementPacket.kind : ElementPacket → ElementKind
  | .icon _ => .icon
  | .needle _ => .needle
  | .string _ => .string
  | .static _ => .static

/-- The header of a panel that an element is attached to. -/
inductive Header
  | icon (elementHeader : IconHeader)
  | needle (elementHeader : NeedleHeader)
  | string (elementHeader : StringHeader)
  | static (elementHeader : StaticHeader)

/-- What the simulator brings to a callback. -/
inductive Reading
  | icon (pelement : IconHeader) (orig : OrigCallback)
  | needle (pelement : NeedleHeader) (orig : OrigCallback)
  | string (pelement : StringHeader) (orig : StringHeader → FLOAT64 × StringHeader)
  | static (imageFlags : FLAGS)

namespace Element

/-- The class of the element. -/
def kind : Element → ElementKind
  | .icon _ => .icon
  | .needle _ => .needle
  | .string _ => .string
  | .static _ => .static

/-- Attaching to a header, which has to be one of the element's kind. -/
def attach : Element → Header → Option Element
  | .icon d, .icon elementHeader => some (.icon (d.attach elementHeader))
  | .needle d, .needle elementHeader => some (.needle (d.attach elementHeader))
  | .string d, .string elementHeader => some (.string (d.attach elementHeader))
  | .static d, .static elementHeader => some (.static (d.attach elementHeader))
  | _, _ => none

/-- Detaching from the header. -/
def detach : Element → Element
  | .icon d => .icon d.detach.1
  | .needle d => .needle d.detach.1
  | .string d => .string d.detach.1
  | .static d => .static d.detach

/-- Receiving a packet; elements with one id are of one kind. -/
def receive (mode : Mode) : Element → ElementPacket → Element
  | .icon d, .icon s => .icon (d.receive mode s)
  | .needle d, .needle s => .needle (d.receive mode s)
  | .string d, .string s => .string (d.receive mode s)
  | .static d, .static s => .static (d.receive mode s)
  | d, _ => d

/-- The packets of a full state. -/
def sendFullState (mode : Mode) : Element → List ElementPacket
  | .icon d => (d.sendFullState mode).map .icon
  | .needle d => (d.sendFullState mode).map .needle
  | .string d => (d.sendFullState mode).map .string
  | .static d => (d.sendFullState mode).map .static

/-- A callback of the simulator: the element and what it sends, none if it is of another kind or
accesses a null pointer. -/
def callback (mode : Mode) : Element → Reading → Option (Element × List ElementPacket)
  | .icon d, .icon pelement orig =>
    let update := d.callback mode pelement orig
    some (.icon update.element, update.sent.map .icon)
  | .needle d, .needle pelement orig =>
    let update := d.callback mode pelement orig
    some (.needle update.element, update.sent.map .needle)
  | .string d, .string pelement orig =>
    (d.callback mode pelement orig).map fun update =>
      (.string update.element, update.sent.map .string)
  | .static d, .static imageFlags =>
    let (d, sent) := (d.drawn imageFlags).callback mode
    some (.static d, sent.map .static)
  | _, _ => none

/-- The element has stored the value and the masked flags of a packet. -/
def Holds : Element → ElementPacket → Prop
  | .icon d, .icon s => d.oldValue = s.value ∧ d.oldFlags = s.flags &&& ICON_FLAGS_MASK
  | .needle d, .needle s => d.oldValue = s.value
  | .string d, .string s => d.value = strncpy s
  | .static d, .static s => d.oldFlags = s.flags &&& STATIC_FLAGS_MASK
  | _, _ => False

/-- A packet leaves an element of its class. -/
@[simp] theorem kind_receive (mode : Mode) (el : Element) (packet : ElementPacket) :
    (el.receive mode packet).kind = el.kind := by
  cases el <;> cases packet <;> rfl

/-- On a client an element holds what it has just received. -/
theorem holds_receive {el : Element} {packet : ElementPacket} (h : packet.kind = el.kind) :
    (el.receive .client packet).Holds packet := by
  cases el with
  | icon d => cases packet with
    | icon s => exact ⟨rfl, rfl⟩
    | _ => cases h
  | needle d => cases packet with
    | needle s => exact rfl
    | _ => cases h
  | string d => cases packet with
    | string s => exact rfl
    | _ => cases h
  | static d => cases packet with
    | static s => exact rfl
    | _ => cases h

/-- On the host an element answers for the full state with one packet of its kind. -/
theorem sendFullState_host (el : Element) :
    ∃ packet, el.sendFullState .host = [packet] ∧ packet.kind = el.kind := by
  cases el <;> exact ⟨_, rfl, rfl⟩

/-- Attaching keeps the kind. -/
theorem kind_attach {el el' : Element} {elementHeader : Header}
    (h : el.attach elementHeader = some el') : el'.kind = el.kind := by
  cases el <;> cases elementHeader <;> simp only [attach, Option.some.injEq, reduceCtorEq] at h <;>
    exact h ▸ rfl

/-- So does detaching. -/
@[simp] theorem kind_detach (el : Element) : el.detach.kind = el.kind := by
  cases el <;> rfl

/-- Detaching keeps what was received. -/
@[simp] theorem holds_detach (el : Element) (packet : ElementPacket) :
    el.detach.Holds packet ↔ el.Holds packet := by
  cases el <;> cases packet <;> rfl

/-- At most one packet, sent as a packet of one kind. -/
theorem sends_of_length {β : Type*} {wrap : β → ElementPacket} {kind : ElementKind}
    {sent : List β} (hkind : ∀ packet, (wrap packet).kind = kind) (hsent : sent.length ≤ 1) :
    sent.map wrap = [] ∨ ∃ packet, sent.map wrap = [packet] ∧ packet.kind = kind := by
  match sent with
  | [] => exact .inl rfl
  | [packet] => exact .inr ⟨wrap packet, rfl, hkind packet⟩
  | _ :: _ :: _ => simp at hsent

/-- A callback keeps the kind and sends at most one packet, of that kind. -/
theorem callback_sends {mode : Mode} {el el' : Element} {reading : Reading}
    {sent : List ElementPacket} (h : el.callback mode reading = some (el', sent)) :
    el'.kind = el.kind ∧ (sent = [] ∨ ∃ packet, sent = [packet] ∧ packet.kind = el.kind) := by
  cases el with
  | icon d => cases reading with
    | icon pelement orig =>
      obtain ⟨rfl, rfl⟩ := Prod.mk.inj (Option.some.inj h)
      exact ⟨rfl, sends_of_length (fun _ => rfl) (d.callback_sent mode pelement orig)⟩
    | _ => cases h
  | needle d => cases reading with
    | needle pelement orig =>
      obtain ⟨rfl, rfl⟩ := Prod.mk.inj (Option.some.inj h)
      exact ⟨rfl, sends_of_length (fun _ => rfl) (d.callback_sent mode pelement orig)⟩
    | _ => cases h
  | string d => cases reading with
    | string pelement orig =>
      obtain ⟨update, hupdate, heq⟩ := Option.map_eq_some_iff.mp h
      obtain ⟨rfl, rfl⟩ := Prod.mk.inj heq
      exact ⟨rfl, sends_of_length (fun _ => rfl) (d.callback_sent hupdate)⟩
    | _ => cases h
  | static d => cases reading with
    | static imageFlags =>
      obtain ⟨rfl, rfl⟩ := Prod.mk.inj (Option.some.inj h)
      exact ⟨rfl, sends_of_length (fun _ => rfl) ((d.drawn imageFlags).callback_sent mode)⟩
    | _ => cases h

/-- A client's callback keeps what was received. -/
theorem holds_callback {el el' : Element} {reading : Reading} {sent : List ElementPacket}
    (h : el.callback .client reading = some (el', sent)) (packet : ElementPacket) :
    el'.Holds packet ↔ el.Holds packet := by
  cases el with
  | icon d => cases reading with
    | icon pelement orig =>
      simp only [callback, Option.some.injEq, Prod.mk.injEq] at h
      obtain ⟨rfl, -⟩ := h
      simp only [IconElement.callback]
      split <;> cases packet <;> rfl
    | _ => cases h
  | needle d => cases reading with
    | needle pelement orig =>
      simp only [callback, Option.some.injEq, Prod.mk.injEq] at h
      obtain ⟨rfl, -⟩ := h
      simp only [NeedleElement.callback]
      split <;> cases packet <;> rfl
    | _ => cases h
  | string d => cases reading with
    | string pelement orig =>
      obtain ⟨update, hupdate, heq⟩ := Option.map_eq_some_iff.mp h
      simp only [Prod.mk.injEq] at heq
      obtain ⟨rfl, -⟩ := heq
      simp only [StringElement.callback] at hupdate
      split at hupdate <;> cases hupdate <;> cases packet <;> rfl
    | _ => cases h
  | static d => cases reading with
    | static imageFlags =>
      simp only [callback, Option.some.injEq, Prod.mk.injEq] at h
      obtain ⟨rfl, -⟩ := h
      unfold StaticElement.callback
      split
      · cases packet <;> rfl
      · split <;> cases packet <;> rfl
    | _ => cases h

end Element

end Multicrew.Gauge
