import Multicrew.Gauge.Elements
import Multicrew.Library.Mailbox

/-!
# Mouse events from a client's gauge to the host's

A client's gauge sends a click to its channel. On the host the network thread puts the packet into
the queue of every `Gauge` object registered under the id and asks for an asynchronous callback,
which empties the queues; meanwhile the simulator attaches and detaches the objects, and keeps
detached ones to use them again. Any order of these steps is a run.
-/

namespace Multicrew.Gauge

open Multicrew.Core (Mode)
open Multicrew.Library

/-- `PIXPOINT` -/
structure PixPoint where
  x : Int32
  y : Int32
  deriving DecidableEq, Repr

/-- `MouseStruct` -/
structure MouseStruct where
  mouseRectNum : Int32
  relX : Float32
  relY : Float32
  scrX : Float32
  scrY : Float32
  flags : UInt32
  deriving DecidableEq, Repr

/-- A `PMOUSE_FUNCTION`: null, a function of the gauge itself, or the adapter of a rectangle. -/
inductive MouseFunction
  | null
  | own (f : ℕ)
  | adapter (num : ℕ)
  deriving DecidableEq, Repr

/-- What is used of a `MOUSERECT`. -/
structure MouseRect where
  mouseFunction : MouseFunction
  eventId : UInt32
  deriving DecidableEq, Repr

/-- The rectangles before the first `MOUSE_RECT_EOL` at an address. -/
structure MouseRects where
  address : ℕ
  rects : List MouseRect
  deriving DecidableEq, Repr

/-- What is used of a `GAUGEHDR` for the mouse. -/
structure GaugeHeader where
  size : PixPoint
  mouseRect : Option MouseRects
  deriving DecidableEq, Repr

/-- `MOUSECALLBACK` without the pointers back to the gauge header and the rectangle. -/
structure MouseCallback where
  relativePoint : PixPoint
  screenPoint : PixPoint
  deriving DecidableEq, Repr

/-- What `handleMouseEvents` does for an event: a mouse function called with its arguments, a key
event, or a read beyond the rectangles. -/
inductive MouseCall
  | called (num : ℕ) (cb : MouseFunction) (mc : MouseCallback) (flags : UInt32)
  | keyEvent (num : ℕ) (eventId : UInt32)
  | beyond (num : ℕ)
  deriving DecidableEq, Repr

/-- The rectangle a call is for. -/
def MouseCall.num : MouseCall → ℕ
  | called num _ _ _ => num
  | keyEvent num _ => num
  | beyond num => num

/-- The mouse data of a `Gauge`; packets in the queue are pointers, so numbered. -/
structure GaugeData (ι : Type*) where
  id : ι
  gaugeHeader : Option GaugeHeader := none
  hookMouse : Bool := false
  swallowMouse : Bool := false
  originalMouseCallbacks : List MouseFunction := []
  origMouseRect : Option ℕ := none
  mouseEvents : List (ℕ × MouseStruct) := []
  deriving DecidableEq, Repr

/-- What `Gauge::mouseCallback` does: the function it calls, the event it sends, and its result
where that is not the one of the function. -/
structure MouseResult where
  called : Option MouseFunction := none
  sent : Option MouseStruct := none
  result : Option Bool := some true
  deriving DecidableEq, Repr

namespace GaugeData

variable {ι : Type*} (d : GaugeData ι)

/-- `Gauge::detach` for the mouse, with the header the simulator gets back. -/
def detach : GaugeData ι × Option GaugeHeader :=
  match d.gaugeHeader with
  | none => (d, none)
  | some gaugeHeader =>
    ({ d with gaugeHeader := none, originalMouseCallbacks := [] },
      some { gaugeHeader with
        mouseRect := gaugeHeader.mouseRect.map fun array =>
          if d.origMouseRect = some array.address && d.hookMouse then
            { array with
              rects := array.rects.mapIdx fun num rect =>
                { rect with mouseFunction := d.originalMouseCallbacks.getD num .null } }
          else array })

/-- `Gauge::attach` for the mouse. -/
def attach (gaugeHeader : GaugeHeader) (swallowMouse hookMouse : Bool) : GaugeData ι :=
  let d := d.detach.1
  let d := { d with
    gaugeHeader := some gaugeHeader
    swallowMouse := swallowMouse
    hookMouse := hookMouse
    origMouseRect := gaugeHeader.mouseRect.map (·.address) }
  match gaugeHeader.mouseRect with
  | none => d
  | some array =>
    if hookMouse then
      { d with
        originalMouseCallbacks := d.originalMouseCallbacks ++ array.rects.map (·.mouseFunction)
        gaugeHeader := some { gaugeHeader with
          mouseRect := some { array with
            rects := array.rects.mapIdx fun num rect =>
              { rect with mouseFunction := .adapter num } } } }
    else d

/-- `Gauge::receive` without the trigger. -/
def receive (packet : ℕ) (ms : MouseStruct) : GaugeData ι :=
  { d with mouseEvents := d.mouseEvents ++ [(packet, ms)] }

/-- `(int)(rel * size)` in both directions. -/
def scale (x y : Float32) (size : PixPoint) : PixPoint where
  x := (x * size.x.toFloat32).toInt32
  y := (y * size.y.toFloat32).toInt32

/-- What `handleMouseEvents` does for one event of an attached gauge. -/
def mouseEvent (gaugeHeader : GaugeHeader) (ms : MouseStruct) : List MouseCall :=
  let num := ms.mouseRectNum.toInt
  if 0 ≤ num ∧ num < d.originalMouseCallbacks.length then
    let cb := d.originalMouseCallbacks.getD num.toNat .null
    (if cb = .null then []
      else [.called num.toNat cb
        { relativePoint := scale ms.relX ms.relY gaugeHeader.size
          screenPoint := scale ms.scrX ms.scrY gaugeHeader.size } ms.flags]) ++
      match gaugeHeader.mouseRect.bind (·.rects[num.toNat]?) with
      | none => [.beyond num.toNat]
      | some rect => if rect.eventId = 0 then [] else [.keyEvent num.toNat rect.eventId]
  else []

/-- `Gauge::handleMouseEvents`, with the packet of each call; a detached gauge has no callbacks. -/
def handleMouseEvents (mode : Mode) : GaugeData ι × List (ℕ × MouseCall) :=
  ({ d with mouseEvents := [] },
    match mode, d.gaugeHeader with
    | .host, some gaugeHeader =>
      d.mouseEvents.flatMap fun event => (d.mouseEvent gaugeHeader event.2).map (event.1, ·)
    | _, _ => [])

/-- `Gauge::mouseCallback` of an attached gauge. -/
def mouseCallback (mode : Mode) (gaugeHeader : GaugeHeader) (mouseRectNum : Int32)
    (mc : MouseCallback) (flags : UInt32) : MouseResult :=
  let num := mouseRectNum.toInt
  let cb := d.originalMouseCallbacks.getD num.toNat .null
  let known := 0 ≤ num ∧ num < d.originalMouseCallbacks.length ∧ cb ≠ .null
  match mode with
  | .idle => if known then { called := some cb, result := none } else {}
  | .host => if !d.swallowMouse ∧ known then { called := some cb } else {}
  | .client =>
    if d.swallowMouse then { result := some false }
    else
      { sent := some
          { mouseRectNum := mouseRectNum
            relX := mc.relativePoint.x.toFloat32 * 1 / gaugeHeader.size.x.toFloat32
            relY := mc.relativePoint.y.toFloat32 * 1 / gaugeHeader.size.y.toFloat32
            scrX := mc.screenPoint.x.toFloat32 * 1 / gaugeHeader.size.x.toFloat32
            scrY := mc.screenPoint.y.toFloat32 * 1 / gaugeHeader.size.y.toFloat32
            flags := flags }
        result := some false }

end GaugeData

/-- What a rectangle of a header answers to an event, if the mouse is hooked: one call of its function
and its key event, of those it has. -/
def GaugeHeader.answer (gaugeHeader : GaugeHeader) (hookMouse : Bool) (ms : MouseStruct) :
    List MouseCall :=
  let num := ms.mouseRectNum.toInt
  if hookMouse ∧ 0 ≤ num then
    match gaugeHeader.mouseRect.bind (·.rects[num.toNat]?) with
    | none => []
    | some rect =>
      (if rect.mouseFunction = .null then []
        else [.called num.toNat rect.mouseFunction
          { relativePoint := GaugeData.scale ms.relX ms.relY gaugeHeader.size
            screenPoint := GaugeData.scale ms.scrX ms.scrY gaugeHeader.size } ms.flags]) ++
        if rect.eventId = 0 then [] else [.keyEvent num.toNat rect.eventId]
  else []

namespace GaugeData

variable {ι : Type*} {d : GaugeData ι} {gaugeHeader : GaugeHeader} {swallowMouse hookMouse : Bool}

/-- A detached gauge keeps its id. -/
@[simp] theorem detach_id : d.detach.1.id = d.id := by
  unfold detach
  split <;> rfl

/-- It keeps the events that wait. -/
@[simp] theorem detach_mouseEvents : d.detach.1.mouseEvents = d.mouseEvents := by
  unfold detach
  split <;> rfl

/-- It has no header. -/
theorem detach_gaugeHeader : d.detach.1.gaugeHeader = none := by
  unfold detach
  split
  · assumption
  · rfl

/-- An attached gauge keeps its id. -/
@[simp] theorem attach_id : (d.attach gaugeHeader swallowMouse hookMouse).id = d.id := by
  unfold attach
  split
  · exact detach_id
  · split
    · exact detach_id
    · exact detach_id

/-- It keeps the events that wait. -/
@[simp] theorem attach_mouseEvents :
    (d.attach gaugeHeader swallowMouse hookMouse).mouseEvents = d.mouseEvents := by
  unfold attach
  split
  · exact detach_mouseEvents
  · split
    · exact detach_mouseEvents
    · exact detach_mouseEvents

variable (d) in
/-- The callbacks of a gauge are those of its header's rectangles, if its mouse is hooked. -/
def Intact : Prop :=
  match d.gaugeHeader with
  | none => d.originalMouseCallbacks = []
  | some gaugeHeader =>
    d.originalMouseCallbacks.length =
      if d.hookMouse then gaugeHeader.mouseRect.elim 0 (·.rects.length) else 0

/-- A detached gauge has no callbacks, as it should. -/
theorem Intact.detach (h : d.Intact) : d.detach.1.Intact := by
  unfold GaugeData.detach
  split
  · exact h
  · exact (rfl : ([] : List MouseFunction) = [])

/-- A detached gauge has no callbacks. -/
theorem Intact.detach_callbacks (h : d.Intact) : d.detach.1.originalMouseCallbacks = [] := by
  unfold GaugeData.detach
  split
  · rename_i hnone
    rwa [Intact, hnone] at h
  · rfl

/-- An attached gauge has those of its header. -/
theorem Intact.attach (h : d.Intact) : (d.attach gaugeHeader swallowMouse hookMouse).Intact := by
  have hempty := h.detach_callbacks
  unfold GaugeData.attach
  split
  · rename_i hnone
    simp [Intact, hempty, hnone]
  · rename_i array hsome
    split
    · rename_i hhook
      simp [Intact, hempty, hhook]
    · rename_i hhook
      simp [Intact, hempty, hhook]

variable (d) in
/-- A rectangle of a hooked gauge as the gauge made it: its own callback and its key event. -/
def rectangle (num : ℤ) : Option (MouseFunction × UInt32) :=
  match d.gaugeHeader with
  | none => none
  | some gaugeHeader =>
    if 0 ≤ num ∧ num < d.originalMouseCallbacks.length then
      (gaugeHeader.mouseRect.bind (·.rects[num.toNat]?)).map fun rect =>
        (d.originalMouseCallbacks.getD num.toNat .null, rect.eventId)
    else none

/-- Attaching makes the rectangles those of the header. -/
theorem Intact.rectangle_attach (h : d.Intact) (num : ℤ) :
    (d.attach gaugeHeader swallowMouse hookMouse).rectangle num =
      if hookMouse ∧ 0 ≤ num then
        (gaugeHeader.mouseRect.bind (·.rects[num.toNat]?)).map fun rect =>
          (rect.mouseFunction, rect.eventId)
      else none := by
  have hempty := h.detach_callbacks
  unfold GaugeData.attach
  split
  · rename_i hnone
    simp [rectangle, hempty, hnone]
  · rename_i array hsome
    split
    · rename_i hhook
      subst hhook
      simp only [rectangle, hempty, List.nil_append, List.length_map, true_and]
      by_cases hnum : 0 ≤ num
      · lift num to ℕ using hnum
        by_cases hlt : num < array.rects.length
        · simp [hlt, hsome]
        · simp [hlt, hsome]
      · simp [hnum]
    · rename_i hhook
      simp [rectangle, hempty, hhook]

variable (d) in
/-- What an attached gauge answers to an event: one call of the rectangle's own callback and its key
event, of those it has. -/
def answer (ms : MouseStruct) : List MouseCall :=
  match d.gaugeHeader, d.rectangle ms.mouseRectNum.toInt with
  | some gaugeHeader, some (cb, eventId) =>
    (if cb = .null then []
      else [.called ms.mouseRectNum.toInt.toNat cb
        { relativePoint := scale ms.relX ms.relY gaugeHeader.size
          screenPoint := scale ms.scrX ms.scrY gaugeHeader.size } ms.flags]) ++
      if eventId = 0 then [] else [.keyEvent ms.mouseRectNum.toInt.toNat eventId]
  | _, _ => []

variable (d gaugeHeader swallowMouse hookMouse) in
/-- An attached gauge has a header of the size of the one it was attached to. -/
theorem attach_gaugeHeader :
    ∃ own, (d.attach gaugeHeader swallowMouse hookMouse).gaugeHeader = some own ∧
      own.size = gaugeHeader.size := by
  unfold GaugeData.attach
  split
  · exact ⟨gaugeHeader, rfl, rfl⟩
  · split
    · exact ⟨_, rfl, rfl⟩
    · exact ⟨gaugeHeader, rfl, rfl⟩

/-- An attached gauge answers with the functions and key events of the header it was attached to. -/
theorem Intact.answer_attach (h : d.Intact) (ms : MouseStruct) :
    (d.attach gaugeHeader swallowMouse hookMouse).answer ms = gaugeHeader.answer hookMouse ms := by
  obtain ⟨own, hown, hsize⟩ := d.attach_gaugeHeader gaugeHeader swallowMouse hookMouse
  simp only [answer, hown, h.rectangle_attach, GaugeHeader.answer]
  by_cases hhook : hookMouse = true ∧ 0 ≤ ms.mouseRectNum.toInt
  · simp only [hhook, and_self, if_true]
    cases gaugeHeader.mouseRect.bind (·.rects[ms.mouseRectNum.toInt.toNat]?) with
    | none => rfl
    | some rect => simp only [Option.map_some, hsize]
  · simp only [hhook, if_false]

/-- A number of a callback is the number of a rectangle. -/
theorem Intact.rect_of_lt (h : d.Intact) (hheader : d.gaugeHeader = some gaugeHeader) {num : ℕ}
    (hnum : num < d.originalMouseCallbacks.length) :
    ∃ rect, gaugeHeader.mouseRect.bind (·.rects[num]?) = some rect := by
  simp only [Intact, hheader] at h
  rw [h] at hnum
  split at hnum
  · cases harray : gaugeHeader.mouseRect with
    | none => simp [harray] at hnum
    | some array =>
      simp only [harray, Option.elim_some] at hnum
      exact ⟨array.rects[num], by simp [hnum]⟩
  · omega

variable (d) in
/-- The calls for one event, whatever the mode and whether the gauge is attached. -/
def calls (mode : Mode) (ms : MouseStruct) : List MouseCall :=
  match mode, d.gaugeHeader with
  | .host, some gaugeHeader => d.mouseEvent gaugeHeader ms
  | _, _ => []

/-- No event waits once they were handled. -/
@[simp] theorem handleMouseEvents_mouseEvents (mode : Mode) :
    (d.handleMouseEvents mode).1.mouseEvents = [] := rfl

/-- The queued events are handled one after the other. -/
theorem handleMouseEvents_calls (mode : Mode) :
    (d.handleMouseEvents mode).2 =
      d.mouseEvents.flatMap fun event => (d.calls mode event.2).map (event.1, ·) := by
  unfold handleMouseEvents calls
  split
  · rfl
  · simp

/-- On a host, the calls for an event are the answers to it. -/
theorem Intact.calls_host (h : d.Intact) (ms : MouseStruct) : d.calls .host ms = d.answer ms := by
  cases hheader : d.gaugeHeader with
  | none => simp [calls, answer, hheader]
  | some gaugeHeader =>
    by_cases hnum : 0 ≤ ms.mouseRectNum.toInt ∧
        ms.mouseRectNum.toInt < d.originalMouseCallbacks.length
    · obtain ⟨rect, hrect⟩ := h.rect_of_lt hheader (by omega :
        ms.mouseRectNum.toInt.toNat < d.originalMouseCallbacks.length)
      simp only [calls, mouseEvent, answer, rectangle, hheader, if_pos hnum, hrect,
        Option.map_some]
    · simp only [calls, mouseEvent, answer, rectangle, hheader, if_neg hnum]

/-- A call for an event is for the rectangle of the event. -/
theorem num_of_mem_calls {mode : Mode} {ms : MouseStruct} {call : MouseCall}
    (h : call ∈ d.calls mode ms) : ms.mouseRectNum.toInt = call.num := by
  unfold calls at h
  split at h
  · simp only [mouseEvent] at h
    split at h
    · rename_i hnum
      have hcall : call.num = ms.mouseRectNum.toInt.toNat := by
        cases List.mem_append.mp h with
        | inl hcalled =>
          split at hcalled
          · cases hcalled
          · exact congrArg MouseCall.num (List.mem_singleton.mp hcalled)
        | inr hevent =>
          split at hevent
          · exact congrArg MouseCall.num (List.mem_singleton.mp hevent)
          · split at hevent
            · cases hevent
            · exact congrArg MouseCall.num (List.mem_singleton.mp hevent)
      rw [hcall, Int.toNat_of_nonneg hnum.1]
    · cases h
  · cases h

/-- The answers read no rectangle that is not there. -/
theorem ne_beyond_of_mem_answer {ms : MouseStruct} {call : MouseCall} (h : call ∈ d.answer ms)
    (num : ℕ) : call ≠ .beyond num := by
  unfold answer at h
  split at h
  · cases List.mem_append.mp h with
    | inl hcalled =>
      split at hcalled
      · cases hcalled
      · rw [List.mem_singleton.mp hcalled]
        exact MouseCall.noConfusion
    | inr hevent =>
      split at hevent
      · cases hevent
      · rw [List.mem_singleton.mp hevent]
        exact MouseCall.noConfusion
  · cases h

end GaugeData

/-- The network thread inside `receiveChannelPacket`: the packet it made, the channels it still has
to call, and the one that has queued the packet and not asked for its callback yet. -/
structure Delivery where
  packet : ℕ
  event : MouseStruct
  remaining : List ℕ
  triggering : Option ℕ := none
  deriving DecidableEq, Repr

/-- What is left to do while no channel is being called. -/
def Delivery.rest (d : Delivery) : Option Delivery := if d.remaining = [] then none else some d

/-- A call a host's gauge made for a packet. -/
structure MouseEffect where
  gauge : ℕ
  packet : ℕ
  call : MouseCall
  deriving DecidableEq, Repr

/-- The mouse side of a host: the gauges of its modules in the order they were created, which of
them are kept for later, and what the threads are doing. `drain` is the rest of `callbackAsync`,
during which no callee can be added. Of the past are kept the packets made and the calls. -/
structure MouseHost (ι : Type*) where
  mode : Mode := .idle
  gauges : List (GaugeData ι) := []
  detachedGauges : List ℕ := []
  asyncCallees : List ℕ := []
  drain : Option (List ℕ) := none
  inFlight : List (ι × MouseStruct) := []
  receiving : Option Delivery := none
  packets : List (ι × MouseStruct) := []
  calls : List MouseEffect := []
  deriving DecidableEq, Repr

/-- What can happen. Which packet in flight arrives next, and the order in which a set of channels or
callees is gone through, is up to the run. -/
inductive MouseAction (ι : Type*)
  | mouseCallback (d : GaugeData ι) (gaugeHeader : GaugeHeader) (mouseRectNum : Int32)
      (mc : MouseCallback) (flags : UInt32)
  | receiveChannelPacket (i : ℕ)
  | receive (g : ℕ)
  | triggerAsyncCallback
  | callbackAsync
  | asyncCallback (g : ℕ)
  | callbackAsyncDone
  | installGauge (id : ι) (gaugeHeader : GaugeHeader) (swallowMouse hookMouse : Bool)
  | detach (g : ℕ)
  | setMode (mode : Mode)
  | setMouseRect (g : ℕ) (mouseRect : Option MouseRects)
  deriving DecidableEq, Repr

namespace MouseHost

variable {ι : Type*} [DecidableEq ι] (s : MouseHost ι)

/-- The gauges registered under an id. -/
def registered (id : ι) : List ℕ :=
  (List.range s.gauges.length).filter fun g => (s.gauges[g]?).any (·.id = id)

/-- `GaugeModule::getDetachedGauge`: the oldest kept gauge of that name and parameter. -/
def getDetachedGauge (id : ι) : Option ℕ :=
  s.detachedGauges.find? fun g => (s.gauges[g]?).any (·.id = id)

/-- `GaugeModule::installGauge` with the configuration of the gauge. -/
def installGauge (id : ι) (gaugeHeader : GaugeHeader) (swallowMouse hookMouse : Bool) :
    MouseHost ι :=
  match s.getDetachedGauge id with
  | none =>
    { s with gauges := s.gauges ++ [({ id := id } : GaugeData ι).attach gaugeHeader swallowMouse
        hookMouse] }
  | some g =>
    { s with
      detachedGauges := s.detachedGauges.erase g
      gauges := s.gauges.modify g (·.attach gaugeHeader swallowMouse hookMouse) }

/-- `Gauge::detach`, called by the simulator; the gauge is kept. -/
def detach (g : ℕ) : MouseHost ι :=
  if (s.gauges[g]?).any (·.gaugeHeader.isSome) then
    { s with
      gauges := s.gauges.modify g (·.detach.1)
      detachedGauges := s.detachedGauges ++ [g] }
  else s

/-- One step of the host or of a client. -/
def step : MouseAction ι → Option (MouseHost ι)
  | .mouseCallback d gaugeHeader mouseRectNum mc flags =>
    match (d.mouseCallback .client gaugeHeader mouseRectNum mc flags).sent with
    | some ms => some { s with inFlight := s.inFlight ++ [(d.id, ms)] }
    | none => some s
  | .receiveChannelPacket i =>
    match s.mode, s.receiving, s.inFlight[i]? with
    | .host, none, some (id, ms) =>
      some { s with
        inFlight := s.inFlight.eraseIdx i
        packets := s.packets ++ [(id, ms)]
        receiving := Delivery.rest
          { packet := s.packets.length, event := ms, remaining := s.registered id } }
    | _, _, _ => none
  | .receive g =>
    match s.receiving, s.gauges[g]? with
    | some { packet, event, remaining, triggering := none }, some d =>
      if g ∈ remaining then
        some { s with
          gauges := s.gauges.set g (d.receive packet event)
          receiving := some { packet, event, remaining := remaining.erase g, triggering := some g } }
      else none
    | _, _ => none
  | .triggerAsyncCallback =>
    match s.receiving, s.drain with
    | some { packet, event, remaining, triggering := some g }, none =>
      some { s with
        asyncCallees := s.asyncCallees.insert g
        receiving := Delivery.rest { packet, event, remaining } }
    | _, _ => none
  | .callbackAsync =>
    match s.drain with
    | none => some { s with drain := some s.asyncCallees }
    | some _ => none
  | .asyncCallback g =>
    match s.drain, s.gauges[g]? with
    | some remaining, some d =>
      if g ∈ remaining then
        some { s with
          drain := some (remaining.erase g)
          gauges := s.gauges.set g (d.handleMouseEvents s.mode).1
          calls := s.calls ++ (d.handleMouseEvents s.mode).2.map fun call => ⟨g, call.1, call.2⟩ }
      else none
    | _, _ => none
  | .callbackAsyncDone =>
    match s.drain with
    | some [] => some { s with drain := none, asyncCallees := [] }
    | _ => none
  | .installGauge id gaugeHeader swallowMouse hookMouse =>
    some (s.installGauge id gaugeHeader swallowMouse hookMouse)
  | .detach g => some (s.detach g)
  | .setMode mode => some { s with mode := mode }
  | .setMouseRect g mouseRect =>
    some { s with
      gauges := s.gauges.modify g fun d => { d with
        gaugeHeader := d.gaugeHeader.map ({ · with mouseRect := mouseRect }) } }

end MouseHost

/-- A host without gauges at first. -/
def mouseMachine (ι : Type*) [DecidableEq ι] : Machine (MouseHost ι) (MouseAction ι) where
  initial s := s = {}
  step := MouseHost.step

/-! ### What each step does -/

namespace MouseHost

variable {ι : Type*} [DecidableEq ι] {s t : MouseHost ι} {g : ℕ}

/-- A click of a client at most sends a packet. -/
theorem mouseCallback_cases {d : GaugeData ι} {gaugeHeader : GaugeHeader} {mouseRectNum : Int32}
    {mc : MouseCallback} {flags : UInt32}
    (h : s.step (.mouseCallback d gaugeHeader mouseRectNum mc flags) = some t) :
    ∃ inFlight, t = { s with inFlight := inFlight } := by
  simp only [step] at h
  split at h
  · exact ⟨_, (Option.some.inj h).symm⟩
  · exact ⟨s.inFlight, (Option.some.inj h).symm⟩

/-- A packet arrives while no other is being handled. -/
theorem receiveChannelPacket_cases {i : ℕ} (h : s.step (.receiveChannelPacket i) = some t) :
    ∃ id ms, s.receiving = none ∧ t = { s with
      inFlight := s.inFlight.eraseIdx i
      packets := s.packets ++ [(id, ms)]
      receiving := Delivery.rest
        { packet := s.packets.length, event := ms, remaining := s.registered id } } := by
  simp only [step] at h
  split at h
  · exact ⟨_, _, ‹_›, (Option.some.inj h).symm⟩
  · cases h

/-- A gauge receives a packet it still waits for, and is to ask for its callback. -/
theorem receive_cases (h : s.step (.receive g) = some t) :
    ∃ packet event remaining gauge, s.receiving = some { packet, event, remaining } ∧
      s.gauges[g]? = some gauge ∧ g ∈ remaining ∧ t = { s with
        gauges := s.gauges.set g (gauge.receive packet event)
        receiving := some
          { packet, event, remaining := remaining.erase g, triggering := some g } } := by
  simp only [step] at h
  split at h
  · split at h
    · exact ⟨_, _, _, _, ‹_›, ‹_›, ‹_›, (Option.some.inj h).symm⟩
    · cases h
  · cases h

/-- A gauge that received asks for its callback while no callbacks are being made. -/
theorem triggerAsyncCallback_cases (h : s.step .triggerAsyncCallback = some t) :
    ∃ packet event remaining g,
      s.receiving = some { packet, event, remaining, triggering := some g } ∧ s.drain = none ∧
      t = { s with
        asyncCallees := s.asyncCallees.insert g
        receiving := Delivery.rest { packet, event, remaining } } := by
  simp only [step] at h
  split at h
  · exact ⟨_, _, _, _, ‹_›, ‹_›, (Option.some.inj h).symm⟩
  · cases h

/-- The callbacks begin with all the callees. -/
theorem callbackAsync_cases (h : s.step .callbackAsync = some t) :
    t = { s with drain := some s.asyncCallees } := by
  simp only [step] at h
  split at h
  · exact (Option.some.inj h).symm
  · cases h

/-- A callee that was not called yet handles its events. -/
theorem asyncCallback_cases (h : s.step (.asyncCallback g) = some t) :
    ∃ remaining gauge, s.drain = some remaining ∧ s.gauges[g]? = some gauge ∧ t = { s with
      drain := some (remaining.erase g)
      gauges := s.gauges.set g (gauge.handleMouseEvents s.mode).1
      calls := s.calls ++
        (gauge.handleMouseEvents s.mode).2.map fun call => ⟨g, call.1, call.2⟩ } := by
  simp only [step] at h
  split at h
  · split at h
    · exact ⟨_, _, ‹_›, ‹_›, (Option.some.inj h).symm⟩
    · cases h
  · cases h

/-- The callbacks end when no callee is left. -/
theorem callbackAsyncDone_cases (h : s.step .callbackAsyncDone = some t) :
    s.drain = some [] ∧ t = { s with drain := none, asyncCallees := [] } := by
  simp only [step] at h
  split at h
  · exact ⟨‹_›, (Option.some.inj h).symm⟩
  · cases h

end MouseHost

/-! ### The queues of the gauges as mailboxes -/

namespace MouseHost

variable {ι : Type*} [DecidableEq ι]

/-- The queue of a gauge. -/
def queue (gauges : List (GaugeData ι)) (g : ℕ) : List (ℕ × MouseStruct) :=
  (gauges[g]?).elim [] (·.mouseEvents)

/-- The gauges are recipients, what they do for a packet their answers. -/
def mailboxes (s : MouseHost ι) : Mailboxes ℕ MouseStruct MouseCall where
  queues := queue s.gauges
  waiting := s.receiving.elim [] fun d => d.remaining.map (·, d.packet, d.event)
  posted := s.packets.map (·.2)
  log := s.calls.map fun effect => (effect.gauge, effect.packet, effect.call)

/-- What a gauge did for a packet. -/
def callsOf (s : MouseHost ι) (g packet : ℕ) : List MouseCall :=
  s.calls.filterMap fun effect =>
    if effect.gauge = g ∧ effect.packet = packet then some effect.call else none

variable {s t : MouseHost ι} {g : ℕ}

omit [DecidableEq ι] in
/-- What a gauge did are its answers in the mailboxes. -/
theorem answered_mailboxes (g packet : ℕ) : s.mailboxes.answered g packet = s.callsOf g packet :=
  List.filterMap_map

omit [DecidableEq ι] in
/-- Changing a gauge without its queue keeps the queues. -/
theorem queue_modify {f : GaugeData ι → GaugeData ι} (hf : ∀ d, (f d).mouseEvents = d.mouseEvents)
    (gauges : List (GaugeData ι)) (g : ℕ) : queue (gauges.modify g f) = queue gauges := by
  funext k
  simp only [queue, List.getElem?_modify]
  cases gauges[k]? with
  | none => simp
  | some d =>
    by_cases hk : g = k
    · simp [hk, hf]
    · simp [hk]

omit [DecidableEq ι] in
/-- A new gauge has an empty queue. -/
theorem queue_append {d : GaugeData ι} (hd : d.mouseEvents = []) (gauges : List (GaugeData ι)) :
    queue (gauges ++ [d]) = queue gauges := by
  funext k
  simp only [queue, List.getElem?_append]
  split
  · rfl
  · rename_i hge
    cases hk : k - gauges.length with
    | zero => simp [hd, List.getElem?_eq_none (Nat.le_of_not_lt hge)]
    | succ n => simp [List.getElem?_eq_none (Nat.le_of_not_lt hge)]

omit [DecidableEq ι] in
/-- Changing a gauge there is changes its queue only. -/
theorem queue_set {d d' : GaugeData ι} {gauges : List (GaugeData ι)} (hd : gauges[g]? = some d) :
    queue (gauges.set g d') = Function.update (queue gauges) g d'.mouseEvents := by
  have hlt := (List.getElem?_eq_some_iff.mp hd).1
  funext k
  by_cases hk : k = g
  · subst hk
    simp [queue, hlt]
  · rw [Function.update_of_ne hk, queue, List.getElem?_set_ne (Ne.symm hk), queue]

omit [DecidableEq ι] in
/-- The recipients that still wait are the ones left. -/
theorem waiting_rest (d : Delivery) :
    d.rest.elim [] (fun d => d.remaining.map fun g => (g, d.packet, d.event)) =
      d.remaining.map fun g => (g, d.packet, d.event) := by
  unfold Delivery.rest
  split
  · rename_i hnil
    simp [hnil]
  · rfl

/-- A packet arriving is posted to the registered gauges. -/
theorem receiveChannelPacket_mailboxes {i : ℕ} (h : s.step (.receiveChannelPacket i) = some t) :
    ∃ e recipients, s.mailboxes.step (.post e recipients) = some t.mailboxes := by
  obtain ⟨id, ms, hreceiving, rfl⟩ := receiveChannelPacket_cases h
  have hnodup : (s.registered id).Nodup := List.nodup_range.filter _
  refine ⟨ms, s.registered id, ?_⟩
  simp [Mailboxes.step, mailboxes, hreceiving, hnodup, waiting_rest]

/-- A gauge that receives takes the packet. -/
theorem receive_mailboxes {d : Delivery} (hd : s.receiving = some d)
    (h : s.step (.receive g) = some t) :
    s.mailboxes.step (.take g d.packet d.event) = some t.mailboxes := by
  obtain ⟨packet, event, remaining, gauge, hreceiving, hgauge, hmem, rfl⟩ := receive_cases h
  cases hreceiving.symm.trans hd
  have hinjective : Function.Injective fun g : ℕ => (g, packet, event) := fun a b hab =>
    (Prod.mk.inj hab).1
  simp [Mailboxes.step, mailboxes, hd, hmem, queue_set hgauge, List.map_erase hinjective, queue,
    hgauge, GaugeData.receive]

/-- The asynchronous callback of a gauge drains its queue. -/
theorem asyncCallback_mailboxes (h : s.step (.asyncCallback g) = some t) :
    ∃ d, s.gauges[g]? = some d ∧
      s.mailboxes.step (.drain g (d.calls s.mode)) = some t.mailboxes := by
  obtain ⟨remaining, d, -, hd, rfl⟩ := asyncCallback_cases h
  refine ⟨d, hd, ?_⟩
  simp [Mailboxes.step, mailboxes, queue_set hd, queue, hd, GaugeData.handleMouseEvents_calls,
    List.map_flatMap, Function.comp_def]

/-- The other steps leave the mailboxes as they are. -/
theorem mailboxes_of_other {a : MouseAction ι} (hpost : ∀ i, a ≠ .receiveChannelPacket i)
    (htake : ∀ g, a ≠ .receive g) (hdrain : ∀ g, a ≠ .asyncCallback g) (h : s.step a = some t) :
    t.mailboxes = s.mailboxes := by
  cases a with
  | receiveChannelPacket i => exact absurd rfl (hpost i)
  | receive g => exact absurd rfl (htake g)
  | asyncCallback g => exact absurd rfl (hdrain g)
  | mouseCallback d gaugeHeader mouseRectNum mc flags =>
    obtain ⟨inFlight, rfl⟩ := mouseCallback_cases h
    rfl
  | triggerAsyncCallback =>
    obtain ⟨packet, event, remaining, g, hreceiving, -, rfl⟩ := triggerAsyncCallback_cases h
    simp only [mailboxes, hreceiving, waiting_rest, Option.elim_some]
  | callbackAsync =>
    obtain rfl := callbackAsync_cases h
    rfl
  | callbackAsyncDone =>
    obtain ⟨-, rfl⟩ := callbackAsyncDone_cases h
    rfl
  | installGauge id gaugeHeader swallowMouse hookMouse =>
    obtain rfl := Option.some.inj h
    unfold installGauge
    split
    · simp only [mailboxes]
      rw [queue_append GaugeData.attach_mouseEvents]
    · simp only [mailboxes]
      rw [queue_modify fun d => GaugeData.attach_mouseEvents]
  | detach g =>
    obtain rfl := Option.some.inj h
    unfold detach
    split
    · simp only [mailboxes]
      rw [queue_modify fun d => GaugeData.detach_mouseEvents]
    · rfl
  | setMode mode => exact Option.some.inj h ▸ rfl
  | setMouseRect g mouseRect =>
    obtain rfl := Option.some.inj h
    simp only [mailboxes]
    rw [queue_modify]
    exact fun _ => rfl

/-- A step is at most one step of the mailboxes, which drains only where a gauge is called back, and
with its calls for answers. -/
theorem step_mailboxes {a : MouseAction ι} (h : s.step a = some t) :
    ∃ bs, (Mailboxes.machine ℕ MouseStruct MouseCall).run s.mailboxes bs = some t.mailboxes ∧
      ∀ b ∈ bs, ∀ g answer, b = .drain g answer → a = .asyncCallback g ∧
        ∃ d ∈ s.gauges, answer = d.calls s.mode := by
  have hone : ∀ b, s.mailboxes.step b = some t.mailboxes →
      (Mailboxes.machine ℕ MouseStruct MouseCall).run s.mailboxes [b] = some t.mailboxes :=
    fun b hb => Option.bind_eq_some_iff.mpr ⟨_, hb, rfl⟩
  by_cases hpost : ∃ i, a = .receiveChannelPacket i
  · obtain ⟨i, rfl⟩ := hpost
    obtain ⟨e, recipients, hstep⟩ := receiveChannelPacket_mailboxes h
    exact ⟨_, hone _ hstep, by simp⟩
  by_cases htake : ∃ g, a = .receive g
  · obtain ⟨g, rfl⟩ := htake
    cases hreceiving : s.receiving with
    | none => simp only [step, hreceiving, reduceCtorEq] at h
    | some d => exact ⟨_, hone _ (receive_mailboxes hreceiving h), by simp⟩
  by_cases hdrain : ∃ g, a = .asyncCallback g
  · obtain ⟨g, rfl⟩ := hdrain
    obtain ⟨d, hd, hstep⟩ := asyncCallback_mailboxes h
    refine ⟨_, hone _ hstep, fun b hb g' answer hanswer => ?_⟩
    cases (List.mem_singleton.mp hb).symm.trans hanswer
    exact ⟨rfl, d, List.mem_of_getElem? hd, rfl⟩
  · have hother := mailboxes_of_other (fun i hi => hpost ⟨i, hi⟩) (fun g hg => htake ⟨g, hg⟩)
      (fun g hg => hdrain ⟨g, hg⟩) h
    exact ⟨[], by rw [hother]; rfl, by simp⟩

/-- The mailboxes of a run are a run of the mailboxes, with answers as the gauges give them. -/
theorem reachable_mailboxes {ok : MouseHost ι → MouseAction ι → Prop}
    {Q : MouseStruct → MouseCall → Prop}
    (hQ : ∀ s, (mouseMachine ι).ReachableVia ok s → ∀ d ∈ s.gauges, ∀ ms,
      ∀ call ∈ d.calls s.mode ms, Q ms call)
    (hs : (mouseMachine ι).ReachableVia ok s) :
    (Mailboxes.machine ℕ MouseStruct MouseCall).ReachableVia
      (fun _ b => Mailboxes.AnswersWith (fun _ => Q) b) s.mailboxes := by
  refine hs.image (fun s hinit => ?_) fun s a t hreachable _ h => ?_
  · obtain rfl : s = {} := hinit
    rfl
  · obtain ⟨bs, hrun, hbs⟩ := step_mailboxes h
    refine ⟨bs, hrun, Machine.along_of_forall (fun b hb _ => ?_) _⟩
    cases b with
    | post e recipients => trivial
    | take k p e => trivial
    | drain k answer =>
      obtain ⟨-, d, hd, rfl⟩ := hbs _ hb k answer rfl
      exact hQ s hreachable d hd

/-- What the gauges answer along a run is what the calls are. -/
theorem calls_of_answers {ok : MouseHost ι → MouseAction ι → Prop}
    {Q : MouseStruct → MouseCall → Prop}
    (hQ : ∀ s, (mouseMachine ι).ReachableVia ok s → ∀ d ∈ s.gauges, ∀ ms,
      ∀ call ∈ d.calls s.mode ms, Q ms call)
    (hs : (mouseMachine ι).ReachableVia ok s) :
    ∀ effect ∈ s.calls, ∃ id ms, s.packets[effect.packet]? = some (id, ms) ∧
      Q ms effect.call := by
  intro effect heffect
  have hlog : (effect.gauge, effect.packet, effect.call) ∈ s.mailboxes.log :=
    List.mem_map_of_mem heffect
  obtain ⟨ms, hms, hcall⟩ := Mailboxes.logged_of_answers (Q := fun _ => Q)
    (reachable_mailboxes hQ hs) _ hlog
  obtain ⟨⟨id, ms'⟩, hpacket, rfl⟩ := Option.map_eq_some_iff.mp (List.getElem?_map.symm.trans hms)
  exact ⟨id, ms', hpacket, hcall⟩

/-- A run is a run of the mailboxes, in which only callbacks drain. -/
theorem run_mailboxes {as : List (MouseAction ι)} (h : (mouseMachine ι).run s as = some t) :
    ∃ bs, (Mailboxes.machine ℕ MouseStruct MouseCall).run s.mailboxes bs = some t.mailboxes ∧
      ∀ g, .asyncCallback g ∉ as → ∀ answer, .drain g answer ∉ bs := by
  obtain ⟨bs, hrun, hbs⟩ := Machine.run_image (f := mailboxes) (I := fun _ => True)
    (R := fun a b => ∀ g answer, b = MailboxAction.drain g answer → a = .asyncCallback g)
    (N := Mailboxes.machine ℕ MouseStruct MouseCall) (fun _ _ _ _ _ => trivial)
    (fun s a t _ hstep => by
      obtain ⟨bs, hbs, hdrain⟩ := step_mailboxes hstep
      exact ⟨bs, hbs, fun b hb g answer heq => (hdrain b hb g answer heq).1⟩) trivial h
  refine ⟨bs, hrun, fun g hg answer hin => ?_⟩
  obtain ⟨a, ha, hR⟩ := hbs _ hin
  exact hg (hR g answer rfl ▸ ha)

end MouseHost

/-- The gauge's own code leaves the rectangles of its header where they were. -/
def MouseAction.KeepsRects {ι : Type*} : MouseAction ι → Prop
  | .setMouseRect _ _ => False
  | _ => True

namespace MouseHost

variable {ι : Type*} [DecidableEq ι] {s t : MouseHost ι} {g : ℕ}

/-- Every gauge has the callbacks of its header's rectangles. -/
def Intact (s : MouseHost ι) : Prop := ∀ d ∈ s.gauges, d.Intact

omit [DecidableEq ι] in
/-- A change of one gauge keeps all intact. -/
theorem intact_modify {gauges : List (GaugeData ι)} {f : GaugeData ι → GaugeData ι}
    (hgauges : ∀ d ∈ gauges, d.Intact) (hf : ∀ d, d.Intact → (f d).Intact) :
    ∀ d ∈ gauges.modify g f, d.Intact := by
  intro d hd
  obtain ⟨k, hk⟩ := List.mem_iff_getElem?.mp hd
  rw [List.getElem?_modify] at hk
  obtain ⟨d', hd', rfl⟩ := Option.map_eq_some_iff.mp hk
  have hin := hgauges d' (List.mem_of_getElem? hd')
  split
  · exact hf d' hin
  · exact hin

omit [DecidableEq ι] in
/-- So does another gauge in its place. -/
theorem intact_set {gauges : List (GaugeData ι)} {d' : GaugeData ι}
    (hgauges : ∀ d ∈ gauges, d.Intact) (hd' : d'.Intact) : ∀ d ∈ gauges.set g d', d.Intact := by
  intro d hd
  cases List.mem_or_eq_of_mem_set hd with
  | inl hin => exact hgauges d hin
  | inr heq => exact heq ▸ hd'

/-- While the rectangles stay where they were, the gauges have their callbacks. -/
theorem Intact.step (hI : s.Intact) {a : MouseAction ι} (ha : a.KeepsRects)
    (h : s.step a = some t) : t.Intact := by
  cases a with
  | mouseCallback d gaugeHeader mouseRectNum mc flags =>
    obtain ⟨inFlight, rfl⟩ := mouseCallback_cases h
    exact hI
  | receiveChannelPacket i =>
    obtain ⟨id, ms, -, rfl⟩ := receiveChannelPacket_cases h
    exact hI
  | receive g =>
    obtain ⟨packet, event, remaining, d, -, hd, -, rfl⟩ := receive_cases h
    have hin := hI d (List.mem_of_getElem? hd)
    exact intact_set hI hin
  | triggerAsyncCallback =>
    obtain ⟨packet, event, remaining, g, -, -, rfl⟩ := triggerAsyncCallback_cases h
    exact hI
  | callbackAsync =>
    obtain rfl := callbackAsync_cases h
    exact hI
  | asyncCallback g =>
    obtain ⟨remaining, d, -, hd, rfl⟩ := asyncCallback_cases h
    have hin := hI d (List.mem_of_getElem? hd)
    exact intact_set hI hin
  | callbackAsyncDone =>
    obtain ⟨-, rfl⟩ := callbackAsyncDone_cases h
    exact hI
  | installGauge id gaugeHeader swallowMouse hookMouse =>
    obtain rfl := Option.some.inj h
    unfold installGauge
    split
    · intro d hd
      cases List.mem_append.mp hd with
      | inl hin => exact hI d hin
      | inr hnew =>
        have hempty : ({ id := id } : GaugeData ι).Intact := rfl
        exact List.mem_singleton.mp hnew ▸ hempty.attach
    · exact intact_modify hI fun d hd => hd.attach
  | detach g =>
    obtain rfl := Option.some.inj h
    unfold detach
    split
    · exact intact_modify hI fun d hd => hd.detach
    · exact hI
  | setMode mode => exact Option.some.inj h ▸ hI
  | setMouseRect g mouseRect => exact ha.elim

/-- A gauge with queued events is going to be called back. -/
def Pending (s : MouseHost ι) : Prop :=
  ∀ g, queue s.gauges g ≠ [] →
    (g ∈ s.asyncCallees ∧ ∀ remaining, s.drain = some remaining → g ∈ remaining) ∨
      ∃ d, s.receiving = some d ∧ d.triggering = some g

/-- A step forgets no gauge with queued events. -/
theorem Pending.step (hI : s.Pending) {a : MouseAction ι} (h : s.step a = some t) :
    t.Pending := by
  have hother : (∀ i, a ≠ .receiveChannelPacket i) → (∀ g, a ≠ .receive g) →
      (∀ g, a ≠ .asyncCallback g) → queue t.gauges = queue s.gauges := fun hpost htake hdrain =>
    congrArg Mailboxes.queues (mailboxes_of_other hpost htake hdrain h)
  intro k hk
  cases a with
  | mouseCallback d gaugeHeader mouseRectNum mc flags =>
    obtain ⟨inFlight, rfl⟩ := mouseCallback_cases h
    exact hI k hk
  | receiveChannelPacket i =>
    obtain ⟨id, ms, hreceiving, rfl⟩ := receiveChannelPacket_cases h
    rcases hI k hk with hcallee | ⟨d, hd, -⟩
    · exact .inl hcallee
    · cases hreceiving.symm.trans hd
  | receive g =>
    obtain ⟨packet, event, remaining, d, hreceiving, hd, -, rfl⟩ := receive_cases h
    by_cases hkg : k = g
    · exact .inr ⟨_, rfl, congrArg some hkg.symm⟩
    · rw [queue_set hd, Function.update_of_ne hkg] at hk
      rcases hI k hk with hcallee | ⟨d', hd', htriggering⟩
      · exact .inl hcallee
      · cases hreceiving.symm.trans hd'
        cases htriggering
  | triggerAsyncCallback =>
    obtain ⟨packet, event, remaining, g, hreceiving, hdrain, rfl⟩ := triggerAsyncCallback_cases h
    refine .inl ⟨?_, fun remaining hremaining => by cases hdrain.symm.trans hremaining⟩
    rcases hI k hk with hcallee | ⟨d', hd', htriggering⟩
    · exact List.mem_insert_of_mem hcallee.1
    · cases hreceiving.symm.trans hd'
      cases htriggering
      exact List.mem_insert_self
  | callbackAsync =>
    obtain rfl := callbackAsync_cases h
    rcases hI k hk with hcallee | htriggering
    · exact .inl ⟨hcallee.1, fun remaining hremaining => Option.some.inj hremaining ▸ hcallee.1⟩
    · exact .inr htriggering
  | asyncCallback g =>
    obtain ⟨remaining, d, hdrain, hd, rfl⟩ := asyncCallback_cases h
    by_cases hkg : k = g
    · rw [hkg, queue_set hd, Function.update_self] at hk
      exact absurd rfl hk
    · rw [queue_set hd, Function.update_of_ne hkg] at hk
      rcases hI k hk with ⟨hcallee, hremaining⟩ | htriggering
      · refine .inl ⟨hcallee, fun rest hrest => Option.some.inj hrest ▸ ?_⟩
        exact (List.mem_erase_of_ne hkg).mpr (hremaining remaining hdrain)
      · exact .inr htriggering
  | callbackAsyncDone =>
    obtain ⟨hdrain, rfl⟩ := callbackAsyncDone_cases h
    rcases hI k hk with ⟨-, hremaining⟩ | htriggering
    · exact (List.not_mem_nil (hremaining [] hdrain)).elim
    · exact .inr htriggering
  | installGauge id gaugeHeader swallowMouse hookMouse =>
    rw [hother (by simp) (by simp) (by simp)] at hk
    obtain rfl := Option.some.inj h
    unfold installGauge
    split
    · exact hI k hk
    · exact hI k hk
  | detach g =>
    rw [hother (by simp) (by simp) (by simp)] at hk
    obtain rfl := Option.some.inj h
    unfold detach
    split
    · exact hI k hk
    · exact hI k hk
  | setMode mode =>
    rw [hother (by simp) (by simp) (by simp)] at hk
    exact Option.some.inj h ▸ hI k hk
  | setMouseRect g mouseRect =>
    rw [hother (by simp) (by simp) (by simp)] at hk
    exact Option.some.inj h ▸ hI k hk

/-- While the rectangles stay where they were, every reachable host is intact. -/
theorem intact (hs : (mouseMachine ι).ReachableVia (fun _ a => a.KeepsRects) s) : s.Intact := by
  refine hs.invariant (fun s hinit => ?_) fun s a t _ hI ha h => hI.step ha h
  obtain rfl : s = {} := hinit
  exact fun d hd => (List.not_mem_nil hd).elim

/-- In every reachable state no event is forgotten. -/
theorem pending (hs : (mouseMachine ι).Reachable s) : s.Pending := by
  refine hs.invariant (fun s hinit => ?_) fun s a t _ hI h => hI.step h
  obtain rfl : s = {} := hinit
  exact fun g hg => absurd rfl hg

/-- An event a gauge takes is answered by its next callback, and never again. -/
theorem callsOf_once {s s' t u v : MouseHost ι} {d : Delivery} {g : ℕ} {gauge : GaugeData ι}
    {between later : List (MouseAction ι)} (hs : (mouseMachine ι).Reachable s)
    (hd : s.receiving = some d) (hreceive : s.step (.receive g) = some s')
    (hbetween : (mouseMachine ι).run s' between = some t) (hnext : .asyncCallback g ∉ between)
    (hgauge : t.gauges[g]? = some gauge) (hu : t.step (.asyncCallback g) = some u)
    (hlater : (mouseMachine ι).run u later = some v) :
    v.callsOf g d.packet = gauge.calls t.mode d.event := by
  have htrue : (Mailboxes.machine ℕ MouseStruct MouseCall).Reachable s.mailboxes :=
    (reachable_mailboxes (Q := fun _ _ => True) (by simp) hs).reachable
  obtain ⟨bs, hbs, hdrain⟩ := run_mailboxes hbetween
  obtain ⟨cs, hcs, -⟩ := run_mailboxes hlater
  obtain ⟨gauge', hgauge', hstep⟩ := asyncCallback_mailboxes hu
  cases hgauge.symm.trans hgauge'
  rw [← answered_mailboxes]
  exact Mailboxes.answered_once htrue (receive_mailboxes hd hreceive) hbs (hdrain g hnext)
    hstep hcs

end MouseHost

/-! ### From a client's click to the gauges of its id -/

/-- What a click on a client's gauge sends. -/
def MouseAction.sent {ι : Type*} : MouseAction ι → List (ι × MouseStruct)
  | .mouseCallback d gaugeHeader mouseRectNum mc flags =>
    ((d.mouseCallback .client gaugeHeader mouseRectNum mc flags).sent.map (d.id, ·)).toList
  | _ => []

/-- A click sends one packet, for the rectangle clicked, unless the gauge swallows the mouse. -/
theorem MouseAction.sent_mouseCallback {ι : Type*} (d : GaugeData ι) (gaugeHeader : GaugeHeader)
    (mouseRectNum : Int32) (mc : MouseCallback) (flags : UInt32) :
    (MouseAction.mouseCallback d gaugeHeader mouseRectNum mc flags).sent.map
        (fun e => (e.1, e.2.mouseRectNum, e.2.flags)) =
      if d.swallowMouse then [] else [(d.id, mouseRectNum, flags)] := by
  cases hswallow : d.swallowMouse with
  | true => simp [sent, GaugeData.mouseCallback, hswallow]
  | false => simp [sent, GaugeData.mouseCallback, hswallow]

namespace MouseHost

variable {ι : Type*} [DecidableEq ι] (s : MouseHost ι)

/-- The id of a gauge. -/
def idOf (g : ℕ) : Option ι := (s.gauges[g]?).map (·.id)

/-- The gauges that still have to take a packet. -/
def waitingFor (packet : ℕ) : List ℕ :=
  s.receiving.elim [] fun d => if d.packet = packet then d.remaining else []

/-- The packet a step hands to a gauge. -/
def taken : MouseAction ι → List (ℕ × ℕ × MouseStruct)
  | .receive g => s.receiving.elim [] fun d => [(g, d.packet, d.event)]
  | _ => []

/-- The gauges a packet was handed to. -/
def takers (packet : ℕ) (event : MouseStruct) (handed : List (ℕ × ℕ × MouseStruct)) : List ℕ :=
  handed.filterMap fun x => if x.2 = (packet, event) then some x.1 else none

variable {s t : MouseHost ι} {g : ℕ}

/-- The gauges registered under an id are those that have it. -/
theorem mem_registered {id : ι} : g ∈ s.registered id ↔ s.idOf g = some id := by
  simp only [registered, idOf, List.mem_filter, List.mem_range]
  cases hg : s.gauges[g]? with
  | none => simp
  | some d => simp [(List.getElem?_eq_some_iff.mp hg).1]

/-- A step that neither makes nor hands over a packet leaves the packets and their delivery. -/
theorem delivery_of_other {a : MouseAction ι} (hpost : ∀ i, a ≠ .receiveChannelPacket i)
    (htake : ∀ g, a ≠ .receive g) (htrigger : a ≠ .triggerAsyncCallback) (h : s.step a = some t) :
    t.packets = s.packets ∧ t.receiving = s.receiving := by
  cases a with
  | receiveChannelPacket i => exact absurd rfl (hpost i)
  | receive g => exact absurd rfl (htake g)
  | triggerAsyncCallback => exact absurd rfl htrigger
  | mouseCallback d gaugeHeader mouseRectNum mc flags =>
    obtain ⟨inFlight, rfl⟩ := mouseCallback_cases h
    exact ⟨rfl, rfl⟩
  | callbackAsync => exact callbackAsync_cases h ▸ ⟨rfl, rfl⟩
  | asyncCallback g =>
    obtain ⟨remaining, d, -, -, rfl⟩ := asyncCallback_cases h
    exact ⟨rfl, rfl⟩
  | callbackAsyncDone =>
    obtain ⟨-, rfl⟩ := callbackAsyncDone_cases h
    exact ⟨rfl, rfl⟩
  | installGauge id gaugeHeader swallowMouse hookMouse =>
    obtain rfl := Option.some.inj h
    unfold installGauge
    split <;> exact ⟨rfl, rfl⟩
  | detach g =>
    obtain rfl := Option.some.inj h
    unfold detach
    split <;> exact ⟨rfl, rfl⟩
  | setMode mode => exact Option.some.inj h ▸ ⟨rfl, rfl⟩
  | setMouseRect g mouseRect => exact Option.some.inj h ▸ ⟨rfl, rfl⟩

/-- A step that is neither a click nor the arrival of a packet leaves what is in flight. -/
theorem inFlight_of_other {a : MouseAction ι}
    (hclick : ∀ d gaugeHeader mouseRectNum mc flags,
      a ≠ .mouseCallback d gaugeHeader mouseRectNum mc flags)
    (hpost : ∀ i, a ≠ .receiveChannelPacket i) (h : s.step a = some t) :
    t.packets = s.packets ∧ t.inFlight = s.inFlight ∧ a.sent = [] := by
  cases a with
  | mouseCallback d gaugeHeader mouseRectNum mc flags => exact absurd rfl (hclick _ _ _ _ _)
  | receiveChannelPacket i => exact absurd rfl (hpost i)
  | receive g =>
    obtain ⟨packet, event, remaining, d, -, -, -, rfl⟩ := receive_cases h
    exact ⟨rfl, rfl, rfl⟩
  | triggerAsyncCallback =>
    obtain ⟨packet, event, remaining, g, -, -, rfl⟩ := triggerAsyncCallback_cases h
    exact ⟨rfl, rfl, rfl⟩
  | callbackAsync => exact callbackAsync_cases h ▸ ⟨rfl, rfl, rfl⟩
  | asyncCallback g =>
    obtain ⟨remaining, d, -, -, rfl⟩ := asyncCallback_cases h
    exact ⟨rfl, rfl, rfl⟩
  | callbackAsyncDone =>
    obtain ⟨-, rfl⟩ := callbackAsyncDone_cases h
    exact ⟨rfl, rfl, rfl⟩
  | installGauge id gaugeHeader swallowMouse hookMouse =>
    obtain rfl := Option.some.inj h
    unfold installGauge
    split <;> exact ⟨rfl, rfl, rfl⟩
  | detach g =>
    obtain rfl := Option.some.inj h
    unfold detach
    split <;> exact ⟨rfl, rfl, rfl⟩
  | setMode mode => exact Option.some.inj h ▸ ⟨rfl, rfl, rfl⟩
  | setMouseRect g mouseRect => exact Option.some.inj h ▸ ⟨rfl, rfl, rfl⟩

/-- What was sent is in flight or has become a packet. -/
theorem sent_step {a : MouseAction ι} {sent : List (ι × MouseStruct)}
    (hsent : sent.Perm (s.packets ++ s.inFlight)) (h : s.step a = some t) :
    (sent ++ a.sent).Perm (t.packets ++ t.inFlight) := by
  by_cases hclick : ∃ d gaugeHeader mouseRectNum mc flags,
      a = .mouseCallback d gaugeHeader mouseRectNum mc flags
  · obtain ⟨d, gaugeHeader, mouseRectNum, mc, flags, rfl⟩ := hclick
    simp only [step] at h
    simp only [MouseAction.sent]
    split at h
    · rename_i ms hms
      obtain rfl := Option.some.inj h
      simpa [hms] using hsent.append_right [(d.id, ms)]
    · rename_i hms
      obtain rfl := Option.some.inj h
      simpa [hms] using hsent
  by_cases hpost : ∃ i, a = .receiveChannelPacket i
  · obtain ⟨i, rfl⟩ := hpost
    simp only [step] at h
    split at h
    · rename_i id ms _ _ hi
      obtain rfl := Option.some.inj h
      obtain ⟨hlt, hget⟩ := List.getElem?_eq_some_iff.mp hi
      have hmove : s.inFlight.Perm ((id, ms) :: s.inFlight.eraseIdx i) :=
        hget ▸ (List.getElem_cons_eraseIdx_perm hlt).symm
      simpa [MouseAction.sent] using hsent.trans (hmove.append_left s.packets)
    · cases h
  · obtain ⟨hpackets, hinFlight, hnone⟩ := inFlight_of_other
      (fun d gaugeHeader mouseRectNum mc flags ha => hclick ⟨d, gaugeHeader, mouseRectNum, mc, flags,
        ha⟩) (fun i ha => hpost ⟨i, ha⟩) h
    rwa [hpackets, hinFlight, hnone, List.append_nil]

/-- Along a run, every packet sent is in flight or was received, once. -/
theorem sent_run {as : List (MouseAction ι)} (h : (mouseMachine ι).run {} as = some s) :
    ((mouseMachine ι).trace (fun _ a => a.sent) {} as).Perm (s.packets ++ s.inFlight) := by
  have hstep : ∀ (s : MouseHost ι) (a : MouseAction ι) (t : MouseHost ι) (sent : List _),
      (mouseMachine ι).Reachable s → sent.Perm (s.packets ++ s.inFlight) →
      (mouseMachine ι).step s a = some t → (sent ++ a.sent).Perm (t.packets ++ t.inFlight) :=
    fun _ _ _ _ _ hsent h => sent_step hsent h
  exact Machine.trace_invariant hstep (.initial rfl) (.refl []) h

/-- What is known of a packet after it has arrived: the gauges it was handed to and those that still
have to take it are the ones that were registered. -/
structure HandsOver (packet : ℕ) (event : MouseStruct) (receivers : List ℕ) (s : MouseHost ι)
    (handed : List (ℕ × ℕ × MouseStruct)) : Prop where
  arrived : packet < s.packets.length
  current : ∀ d, s.receiving = some d → d.packet = packet → d.event = event
  all : (takers packet event handed ++ s.waitingFor packet).Perm receivers

omit [DecidableEq ι] in
/-- The gauges that still have to take a packet are those left in its delivery. -/
theorem waitingFor_rest (d : Delivery) (packet : ℕ) :
    d.rest.elim [] (fun d => if d.packet = packet then d.remaining else []) =
      if d.packet = packet then d.remaining else [] := by
  unfold Delivery.rest
  split
  · rename_i hnil
    simp [hnil]
  · rfl

omit [DecidableEq ι] in
/-- A delivery that goes on is the one it was. -/
theorem rest_eq_some {d d' : Delivery} (h : d.rest = some d') : d' = d := by
  unfold Delivery.rest at h
  split at h
  · cases h
  · exact (Option.some.inj h).symm

/-- A step hands a packet to a gauge that has not taken it, or not at all. -/
theorem HandsOver.step {packet : ℕ} {event : MouseStruct} {receivers : List ℕ}
    {a : MouseAction ι} {handed : List (ℕ × ℕ × MouseStruct)}
    (hI : HandsOver packet event receivers s handed) (h : s.step a = some t) :
    HandsOver packet event receivers t (handed ++ s.taken a) := by
  by_cases hpost : ∃ i, a = .receiveChannelPacket i
  · obtain ⟨i, rfl⟩ := hpost
    obtain ⟨id, ms, hnone, rfl⟩ := receiveChannelPacket_cases h
    have hne : s.packets.length ≠ packet := Nat.ne_of_gt hI.arrived
    refine ⟨by simpa using Nat.lt_succ_of_lt hI.arrived, fun d hd hpacket => ?_, ?_⟩
    · rw [rest_eq_some hd] at hpacket
      exact absurd hpacket hne
    · simpa [taken, waitingFor, waitingFor_rest, hnone, hne] using hI.all
  by_cases htake : ∃ g, a = .receive g
  · obtain ⟨g, rfl⟩ := htake
    obtain ⟨p, e, remaining, d, hreceiving, -, hmem, rfl⟩ := receive_cases h
    have hcurrent := hI.current _ hreceiving
    refine ⟨hI.arrived, fun d hd => ?_, ?_⟩
    · obtain rfl := Option.some.inj hd
      exact hcurrent
    · by_cases hp : p = packet
      · subst hp
        obtain rfl : e = event := hcurrent rfl
        have hall := hI.all
        simp only [waitingFor, hreceiving, Option.elim_some, if_true] at hall
        have herase : (g :: remaining.erase g).Perm remaining := (List.perm_cons_erase hmem).symm
        simpa [taken, takers, waitingFor, hreceiving] using
          (herase.append_left _).trans hall
      · have hall := hI.all
        simpa [taken, takers, waitingFor, hreceiving, hp] using hall
  by_cases htrigger : a = .triggerAsyncCallback
  · subst htrigger
    obtain ⟨p, e, remaining, g, hreceiving, -, rfl⟩ := triggerAsyncCallback_cases h
    have hcurrent := hI.current _ hreceiving
    refine ⟨hI.arrived, fun d hd => ?_, ?_⟩
    · obtain rfl := rest_eq_some hd
      exact hcurrent
    · have hall := hI.all
      simpa [taken, waitingFor, waitingFor_rest, hreceiving] using hall
  · obtain ⟨hpackets, hreceiving⟩ := delivery_of_other (fun i ha => hpost ⟨i, ha⟩)
      (fun g ha => htake ⟨g, ha⟩) htrigger h
    have hnone : s.taken a = [] := by
      unfold taken
      split
      · exact absurd ⟨_, rfl⟩ htake
      · rfl
    rw [hnone, List.append_nil]
    exact ⟨hpackets ▸ hI.arrived, hreceiving ▸ hI.current, by
      simpa only [waitingFor, hreceiving] using hI.all⟩

/-- A packet that arrives is handed once to each gauge registered under its id, and to no other. -/
theorem takers_run {i : ℕ} {id : ι} {ms : MouseStruct} {s' : MouseHost ι}
    {as : List (MouseAction ι)} (hs : (mouseMachine ι).Reachable s)
    (hi : s.inFlight[i]? = some (id, ms)) (h : s.step (.receiveChannelPacket i) = some s')
    (hrun : (mouseMachine ι).run s' as = some t) :
    (takers s.packets.length ms ((mouseMachine ι).trace taken s' as) ++
      t.waitingFor s.packets.length).Perm (s.registered id) := by
  have hfirst : HandsOver s.packets.length ms (s.registered id) s' [] := by
    simp only [step, hi] at h
    split at h
    · rename_i heq
      cases heq
      obtain rfl := Option.some.inj h
      refine ⟨by simp, fun d hd _ => ?_, ?_⟩
      · rw [rest_eq_some hd]
      · simp [takers, waitingFor, waitingFor_rest]
    · cases h
  have hstep : ∀ (u : MouseHost ι) (a : MouseAction ι) (v : MouseHost ι) (handed : List _),
      (mouseMachine ι).Reachable u →
      HandsOver s.packets.length ms (s.registered id) u handed →
      (mouseMachine ι).step u a = some v →
      HandsOver s.packets.length ms (s.registered id) v (handed ++ u.taken a) :=
    fun _ _ _ _ _ hI h => hI.step h
  have hreachable : (mouseMachine ι).Reachable s' := hs.step (a := .receiveChannelPacket i) h
  exact (Machine.trace_invariant hstep hreachable hfirst hrun).all

/-- Events are queued, handled and handed over at gauges that have the id of their packet, and
handled for the rectangle of the event. -/
structure Addressed (s : MouseHost ι) : Prop where
  queued : ∀ g, ∀ x ∈ queue s.gauges g, ∃ id,
    s.packets[x.1]? = some (id, x.2) ∧ s.idOf g = some id
  handled : ∀ effect ∈ s.calls, ∃ id ms, s.packets[effect.packet]? = some (id, ms) ∧
    s.idOf effect.gauge = some id ∧ ms.mouseRectNum.toInt = effect.call.num
  handing : ∀ d, s.receiving = some d → ∃ id,
    s.packets[d.packet]? = some (id, d.event) ∧ ∀ g ∈ d.remaining, s.idOf g = some id

omit [DecidableEq ι] in
/-- Addresses stay right while packets and gauges are only added. -/
theorem Addressed.mono (hI : s.Addressed)
    (hpackets : ∀ {p : ℕ} {x : ι × MouseStruct}, s.packets[p]? = some x → t.packets[p]? = some x)
    (hid : ∀ {g : ℕ} {id : ι}, s.idOf g = some id → t.idOf g = some id)
    (hqueues : queue t.gauges = queue s.gauges) (hcalls : t.calls = s.calls)
    (hreceiving : t.receiving = s.receiving) : t.Addressed where
  queued g x hx := by
    obtain ⟨id, hpacket, hg⟩ := hI.queued g x (hqueues ▸ hx)
    exact ⟨id, hpackets hpacket, hid hg⟩
  handled effect heffect := by
    obtain ⟨id, ms, hpacket, hg, hnum⟩ := hI.handled effect (hcalls ▸ heffect)
    exact ⟨id, ms, hpackets hpacket, hid hg, hnum⟩
  handing d hd := by
    obtain ⟨id, hpacket, hremaining⟩ := hI.handing d (hreceiving ▸ hd)
    exact ⟨id, hpackets hpacket, fun g hg => hid (hremaining g hg)⟩

omit [DecidableEq ι] in
/-- Changing a gauge without its id keeps the ids. -/
theorem idOf_modify {f : GaugeData ι → GaugeData ι} (hf : ∀ d, (f d).id = d.id) (k : ℕ) :
    ({ s with gauges := s.gauges.modify k f } : MouseHost ι).idOf g = s.idOf g := by
  simp only [idOf, List.getElem?_modify]
  cases s.gauges[g]? with
  | none => rfl
  | some d =>
    by_cases hk : k = g
    · simp [hk, hf]
    · simp [hk]

omit [DecidableEq ι] in
/-- So does putting a gauge of the same id in its place. -/
theorem idOf_set {d d' : GaugeData ι} {k : ℕ} (hd : s.gauges[k]? = some d) (hid : d'.id = d.id) :
    ({ s with gauges := s.gauges.set k d' } : MouseHost ι).idOf g = s.idOf g := by
  obtain ⟨hlt, hget⟩ := List.getElem?_eq_some_iff.mp hd
  by_cases hk : k = g
  · subst hk
    simp [idOf, hlt, hid, hget]
  · simp [idOf, List.getElem?_set_ne hk]

/-- A new gauge, or one used again, changes the id of no other. -/
theorem idOf_installGauge {k : ℕ} {id id' : ι} {gaugeHeader : GaugeHeader}
    {swallowMouse hookMouse : Bool} (h : s.idOf k = some id) :
    (s.installGauge id' gaugeHeader swallowMouse hookMouse).idOf k = some id := by
  unfold installGauge
  split
  · obtain ⟨d, hd, rfl⟩ := Option.map_eq_some_iff.mp h
    have hlt := (List.getElem?_eq_some_iff.mp hd).1
    simp [idOf, List.getElem?_append_left hlt, hd]
  · exact (idOf_modify (fun d => GaugeData.attach_id) _).trans h

/-- A gauge that takes a packet has the id of the packet. -/
theorem Addressed.receive (hI : s.Addressed) (h : s.step (.receive g) = some t) : t.Addressed := by
  obtain ⟨p, e, remaining, d, hreceiving, hd, hmem, rfl⟩ := receive_cases h
  obtain ⟨id, hpacket, hremaining⟩ := hI.handing _ hreceiving
  have hid : ∀ {k : ℕ}, ({ s with gauges := s.gauges.set g (d.receive p e) } :
      MouseHost ι).idOf k = s.idOf k := idOf_set hd rfl
  refine ⟨fun k x hx => ?_, fun effect heffect => ?_, fun d' hd' => ?_⟩
  · by_cases hk : k = g
    · subst hk
      rw [queue_set hd, Function.update_self] at hx
      rcases List.mem_append.mp hx with hold | hnew
      · obtain ⟨id', hpacket', hg⟩ := hI.queued k x (by simpa [queue, hd] using hold)
        exact ⟨id', hpacket', hid.trans hg⟩
      · obtain rfl := List.mem_singleton.mp hnew
        exact ⟨id, hpacket, hid.trans (hremaining k hmem)⟩
    · rw [queue_set hd, Function.update_of_ne hk] at hx
      obtain ⟨id', hpacket', hg⟩ := hI.queued k x hx
      exact ⟨id', hpacket', hid.trans hg⟩
  · obtain ⟨id', ms', hpacket', hg, hnum⟩ := hI.handled effect heffect
    exact ⟨id', ms', hpacket', hid.trans hg, hnum⟩
  · obtain rfl := Option.some.inj hd'
    exact ⟨id, hpacket, fun k hk => hid.trans (hremaining k (List.mem_of_mem_erase hk))⟩

/-- A gauge that is called back handles the events of its queue. -/
theorem Addressed.asyncCallback (hI : s.Addressed) (h : s.step (.asyncCallback g) = some t) :
    t.Addressed := by
  obtain ⟨remaining, d, -, hd, rfl⟩ := asyncCallback_cases h
  have hid : ∀ {k : ℕ}, ({ s with gauges := s.gauges.set g (d.handleMouseEvents s.mode).1 } :
      MouseHost ι).idOf k = s.idOf k := idOf_set hd rfl
  refine ⟨fun k x hx => ?_, fun effect heffect => ?_, fun d' hd' => ?_⟩
  · by_cases hk : k = g
    · subst hk
      rw [queue_set hd, Function.update_self] at hx
      exact (List.not_mem_nil hx).elim
    · rw [queue_set hd, Function.update_of_ne hk] at hx
      obtain ⟨id', hpacket, hg⟩ := hI.queued k x hx
      exact ⟨id', hpacket, hid.trans hg⟩
  · rcases List.mem_append.mp heffect with hold | hnew
    · obtain ⟨id', ms, hpacket, hg, hnum⟩ := hI.handled effect hold
      exact ⟨id', ms, hpacket, hid.trans hg, hnum⟩
    · obtain ⟨call, hcall, rfl⟩ := List.mem_map.mp hnew
      rw [GaugeData.handleMouseEvents_calls] at hcall
      obtain ⟨event, hevent, hmap⟩ := List.mem_flatMap.mp hcall
      obtain ⟨call', hcall', rfl⟩ := List.mem_map.mp hmap
      obtain ⟨id', hpacket, hg⟩ := hI.queued g event (by simpa [queue, hd] using hevent)
      exact ⟨id', event.2, hpacket, hid.trans hg, GaugeData.num_of_mem_calls hcall'⟩
  · obtain ⟨id', hpacket, hremaining⟩ := hI.handing d' hd'
    exact ⟨id', hpacket, fun k hk => hid.trans (hremaining k hk)⟩

/-- A step keeps the addresses right. -/
theorem Addressed.step (hI : s.Addressed) {a : MouseAction ι} (h : s.step a = some t) :
    t.Addressed := by
  cases a with
  | mouseCallback d gaugeHeader mouseRectNum mc flags =>
    obtain ⟨inFlight, rfl⟩ := mouseCallback_cases h
    exact hI.mono id id rfl rfl rfl
  | receiveChannelPacket i =>
    obtain ⟨id, ms, hnone, rfl⟩ := receiveChannelPacket_cases h
    have hpackets : ∀ {p : ℕ} {x : ι × MouseStruct}, s.packets[p]? = some x →
        (s.packets ++ [(id, ms)])[p]? = some x := fun hp =>
      (List.getElem?_append_left (List.getElem?_eq_some_iff.mp hp).1).trans hp
    refine ⟨fun g x hx => ?_, fun effect heffect => ?_, fun d hd => ?_⟩
    · obtain ⟨id', hpacket, hg⟩ := hI.queued g x hx
      exact ⟨id', hpackets hpacket, hg⟩
    · obtain ⟨id', ms', hpacket, hg⟩ := hI.handled effect heffect
      exact ⟨id', ms', hpackets hpacket, hg⟩
    · rw [rest_eq_some hd]
      exact ⟨id, by simp, fun g hg => mem_registered.mp hg⟩
  | receive g => exact hI.receive h
  | triggerAsyncCallback =>
    obtain ⟨p, e, remaining, g, hreceiving, -, rfl⟩ := triggerAsyncCallback_cases h
    have hhanding := hI.handing _ hreceiving
    refine ⟨hI.queued, hI.handled, fun d hd => ?_⟩
    rw [rest_eq_some hd]
    exact hhanding
  | callbackAsync =>
    obtain rfl := callbackAsync_cases h
    exact hI.mono id id rfl rfl rfl
  | asyncCallback g => exact hI.asyncCallback h
  | callbackAsyncDone =>
    obtain ⟨-, rfl⟩ := callbackAsyncDone_cases h
    exact hI.mono id id rfl rfl rfl
  | installGauge id gaugeHeader swallowMouse hookMouse =>
    have hqueue := congrArg Mailboxes.queues (mailboxes_of_other (by simp) (by simp) (by simp) h)
    obtain ⟨hpackets, hreceiving⟩ := delivery_of_other (by simp) (by simp) (by simp) h
    obtain rfl := Option.some.inj h
    refine hI.mono (fun hp => hpackets ▸ hp) idOf_installGauge hqueue ?_ hreceiving
    unfold installGauge
    split <;> rfl
  | detach g =>
    have hqueue := congrArg Mailboxes.queues (mailboxes_of_other (by simp) (by simp) (by simp) h)
    obtain rfl := Option.some.inj h
    unfold detach at hqueue ⊢
    split
    · rename_i hattached
      rw [if_pos hattached] at hqueue
      exact hI.mono id (fun hg => (idOf_modify (fun d => GaugeData.detach_id) g).trans hg) hqueue
        rfl rfl
    · exact hI
  | setMode mode => exact Option.some.inj h ▸ hI.mono id id rfl rfl rfl
  | setMouseRect g mouseRect =>
    have hqueue := congrArg Mailboxes.queues (mailboxes_of_other (by simp) (by simp) (by simp) h)
    obtain rfl := Option.some.inj h
    refine hI.mono id (fun hg => (idOf_modify ?_ g).trans hg) hqueue rfl rfl
    exact fun _ => rfl

/-- In every reachable state the addresses are right. -/
theorem addressed (hs : (mouseMachine ι).Reachable s) : s.Addressed := by
  refine hs.invariant (fun s hinit => ?_) fun s a t _ hI h => hI.step h
  obtain rfl : s = {} := hinit
  exact ⟨fun g x hx => (List.not_mem_nil hx).elim, fun _ h => (List.not_mem_nil h).elim,
    fun d hd => by cases hd⟩

end MouseHost

/-! ### From the installation of a gauge on -/

namespace MouseHost

variable {ι : Type*} [DecidableEq ι] (s : MouseHost ι)

/-- The gauge that `installGauge` attaches. -/
def installed (id : ι) : ℕ := (s.getDetachedGauge id).getD s.gauges.length

/-- A gauge was installed with a header, its mouse hooked or not, and has not been detached since. -/
def InstalledWith (g : ℕ) (gaugeHeader : GaugeHeader) (hookMouse : Bool) : Prop :=
  ∃ s₀ s₁ id swallowMouse as, (mouseMachine ι).ReachableVia (fun _ a => a.KeepsRects) s₀ ∧
    s₀.step (.installGauge id gaugeHeader swallowMouse hookMouse) = some s₁ ∧
    s₀.installed id = g ∧ (mouseMachine ι).run s₁ as = some s ∧
    ∀ a ∈ as, a.KeepsRects ∧ a ≠ .detach g

omit [DecidableEq ι] in
/-- A gauge is detached. -/
def Detached (g : ℕ) : Prop := ∃ d, s.gauges[g]? = some d ∧ d.gaugeHeader = none

/-- An attached gauge answers with the functions and key events of a header. -/
def AnswersWith (g : ℕ) (gaugeHeader : GaugeHeader) (hookMouse : Bool) : Prop :=
  ∃ d, s.gauges[g]? = some d ∧ d.gaugeHeader ≠ none ∧
    ∀ ms, d.answer ms = gaugeHeader.answer hookMouse ms

/-- The gauges kept for later are detached, and kept once. -/
structure Kept : Prop where
  nodup : s.detachedGauges.Nodup
  detached : ∀ g ∈ s.detachedGauges, s.Detached g

variable {s t : MouseHost ι} {g : ℕ}

/-- A gauge that is used again was kept. -/
theorem mem_of_getDetachedGauge {id : ι} (h : s.getDetachedGauge id = some g) :
    g ∈ s.detachedGauges :=
  List.mem_of_find?_eq_some h

omit [DecidableEq ι] in
/-- Changing a gauge there is without attaching it keeps the detached gauges so. -/
theorem Detached.set {k : ℕ} {d d' : GaugeData ι} (h : s.Detached g) (hd : s.gauges[k]? = some d)
    (hheader : d.gaugeHeader = none → d'.gaugeHeader = none) :
    ({ s with gauges := s.gauges.set k d' } : MouseHost ι).Detached g := by
  obtain ⟨e, he, hnone⟩ := h
  have hlt := (List.getElem?_eq_some_iff.mp hd).1
  by_cases hk : k = g
  · subst hk
    cases hd.symm.trans he
    exact ⟨d', by simp [hlt], hheader hnone⟩
  · exact ⟨e, by simpa [List.getElem?_set_ne hk] using he, hnone⟩

omit [DecidableEq ι] in
/-- So does changing one that does not have to be there. -/
theorem Detached.modify {k : ℕ} {f : GaugeData ι → GaugeData ι} (h : s.Detached g)
    (hf : k = g → ∀ d, d.gaugeHeader = none → (f d).gaugeHeader = none) :
    ({ s with gauges := s.gauges.modify k f } : MouseHost ι).Detached g := by
  obtain ⟨e, he, hnone⟩ := h
  by_cases hk : k = g
  · exact ⟨f e, by simp [hk, he], hf hk e hnone⟩
  · exact ⟨e, by simp [hk, he], hnone⟩

omit [DecidableEq ι] in
/-- Changing a gauge without its header and callbacks keeps the answers. -/
theorem AnswersWith.set {k : ℕ} {d d' : GaugeData ι} {gaugeHeader : GaugeHeader} {hookMouse : Bool}
    (h : s.AnswersWith g gaugeHeader hookMouse) (hd : s.gauges[k]? = some d)
    (hheader : d'.gaugeHeader = d.gaugeHeader) (hanswer : ∀ ms, d'.answer ms = d.answer ms) :
    ({ s with gauges := s.gauges.set k d' } : MouseHost ι).AnswersWith g gaugeHeader hookMouse := by
  obtain ⟨e, he, hsome, hall⟩ := h
  have hlt := (List.getElem?_eq_some_iff.mp hd).1
  by_cases hk : k = g
  · subst hk
    cases hd.symm.trans he
    exact ⟨d', by simp [hlt], hheader ▸ hsome, fun ms => (hanswer ms).trans (hall ms)⟩
  · exact ⟨e, by simpa [List.getElem?_set_ne hk] using he, hsome, hall⟩

/-- A step keeps the kept gauges detached. -/
theorem Kept.step (hI : s.Kept) {a : MouseAction ι} (h : s.step a = some t) : t.Kept := by
  cases a with
  | mouseCallback d gaugeHeader mouseRectNum mc flags =>
    obtain ⟨inFlight, rfl⟩ := mouseCallback_cases h
    exact ⟨hI.nodup, hI.detached⟩
  | receiveChannelPacket i =>
    obtain ⟨id, ms, -, rfl⟩ := receiveChannelPacket_cases h
    exact ⟨hI.nodup, hI.detached⟩
  | receive g =>
    obtain ⟨p, e, remaining, d, -, hd, -, rfl⟩ := receive_cases h
    exact ⟨hI.nodup, fun k hk => (hI.detached k hk).set hd id⟩
  | triggerAsyncCallback =>
    obtain ⟨p, e, remaining, g, -, -, rfl⟩ := triggerAsyncCallback_cases h
    exact ⟨hI.nodup, hI.detached⟩
  | callbackAsync =>
    obtain rfl := callbackAsync_cases h
    exact ⟨hI.nodup, hI.detached⟩
  | asyncCallback g =>
    obtain ⟨remaining, d, -, hd, rfl⟩ := asyncCallback_cases h
    exact ⟨hI.nodup, fun k hk => (hI.detached k hk).set hd id⟩
  | callbackAsyncDone =>
    obtain ⟨-, rfl⟩ := callbackAsyncDone_cases h
    exact ⟨hI.nodup, hI.detached⟩
  | installGauge id gaugeHeader swallowMouse hookMouse =>
    obtain rfl := Option.some.inj h
    unfold installGauge
    split
    · refine ⟨hI.nodup, fun k hk => ?_⟩
      obtain ⟨d, hd, hnone⟩ := hI.detached k hk
      exact ⟨d, (List.getElem?_append_left (List.getElem?_eq_some_iff.mp hd).1).trans hd, hnone⟩
    · refine ⟨hI.nodup.erase _, fun k hk => ?_⟩
      obtain ⟨hne, hin⟩ := hI.nodup.mem_erase_iff.mp hk
      exact (hI.detached k hin).modify fun hk => absurd hk.symm hne
  | detach g =>
    obtain rfl := Option.some.inj h
    unfold detach
    split
    · rename_i hattached
      have hfresh : g ∉ s.detachedGauges := by
        intro hg
        obtain ⟨d, hd, hnone⟩ := hI.detached g hg
        simp [hd, hnone] at hattached
      refine ⟨hI.nodup.append (List.nodup_singleton g) (by simpa using hfresh), fun k hk => ?_⟩
      rcases List.mem_append.mp hk with hold | hnew
      · exact (hI.detached k hold).modify fun _ d _ => d.detach_gaugeHeader
      · obtain rfl := List.mem_singleton.mp hnew
        obtain ⟨d, hd⟩ : ∃ d, s.gauges[k]? = some d := by
          cases hd : s.gauges[k]? with
          | none => simp [hd] at hattached
          | some d => exact ⟨d, rfl⟩
        exact ⟨d.detach.1, by simp [hd], d.detach_gaugeHeader⟩
    · exact hI
  | setMode mode => exact Option.some.inj h ▸ ⟨hI.nodup, hI.detached⟩
  | setMouseRect g mouseRect =>
    obtain rfl := Option.some.inj h
    exact ⟨hI.nodup, fun k hk => (hI.detached k hk).modify fun _ d hnone => by simp [hnone]⟩

/-- In every reachable state the kept gauges are detached. -/
theorem kept (hs : (mouseMachine ι).Reachable s) : s.Kept := by
  refine hs.invariant (fun s hinit => ?_) fun s a t _ hI h => hI.step h
  obtain rfl : s = {} := hinit
  exact ⟨List.nodup_nil, fun g hg => (List.not_mem_nil hg).elim⟩

/-- A gauge that is installed answers as its header says. -/
theorem AnswersWith.installGauge {id : ι} {gaugeHeader : GaugeHeader} (hs : s.Intact)
    (swallowMouse hookMouse : Bool) :
    (s.installGauge id gaugeHeader swallowMouse hookMouse).AnswersWith (s.installed id) gaugeHeader
      hookMouse := by
  have hattached : ∀ d : GaugeData ι, d.Intact → ∃ e,
      e = d.attach gaugeHeader swallowMouse hookMouse ∧ e.gaugeHeader ≠ none ∧
        ∀ ms, e.answer ms = gaugeHeader.answer hookMouse ms := by
    intro d hd
    obtain ⟨own, hown, -⟩ := d.attach_gaugeHeader gaugeHeader swallowMouse hookMouse
    exact ⟨_, rfl, by simp [hown], hd.answer_attach⟩
  cases hkept : s.getDetachedGauge id with
  | none =>
    obtain ⟨e, rfl, hsome, hanswer⟩ := hattached { id := id } rfl
    exact ⟨_, by simp [MouseHost.installGauge, installed, hkept], hsome, hanswer⟩
  | some k =>
    have hfind : s.detachedGauges.find? (fun g => (s.gauges[g]?).any (·.id = id)) = some k := hkept
    have hid := List.find?_some hfind
    cases hd : s.gauges[k]? with
    | none => simp [hd] at hid
    | some d =>
      obtain ⟨e, rfl, hsome, hanswer⟩ := hattached d (hs d (List.mem_of_getElem? hd))
      exact ⟨_, by simp [MouseHost.installGauge, installed, hkept, hd], hsome, hanswer⟩

/-- It goes on to do so until it is detached. -/
theorem AnswersWith.step {gaugeHeader : GaugeHeader} {hookMouse : Bool} (hs : s.Kept)
    (hI : s.AnswersWith g gaugeHeader hookMouse) {a : MouseAction ι} (hrects : a.KeepsRects)
    (hdetach : a ≠ .detach g) (h : s.step a = some t) : t.AnswersWith g gaugeHeader hookMouse := by
  cases a with
  | mouseCallback d gaugeHeader mouseRectNum mc flags =>
    obtain ⟨inFlight, rfl⟩ := mouseCallback_cases h
    exact hI
  | receiveChannelPacket i =>
    obtain ⟨id, ms, -, rfl⟩ := receiveChannelPacket_cases h
    exact hI
  | receive k =>
    obtain ⟨p, e, remaining, d, -, hd, -, rfl⟩ := receive_cases h
    exact hI.set hd rfl fun _ => rfl
  | triggerAsyncCallback =>
    obtain ⟨p, e, remaining, k, -, -, rfl⟩ := triggerAsyncCallback_cases h
    exact hI
  | callbackAsync =>
    obtain rfl := callbackAsync_cases h
    exact hI
  | asyncCallback k =>
    obtain ⟨remaining, d, -, hd, rfl⟩ := asyncCallback_cases h
    exact hI.set hd rfl fun _ => rfl
  | callbackAsyncDone =>
    obtain ⟨-, rfl⟩ := callbackAsyncDone_cases h
    exact hI
  | installGauge id header swallowMouse hook =>
    obtain rfl := Option.some.inj h
    obtain ⟨d, hd, hsome, hanswer⟩ := hI
    unfold MouseHost.installGauge
    split
    · exact ⟨d, (List.getElem?_append_left (List.getElem?_eq_some_iff.mp hd).1).trans hd, hsome,
        hanswer⟩
    · rename_i k hkept
      have hne : k ≠ g := by
        rintro rfl
        obtain ⟨d', hd', hnone⟩ := hs.detached k (mem_of_getDetachedGauge hkept)
        cases hd.symm.trans hd'
        exact hsome hnone
      exact ⟨d, by simp [hne, hd], hsome, hanswer⟩
  | detach k =>
    obtain rfl := Option.some.inj h
    obtain ⟨d, hd, hsome, hanswer⟩ := hI
    have hne : k ≠ g := fun heq => hdetach (congrArg _ heq)
    unfold MouseHost.detach
    split
    · exact ⟨d, by simp [hne, hd], hsome, hanswer⟩
    · exact ⟨d, hd, hsome, hanswer⟩
  | setMode mode => exact Option.some.inj h ▸ hI
  | setMouseRect k mouseRect => exact hrects.elim

/-- A gauge that was installed answers as its header says as long as it is not detached. -/
theorem InstalledWith.answersWith {gaugeHeader : GaugeHeader} {hookMouse : Bool}
    (h : s.InstalledWith g gaugeHeader hookMouse) : s.AnswersWith g gaugeHeader hookMouse := by
  obtain ⟨s₀, s₁, id, swallowMouse, as, hs₀, hinstall, rfl, hrun, has⟩ := h
  obtain rfl := Option.some.inj hinstall
  have hs₁ : (mouseMachine ι).Reachable (s₀.installGauge id gaugeHeader swallowMouse hookMouse) :=
    hs₀.reachable.step (a := .installGauge id gaugeHeader swallowMouse hookMouse) rfl
  refine (Machine.Along.invariant
    (I := fun s => s.Kept ∧ s.AnswersWith (s₀.installed id) gaugeHeader hookMouse)
    (fun s a t hI ha h => ⟨hI.1.step h, hI.2.step hI.1 ha.1 ha.2 h⟩)
    (Machine.along_of_forall (fun a ha _ => has a ha) _)
    ⟨kept hs₁, .installGauge (intact hs₀) swallowMouse hookMouse⟩ hrun).2

/-- More steps that do not detach a gauge leave it installed. -/
theorem InstalledWith.run {gaugeHeader : GaugeHeader} {hookMouse : Bool}
    {as : List (MouseAction ι)} (h : s.InstalledWith g gaugeHeader hookMouse)
    (has : ∀ a ∈ as, a.KeepsRects ∧ a ≠ .detach g) (hrun : (mouseMachine ι).run s as = some t) :
    t.InstalledWith g gaugeHeader hookMouse := by
  obtain ⟨s₀, s₁, id, swallowMouse, before, hs₀, hinstall, hg, hbefore, hall⟩ := h
  refine ⟨s₀, s₁, id, swallowMouse, before ++ as, hs₀, hinstall, hg, ?_, fun a ha => ?_⟩
  · rw [Machine.run_append, hbefore]
    exact hrun
  · exact (List.mem_append.mp ha).elim (hall a) (has a)

end MouseHost

/-- A click sends one packet, and every packet sent is received at most once. A packet that arrives is
handed once to each gauge registered under its id. A gauge that takes an event answers it once, at
its next callback on the host: with one call of the rectangle's own function and its key event, of
those the header it was installed with has, if it is not detached before, and not at all if it is
detached. A gauge handles its events in the order they arrived, none but those of its id, never for
another rectangle, and forgets none. -/
theorem mouseEvents_once (ι : Type*) [DecidableEq ι] :
    (∀ (d : GaugeData ι) (gaugeHeader : GaugeHeader) (mouseRectNum : Int32) (mc : MouseCallback)
      (flags : UInt32),
      (MouseAction.mouseCallback d gaugeHeader mouseRectNum mc flags).sent.map
          (fun e => (e.1, e.2.mouseRectNum, e.2.flags)) =
        if d.swallowMouse then [] else [(d.id, mouseRectNum, flags)]) ∧
    (∀ (s : MouseHost ι) (as : List (MouseAction ι)), (mouseMachine ι).run {} as = some s →
      ((mouseMachine ι).trace (fun _ a => a.sent) {} as).Perm (s.packets ++ s.inFlight)) ∧
    (∀ (s s' t : MouseHost ι) (i : ℕ) (id : ι) (ms : MouseStruct) (as : List (MouseAction ι)),
      (mouseMachine ι).Reachable s → s.inFlight[i]? = some (id, ms) →
      s.step (.receiveChannelPacket i) = some s' → (mouseMachine ι).run s' as = some t →
      (MouseHost.takers s.packets.length ms ((mouseMachine ι).trace MouseHost.taken s' as) ++
        t.waitingFor s.packets.length).Perm (s.registered id)) ∧
    (∀ (s s' t u v : MouseHost ι) (d : Delivery) (g : ℕ) (between later : List (MouseAction ι)),
      (mouseMachine ι).ReachableVia (fun _ a => a.KeepsRects) s → s.receiving = some d →
      s.step (.receive g) = some s' → (mouseMachine ι).run s' between = some t →
      (∀ a ∈ between, a.KeepsRects ∧ a ≠ .asyncCallback g) → t.mode = .host →
      t.step (.asyncCallback g) = some u → (mouseMachine ι).run u later = some v →
      (∀ gaugeHeader hookMouse, s.InstalledWith g gaugeHeader hookMouse → .detach g ∉ between →
        v.callsOf g d.packet = gaugeHeader.answer hookMouse d.event) ∧
      ((mouseMachine ι).Throughout (·.Detached g) s' between → v.callsOf g d.packet = [])) ∧
    (∀ s : MouseHost ι, (mouseMachine ι).Reachable s →
      s.calls.Pairwise (fun a b => a.gauge = b.gauge → a.packet ≤ b.packet) ∧ s.Pending ∧
      ∀ effect ∈ s.calls, ∃ id ms, s.packets[effect.packet]? = some (id, ms) ∧
        s.idOf effect.gauge = some id ∧ ms.mouseRectNum.toInt = effect.call.num) ∧
    ∀ s : MouseHost ι, (mouseMachine ι).ReachableVia (fun _ a => a.KeepsRects) s →
      ∀ effect ∈ s.calls, ∀ num, effect.call ≠ .beyond num := by
  refine ⟨MouseAction.sent_mouseCallback, fun s as => MouseHost.sent_run,
    fun s s' t i id ms as => MouseHost.takers_run, ?_,
    fun s hs => ⟨?_, s.pending hs, (s.addressed hs).handled⟩, fun s hs effect heffect => ?_⟩
  · intro s s' t u v d g between later hs hd hreceive hbetween hkeeps hhost hu hlater
    have hs' : (mouseMachine ι).ReachableVia (fun _ a => a.KeepsRects) s' :=
      .step (a := .receive g) hs trivial hreceive
    have ht : t.Intact := MouseHost.intact
      (hs'.run (Machine.along_of_forall (fun a ha _ => (hkeeps a ha).1) s') hbetween)
    -- the gauge answers as it is attached at its callback
    have hanswer : ∀ gauge, t.gauges[g]? = some gauge →
        v.callsOf g d.packet = gauge.answer d.event := by
      intro gauge hgauge
      rw [s.callsOf_once hs.reachable hd hreceive hbetween (fun hin => (hkeeps _ hin).2 rfl) hgauge
        hu hlater, hhost]
      exact (ht gauge (List.mem_of_getElem? hgauge)).calls_host d.event
    refine ⟨fun gaugeHeader hookMouse hinstalled hdetach => ?_, fun hdetached => ?_⟩
    · have hrun : (mouseMachine ι).run s (.receive g :: between) = some t :=
        (Machine.run_cons (M := mouseMachine ι) (a := .receive g) hreceive between).trans hbetween
      have hactions : ∀ a ∈ .receive g :: between, a.KeepsRects ∧ a ≠ .detach g := by
        intro a ha
        rcases List.mem_cons.mp ha with rfl | ha
        · exact ⟨trivial, by simp⟩
        · exact ⟨(hkeeps a ha).1, fun heq => hdetach (heq ▸ ha)⟩
      obtain ⟨gauge, hgauge, -, hall⟩ := (hinstalled.run hactions hrun).answersWith
      rw [hanswer gauge hgauge, hall]
    · obtain ⟨gauge, hgauge, hnone⟩ := hdetached.last hbetween
      rw [hanswer gauge hgauge, GaugeData.answer, hnone]
  · have hsorted := (Mailboxes.sound (MouseHost.reachable_mailboxes (Q := fun _ _ => True)
      (by simp) hs).reachable).logged_sorted
    exact List.pairwise_map.mp hsorted
  · have hanswers : ∀ s, (mouseMachine ι).ReachableVia (fun _ a => a.KeepsRects) s →
        ∀ d ∈ s.gauges, ∀ ms, ∀ call ∈ d.calls s.mode ms, ∀ num, call ≠ .beyond num := by
      intro s hs d hd ms call hcall
      cases hmode : s.mode with
      | idle => simp [GaugeData.calls, hmode] at hcall
      | client => simp [GaugeData.calls, hmode] at hcall
      | host =>
        rw [hmode, (MouseHost.intact hs d hd).calls_host] at hcall
        exact GaugeData.ne_beyond_of_mem_answer hcall
    obtain ⟨-, -, -, hcall⟩ := MouseHost.calls_of_answers
      (Q := fun _ call => ∀ num, call ≠ .beyond num) hanswers hs effect heffect
    exact hcall

/-- A gauge with one rectangle that toggles a switch. -/
def switchHeader : GaugeHeader where
  size := ⟨100, 100⟩
  mouseRect := some ⟨0, [⟨.own 7, 0⟩]⟩

/-- The gauge is shown in a panel and in a popup window of the host; a client clicks once. -/
def popupRun : List (MouseAction Unit) :=
  [.setMode .host, .installGauge () switchHeader false true,
    .installGauge () switchHeader false true,
    .mouseCallback { id := () } switchHeader 0 ⟨⟨50, 50⟩, ⟨50, 50⟩⟩ 0x80000000,
    .receiveChannelPacket 0, .receive 0, .triggerAsyncCallback, .receive 1, .triggerAsyncCallback,
    .callbackAsync, .asyncCallback 0, .asyncCallback 1, .callbackAsyncDone]

/-- Both gauges answer the click, each once and as the header says. -/
theorem mouseEvents_once_popup :
    ∃ s ms, (mouseMachine Unit).run {} popupRun = some s ∧ s.packets = [((), ms)] ∧
      s.callsOf 0 0 = switchHeader.answer true ms ∧
      s.callsOf 1 0 = switchHeader.answer true ms := by
  have honce := (mouseEvents_once Unit).2.2.2.1
  have hkeeps : ∀ a ∈ popupRun, a.KeepsRects := by
    simp [popupRun, MouseAction.KeepsRects]
  have hreachable : ∀ n s, (mouseMachine Unit).run {} (popupRun.take n) = some s →
      (mouseMachine Unit).ReachableVia (fun _ a => a.KeepsRects) s := fun n s h =>
    .run (.initial rfl) (Machine.along_of_forall
      (fun a ha _ => hkeeps a (List.mem_of_mem_take ha)) _) h
  refine ⟨_, _, rfl, rfl, ?_, ?_⟩
  · refine (honce _ _ _ _ _ _ 0 [.triggerAsyncCallback, .receive 1, .triggerAsyncCallback,
      .callbackAsync] [.asyncCallback 1, .callbackAsyncDone] (hreachable 5 _ rfl) rfl rfl rfl
      (by simp [MouseAction.KeepsRects]) rfl rfl rfl).1 switchHeader true ?_ (by simp)
    exact ⟨_, _, (), false, [.installGauge () switchHeader false true, popupRun[3], popupRun[4]],
      hreachable 1 _ rfl, rfl, rfl, rfl, by simp [popupRun, MouseAction.KeepsRects]⟩
  · refine (honce _ _ _ _ _ _ 1 [.triggerAsyncCallback, .callbackAsync, .asyncCallback 0]
      [.callbackAsyncDone] (hreachable 7 _ rfl) rfl rfl rfl
      (by simp [MouseAction.KeepsRects]) rfl rfl rfl).1 switchHeader true ?_ (by simp)
    exact ⟨_, _, (), false, [popupRun[3], popupRun[4], .receive 0, .triggerAsyncCallback],
      hreachable 2 _ rfl, rfl, rfl, rfl, by simp [popupRun, MouseAction.KeepsRects]⟩

/-- One click toggles the switch twice. -/
theorem popupRun_toggles_twice :
    ∃ s, (mouseMachine Unit).run {} popupRun = some s ∧ s.packets.length = 1 ∧
      (s.calls.filterMap fun effect => match effect.call with
        | .called num cb _ _ => some (effect.packet, num, cb)
        | _ => none) = [(0, 0, .own 7), (0, 0, .own 7)] :=
  ⟨_, rfl, rfl, rfl⟩

end Multicrew.Gauge
