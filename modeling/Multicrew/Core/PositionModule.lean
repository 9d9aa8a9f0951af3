import Multicrew.Core.ChannelProtocol

/-!
# The position module

The host sends the position of its airplane; a client moves its own airplane between two packets
by extrapolating from the reference, the position received last. Until a first packet has come
there is no reference and nothing is extrapolated.

Numbers are doubles and fixed-width integers as in the source. The clock and what FSUIPC answers
are arguments: `time` gives the result of each call of `MulticrewCore::time` in one function.
-/

namespace Multicrew.Core

/-- `PositionStruct` -/
structure PositionStruct where
  timestamp : Float
  pos : Vector Int64 3
  dir : Vector Int32 3
  deriving DecidableEq

/-- What FSUIPC answers to the single entry of a position request: whether it takes the entry and
processes the request, and the bytes at `0x560`. -/
structure PositionAnswers where
  ok1 : Bool := true
  ok2 : Bool := true
  pos : Vector Int64 3 := .replicate 3 0
  dir : Vector Int32 3 := .replicate 3 0

/-- `PositionModule::Data`; `fsuipc` tells whether the pointer is set. Only `extrapolate` is set
by the constructor, the rest is whatever the memory held. -/
structure PositionModule where
  fsuipc : Bool := false
  timediff : Float
  meanLatency : Float
  lastReferenceTime : Float
  extrapolate : Bool := false
  reference : PositionStruct
  extrapolated : PositionStruct
  posVel : Vector Int64 3
  dirVel : Vector Float 3
  deriving DecidableEq

/-- What one frame does: the packet sent, the reference of an extrapolation, and the position
written into the simulator. -/
structure PositionFrame where
  state : PositionModule
  sent : Option PositionStruct := none
  reference : Option PositionStruct := none
  written : Option PositionStruct := none

/-- `x_to_lat` -/
def xToLat (x : Int64) : Float := x.toFloat * 90.0 / (10001750.0 * 65536.0 * 65536.0)

/-- `y_to_lon` -/
def yToLon (y : Int64) : Float :=
  y.toFloat * 360.0 / (65536.0 * 65536.0 * 65536.0 * 65536.0)

/-- `z_to_m` -/
def zToM (z : Int64) : Float := z.toFloat * 1.0 / (65536.0 * 65536.0)

/-- `dlat_to_m` -/
def dlatToM (dlat : Float) : Float := dlat * 40076592.0 / 360.0

/-- `dlon_to_m` -/
def dlonToM (dlon lat : Float) : Float := dlon / 360.0 * 40076592.0 * Float.cos lat

/-- `sqr` -/
def sqr (x : Float) : Float := x * x

/-- `dir_to_deg` -/
def dirToDeg (dir : Int32) : Float := dir.toInt64.toFloat / 65536.0 / 65536.0 * 360.0

/-- One of the two loops of `deg_to_dir`, at most `turns` times around. -/
def wrapDegrees (turns : ℕ) (again : Float → Bool) (turn : Float → Float) (deg : Float) : Float :=
  match turns with
  | 0 => deg
  | turns + 1 => if again deg then wrapDegrees turns again turn (turn deg) else deg

/-- `deg_to_dir`. On an infinite argument the loops of the source do not end; `turns` bounds
them. -/
def degToDir (turns : ℕ) (deg : Float) : Int64 :=
  let deg := wrapDegrees turns (fun deg => deg > 180.0) (fun deg => deg - 360.0) deg
  let deg := wrapDegrees turns (fun deg => deg ≤ -180.0) (fun deg => deg + 360.0) deg
  (deg / 360.0 * 65536.0 * 65536.0).toInt64

namespace PositionModule

variable (d : PositionModule)

/-- `start`: the pointer is set. -/
def start : PositionModule := { d with fsuipc := true }

/-- The position extrapolated to the time `now`. -/
def extrapolateTo (turns : ℕ) (now : Float) : PositionStruct :=
  let ago := now - d.lastReferenceTime
  { d.extrapolated with
    pos := .ofFn fun x => d.reference.pos[x] + (ago * d.posVel[x].toFloat).toInt64
    dir := .ofFn fun x =>
      (degToDir turns (dirToDeg d.reference.dir[x] + ago * d.dirVel[x])).toInt32 }

/-- `PositionModule::frameCallback` -/
def frameCallback (turns : ℕ) (mode : Mode) (time : ℕ → Float) (answers : PositionAnswers) :
    PositionFrame :=
  match mode with
  | .idle => { state := { d with extrapolate := false } }
  | .host =>
    if d.fsuipc then
      let d := { d with extrapolate := false }
      let timeSinceLastPacket := time 0 - d.lastReferenceTime
      if timeSinceLastPacket > 150.0 / 1000.0 then
        if !answers.ok1 || !answers.ok2 then { state := d }
        else
          { state := { d with lastReferenceTime := time 2 }
            sent := some ⟨time 1, answers.pos, answers.dir⟩ }
      else { state := d }
    else { state := d }
  | .client =>
    if d.fsuipc then
      if d.extrapolate then
        let value := d.extrapolateTo turns (time 0)
        { state := { d with extrapolated := value }
          reference := some d.reference
          written := if answers.ok1 && answers.ok2 then some value else none }
      else { state := d }
    else { state := d }

/-- The speeds after a packet that is no jump. -/
def speeds (newPos : PositionStruct) (latency : Float) : Vector Int64 3 × Vector Float 3 :=
  let dt := newPos.timestamp - d.reference.timestamp
  (.ofFn fun x =>
      let moved := (newPos.pos[x] - d.reference.pos[x]).toFloat
      (moved / dt
        + ((newPos.pos[x] - d.extrapolated.pos[x]).toFloat + moved / dt * latency)).toInt64,
    .ofFn fun x =>
      let ddir := dirToDeg newPos.dir[x] - dirToDeg d.reference.dir[x]
      let ddir := if ddir > 180.0 then ddir - 360.0 else ddir
      let ddir := if ddir ≤ -180.0 then ddir + 360.0 else ddir
      ddir / dt
        + (dirToDeg newPos.dir[x] + ddir / dt * latency - dirToDeg d.extrapolated.dir[x]))

/-- The speed in metres per second the packet asks for. -/
def velocity (newPos : PositionStruct) : Float :=
  let dlat := xToLat (newPos.pos[0] - d.reference.pos[0])
  let dlon := yToLon (newPos.pos[1] - d.reference.pos[1])
  let dalt := zToM (newPos.pos[2] - d.reference.pos[2])
  let dist := Float.sqrt
    (sqr (dlatToM dlat) + sqr (dlonToM dlon (xToLat newPos.pos[0])) + sqr dalt)
  dist / (newPos.timestamp - d.reference.timestamp)

/-- A packet after the first one becomes the reference; after a jump the plane is taken to rest. -/
def activate (now latency : Float) (newPos : PositionStruct) : PositionModule :=
  if d.velocity newPos * 3.6 > 10000.0 then
    { d with
      posVel := .replicate 3 0
      dirVel := .replicate 3 0.0
      reference := newPos
      extrapolated := newPos }
  else
    { d with
      posVel := (d.speeds newPos latency).1
      dirVel := (d.speeds newPos latency).2
      reference := newPos
      lastReferenceTime := now }

/-- `PositionModule::receive` -/
def receive (mode : Mode) (time : ℕ → Float) (newPos : PositionStruct) : PositionModule :=
  match mode with
  | .idle => d
  | .host => d
  | .client =>
    if !d.extrapolate then
      { d with
        timediff := time 1 - newPos.timestamp
        meanLatency := 0.0
        extrapolate := true
        posVel := .replicate 3 0
        dirVel := .replicate 3 0.0
        reference := newPos
        extrapolated := newPos }
    else
      let correctedNow := time 1 - d.timediff
      let latency := correctedNow - newPos.timestamp
      let d := { d with
        timediff := d.timediff + latency / 10.0
        meanLatency :=
          (d.meanLatency * 9.0 + if latency < 0.0 then -latency else latency) / 10.0 }
      d.activate (time 0) latency newPos

/-- The active position is the reference. -/
theorem activate_eq (now latency : Float) (newPos : PositionStruct) :
    (d.activate now latency newPos).extrapolate = d.extrapolate ∧
      (d.activate now latency newPos).reference = newPos ∧
      (d.activate now latency newPos).fsuipc = d.fsuipc := by
  unfold activate
  split <;> exact ⟨rfl, rfl, rfl⟩

/-- On a client a received position is the reference, whatever was before. -/
theorem receive_client (time : ℕ → Float) (newPos : PositionStruct) :
    (d.receive .client time newPos).extrapolate = true ∧
      (d.receive .client time newPos).reference = newPos := by
  unfold receive
  cases hextrapolate : d.extrapolate with
  | false => exact ⟨rfl, rfl⟩
  | true =>
    simp only [Bool.not_true, Bool.false_eq_true, if_false]
    exact ⟨(activate_eq _ _ _ newPos).1, (activate_eq _ _ _ newPos).2.1⟩

/-- A packet keeps the connection to FSUIPC. -/
theorem receive_fsuipc (mode : Mode) (time : ℕ → Float) (newPos : PositionStruct) :
    (d.receive mode time newPos).fsuipc = d.fsuipc := by
  unfold receive
  cases mode with
  | idle => rfl
  | host => rfl
  | client =>
    simp only
    split
    · rfl
    · exact (activate_eq _ _ _ newPos).2.2

/-- A frame keeps the connection to FSUIPC and the reference. -/
theorem frameCallback_keeps (turns : ℕ) (mode : Mode) (time : ℕ → Float)
    (answers : PositionAnswers) :
    (d.frameCallback turns mode time answers).state.fsuipc = d.fsuipc ∧
      (d.frameCallback turns mode time answers).state.reference = d.reference := by
  unfold frameCallback
  cases mode with
  | idle => exact ⟨rfl, rfl⟩
  | host =>
    simp only
    split
    · split
      · split <;> exact ⟨rfl, rfl⟩
      · exact ⟨rfl, rfl⟩
    · exact ⟨rfl, rfl⟩
  | client =>
    simp only
    split
    · split <;> exact ⟨rfl, rfl⟩
    · exact ⟨rfl, rfl⟩

/-- With FSUIPC connected a frame extrapolates on a client, if a position has been received, and
otherwise ends the extrapolation. -/
theorem frameCallback_extrapolates (hfsuipc : d.fsuipc = true) (turns : ℕ) (mode : Mode)
    (time : ℕ → Float) (answers : PositionAnswers) :
    (d.frameCallback turns mode time answers).state.extrapolate =
        (d.extrapolate && mode == .client) ∧
      (d.frameCallback turns mode time answers).reference =
        if d.extrapolate && mode == .client then some d.reference else none := by
  unfold frameCallback
  cases mode with
  | idle => simp
  | host =>
    simp only [hfsuipc, if_true]
    split
    · split <;> simp
    · simp
  | client =>
    cases hextrapolate : d.extrapolate with
    | false => simp [hfsuipc, hextrapolate]
    | true => simp [hfsuipc]

end PositionModule

end Multicrew.Core
