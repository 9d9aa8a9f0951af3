import Mathlib.Analysis.Real.Pi.Irrational
import Mathlib.Data.Rat.Floor
import Multicrew.Core.PositionModule
import Multicrew.Library.Machine

/-!
# The speeds of the position module

The position module once more, with times and degrees as exact rational numbers. Distances are real,
since they need `sqrt` and `cos`. A packet that is not the first one divides by the time since the
reference, unless the speed it asks for is too high. The speed of a packet that is older than the
reference is negative, so it is never too high, and the one of a packet that repeats the reference is
no number.

What the conversion of a number that does not fit into an `__int64` gives is not defined by the
language, so it is a parameter.
-/

namespace Multicrew.Core.Exact

open Multicrew.Library

/-- `PositionStruct` -/
structure PositionStruct where
  timestamp : ℚ
  pos : Vector Int64 3
  dir : Vector Int32 3
  deriving DecidableEq

/-- `PositionModule::Data`; `fsuipc` tells whether the pointer is set. -/
structure PositionModule where
  fsuipc : Bool
  timediff : ℚ
  meanLatency : ℚ
  lastReferenceTime : ℚ
  extrapolate : Bool
  reference : PositionStruct
  extrapolated : PositionStruct
  posVel : Vector Int64 3
  dirVel : Vector ℚ 3
  deriving DecidableEq

/-- What one frame does: the packet sent, and the position written into the simulator. -/
structure PositionFrame where
  state : PositionModule
  sent : Option PositionStruct := none
  written : Option (Vector Int64 3 × Vector Int32 3) := none

/-- What one packet does: the number by which distances are divided to get the speeds, and the state.
There is no state behind a division by zero. -/
structure PositionReceipt where
  state : Option PositionModule
  divisor : Option ℚ := none

/-- `x_to_lat` -/
def xToLat (x : Int64) : ℚ := x.toInt * 90 / (10001750 * 65536 * 65536)

/-- `y_to_lon` -/
def yToLon (y : Int64) : ℚ := y.toInt * 360 / (65536 * 65536 * 65536 * 65536)

/-- `z_to_m` -/
def zToM (z : Int64) : ℚ := z.toInt * 1 / (65536 * 65536)

/-- `dlat_to_m` -/
def dlatToM (dlat : ℚ) : ℚ := dlat * 40076592 / 360

/-- `dlon_to_m`, with the real cosine. -/
noncomputable def dlonToM (dlon lat : ℚ) : ℝ := (dlon / 360 * 40076592 : ℚ) * Real.cos lat

/-- `sqr` -/
def sqr (x : ℝ) : ℝ := x * x

/-- `dir_to_deg` -/
def dirToDeg (dir : Int32) : ℚ := dir.toInt / 65536 / 65536 * 360

/-- The conversion of a `double` to an integer. -/
def truncate (x : ℚ) : ℤ := if x < 0 then ⌈x⌉ else ⌊x⌋

/-- The conversion of a `double` to an `__int64`. -/
def toInt64 (outOfRange : ℚ → Int64) (x : ℚ) : Int64 :=
  if -2 ^ 63 ≤ truncate x ∧ truncate x < 2 ^ 63 then .ofInt (truncate x) else outOfRange x

/-- The first loop of `deg_to_dir`, at most `turns` times around. -/
def wrapDown : ℕ → ℚ → ℚ
  | 0, deg => deg
  | turns + 1, deg => if deg > 180 then wrapDown turns (deg - 360) else deg

/-- The second loop of `deg_to_dir`, at most `turns` times around. -/
def wrapUp : ℕ → ℚ → ℚ
  | 0, deg => deg
  | turns + 1, deg => if deg ≤ -180 then wrapUp turns (deg + 360) else deg

/-- Both loops of `deg_to_dir`. -/
def wrapDegrees (deg : ℚ) : ℚ :=
  let turns := ⌈|deg| / 360⌉.toNat
  wrapUp turns (wrapDown turns deg)

/-- `deg_to_dir` -/
def degToDir (outOfRange : ℚ → Int64) (deg : ℚ) : Int64 :=
  toInt64 outOfRange (wrapDegrees deg / 360 * 65536 * 65536)

namespace PositionModule

variable (outOfRange : ℚ → Int64) (d : PositionModule)

/-- `start`: the pointer is set. -/
def start : PositionModule := { d with fsuipc := true }

/-- The position extrapolated to the time `now`. -/
def extrapolateTo (now : ℚ) : PositionStruct :=
  let ago := now - d.lastReferenceTime
  { d.extrapolated with
    pos := .ofFn fun x => d.reference.pos.get x + toInt64 outOfRange (ago * (d.posVel.get x).toInt)
    dir := .ofFn fun x =>
      (degToDir outOfRange
        (dirToDeg (d.reference.dir.get x) + ago * d.dirVel.get x)).toInt32 }

/-- `PositionModule::frameCallback` -/
def frameCallback (mode : Mode) (time : ℕ → ℚ) (answers : PositionAnswers) : PositionFrame :=
  match mode with
  | .idle => { state := { d with extrapolate := false } }
  | .host =>
    if d.fsuipc then
      let d := { d with extrapolate := false }
      let timeSinceLastPacket := time 0 - d.lastReferenceTime
      if timeSinceLastPacket > 150 / 1000 then
        if !answers.ok1 || !answers.ok2 then { state := d }
        else
          { state := { d with lastReferenceTime := time 2 }
            sent := some ⟨time 1, answers.pos, answers.dir⟩ }
      else { state := d }
    else { state := d }
  | .client =>
    if d.fsuipc then
      if d.extrapolate then
        let value := d.extrapolateTo outOfRange (time 0)
        { state := { d with extrapolated := value }
          written := if answers.ok1 && answers.ok2 then some (value.pos, value.dir) else none }
      else { state := d }
    else { state := d }

/-- The time between the reference and a packet. -/
def timestampDifference (newPos : PositionStruct) : ℚ :=
  newPos.timestamp - d.reference.timestamp

/-- The speeds after a packet that is no jump. -/
def speeds (newPos : PositionStruct) (latency : ℚ) : Vector Int64 3 × Vector ℚ 3 :=
  let dt := d.timestampDifference newPos
  (.ofFn fun x =>
      let moved : ℚ := (newPos.pos.get x - d.reference.pos.get x).toInt
      toInt64 outOfRange (moved / dt
        + ((newPos.pos.get x - d.extrapolated.pos.get x).toInt + moved / dt * latency)),
    .ofFn fun x =>
      let ddir := dirToDeg (newPos.dir.get x) - dirToDeg (d.reference.dir.get x)
      let ddir := if ddir > 180 then ddir - 360 else ddir
      let ddir := if ddir ≤ -180 then ddir + 360 else ddir
      ddir / dt
        + (dirToDeg (newPos.dir.get x) + ddir / dt * latency
          - dirToDeg (d.extrapolated.dir.get x)))

/-- The distance between the reference and a packet, in metres. -/
noncomputable def dist (newPos : PositionStruct) : ℝ :=
  let dlat := xToLat (newPos.pos.get 0 - d.reference.pos.get 0)
  let dlon := yToLon (newPos.pos.get 1 - d.reference.pos.get 1)
  let dalt := zToM (newPos.pos.get 2 - d.reference.pos.get 2)
  √(sqr (dlatToM dlat) + sqr (dlonToM dlon (xToLat (newPos.pos.get 0))) + sqr dalt)

/-- `vel*3.6>10000`. Over no time the speed of a distance is infinite, and the speed of no distance is
no number. -/
def Jumped (newPos : PositionStruct) : Prop :=
  if d.timestampDifference newPos = 0 then 0 < d.dist newPos
  else d.dist newPos / d.timestampDifference newPos * 3.6 > 10000

/-- The plane is taken to rest at a packet. -/
def rest (newPos : PositionStruct) : PositionModule :=
  { d with
    posVel := .replicate 3 0
    dirVel := .replicate 3 0
    reference := newPos
    extrapolated := newPos }

/-- A packet after the first one becomes the reference, with the plane at rest if it jumped. -/
def activate (jumped : Bool) (now latency : ℚ) (newPos : PositionStruct) : PositionReceipt :=
  if jumped then { state := some (d.rest newPos) }
  else
    let dt := d.timestampDifference newPos
    { state :=
        if dt = 0 then none
        else some
          { d with
            posVel := (d.speeds outOfRange newPos latency).1
            dirVel := (d.speeds outOfRange newPos latency).2
            reference := newPos
            lastReferenceTime := now }
      divisor := some dt }

/-- The difference between the clocks is corrected by a tenth of the latency. -/
def correct (latency : ℚ) : PositionModule :=
  { d with
    timediff := d.timediff + latency / 10
    meanLatency := (d.meanLatency * 9 + if latency < 0 then -latency else latency) / 10 }

open Classical in
/-- `PositionModule::receive` -/
noncomputable def receive (mode : Mode) (time : ℕ → ℚ) (newPos : PositionStruct) : PositionReceipt :=
  match mode with
  | .idle => { state := some d }
  | .host => { state := some d }
  | .client =>
    if !d.extrapolate then
      let d := { d with
        timediff := time 1 - newPos.timestamp
        meanLatency := 0
        extrapolate := true }
      { state := some (d.rest newPos) }
    else
      let correctedNow := time 1 - d.timediff
      let latency := correctedNow - newPos.timestamp
      let d := d.correct latency
      d.activate outOfRange (decide (d.Jumped newPos)) (time 0) latency newPos

end PositionModule

/-! ### Directions -/

/-- Enough turns end the first loop. -/
theorem wrapDown_le {turns : ℕ} {deg : ℚ} (h : deg ≤ 180 + 360 * turns) :
    wrapDown turns deg ≤ 180 := by
  induction turns generalizing deg with
  | zero => simpa [wrapDown] using h
  | succ turns ih =>
    rw [wrapDown]
    split
    · apply ih
      push_cast at h
      linarith
    · rename_i hle
      exact not_lt.mp hle

/-- The first loop does not go down too far. -/
theorem wrapDown_eq_or (turns : ℕ) (deg : ℚ) :
    wrapDown turns deg = deg ∨ -180 < wrapDown turns deg := by
  induction turns generalizing deg with
  | zero => exact .inl rfl
  | succ turns ih =>
    rw [wrapDown]
    split
    · cases ih (deg - 360) with
      | inl heq =>
        right
        linarith
      | inr hlow => exact .inr hlow
    · exact .inl rfl

/-- Enough turns end the second loop, and it does not go up too far. -/
theorem wrapUp_mem {turns : ℕ} {deg : ℚ} (h : -180 - 360 * turns < deg) (hle : deg ≤ 180) :
    -180 < wrapUp turns deg ∧ wrapUp turns deg ≤ 180 := by
  induction turns generalizing deg with
  | zero => exact ⟨by simpa [wrapUp] using h, hle⟩
  | succ turns ih =>
    rw [wrapUp]
    split
    · apply ih
      · push_cast at h
        linarith
      · linarith
    · rename_i hlow
      exact ⟨not_le.mp hlow, hle⟩

/-- The turns that are allowed are enough: both loops of `deg_to_dir` have ended. -/
theorem wrapDegrees_mem (deg : ℚ) : -180 < wrapDegrees deg ∧ wrapDegrees deg ≤ 180 := by
  have hceil := Int.le_ceil (|deg| / 360)
  have hturns : (⌈|deg| / 360⌉ : ℚ) ≤ (⌈|deg| / 360⌉.toNat : ℚ) := by
    exact_mod_cast Int.self_le_toNat _
  have habs : |deg| ≤ 360 * (⌈|deg| / 360⌉.toNat : ℚ) := by linarith
  have hupper := le_abs_self deg
  have hlower := neg_abs_le deg
  have hturns_nonneg : (0 : ℚ) ≤ (⌈|deg| / 360⌉.toNat : ℚ) := Nat.cast_nonneg _
  apply wrapUp_mem
  · cases wrapDown_eq_or ⌈|deg| / 360⌉.toNat deg with
    | inl heq => linarith
    | inr hlow => linarith
  · apply wrapDown_le
    linarith

/-- A whole number that fits is converted to itself. -/
theorem toInt64_intCast (outOfRange : ℚ → Int64) {n : ℤ} (h : -2 ^ 63 ≤ n ∧ n < 2 ^ 63) :
    toInt64 outOfRange n = .ofInt n := by
  have htruncate : truncate n = n := by
    rw [truncate, Int.ceil_intCast, Int.floor_intCast, ite_self]
  rw [toInt64, htruncate, if_pos h]

/-- Degrees inside a half turn stay as they are. -/
theorem wrapDegrees_of_mem {deg : ℚ} (h : -180 < deg) (h' : deg ≤ 180) : wrapDegrees deg = deg := by
  have hdown : wrapDown ⌈|deg| / 360⌉.toNat deg = deg := by
    cases ⌈|deg| / 360⌉.toNat with
    | zero => rfl
    | succ turns => rw [wrapDown, if_neg (not_lt.mpr h')]
  have hup : wrapUp ⌈|deg| / 360⌉.toNat deg = deg := by
    cases ⌈|deg| / 360⌉.toNat with
    | zero => rfl
    | succ turns => rw [wrapUp, if_neg (not_le.mpr h)]
  simp only [wrapDegrees, hdown, hup]

/-- A half turn to the left is one to the right. -/
theorem wrapDegrees_neg_half : wrapDegrees (-180) = 180 := by
  have hturns : ⌈|(-180 : ℚ)| / 360⌉.toNat = 1 := by
    have habs : |(-180 : ℚ)| / 360 = 1 / 2 := by norm_num [abs_of_neg]
    rw [habs]
    norm_num
  simp only [wrapDegrees, hturns]
  norm_num [wrapDown, wrapUp]

/-- A direction is read back from its degrees. The lowest one comes back over the highest number of
degrees, which is one too many for it. -/
theorem degToDir_dirToDeg (outOfRange : ℚ → Int64) (dir : Int32) :
    (degToDir outOfRange (dirToDeg dir)).toInt32 = dir := by
  have hlow := dir.le_toInt
  have hhigh := dir.toInt_lt
  by_cases hmin : dir.toInt = -2 ^ 31
  · have hdir : dir = Int32.ofInt (-2 ^ 31) := by
      rw [← hmin, Int32.ofInt_toInt]
    have hdeg : dirToDeg dir = -180 := by
      rw [dirToDeg, hmin]
      norm_num
    have hvalue : (180 : ℚ) / 360 * 65536 * 65536 = ((2 ^ 31 : ℤ) : ℚ) := by norm_num
    rw [degToDir, hdeg, wrapDegrees_neg_half, hvalue, toInt64_intCast _ (by norm_num), hdir]
    decide
  · have hcast : (-2 ^ 31 : ℚ) < dir.toInt := by
      exact_mod_cast lt_of_le_of_ne hlow (Ne.symm hmin)
    have hcast' : (dir.toInt : ℚ) < 2 ^ 31 := by exact_mod_cast hhigh
    have hdeg : dirToDeg dir = dir.toInt * (180 / 2 ^ 31) := by
      rw [dirToDeg]
      ring
    have hlower : -180 < dirToDeg dir := by
      rw [hdeg]
      linarith
    have hupper : dirToDeg dir ≤ 180 := by
      rw [hdeg]
      linarith
    have hvalue : dirToDeg dir / 360 * 65536 * 65536 = (dir.toInt : ℚ) := by
      rw [hdeg]
      ring
    rw [degToDir, wrapDegrees_of_mem hlower hupper, hvalue, toInt64_intCast _ (by omega),
      Int64.toInt32_ofInt, Int32.ofInt_toInt]

/-! ### Frames -/

namespace PositionModule

variable {outOfRange : ℚ → Int64} {d d' : PositionModule} {newPos : PositionStruct}

/-- The plane is at rest at the reference. -/
structure RestsAt (d : PositionModule) (p : PositionStruct) : Prop where
  posVel : d.posVel = .replicate 3 0
  dirVel : d.dirVel = .replicate 3 0
  reference : d.reference = p

/-- All elements of a vector that repeats one are this one. -/
theorem get_replicate {α : Type} (a : α) (x : Fin 3) : (Vector.replicate 3 a).get x = a :=
  Vector.getElem_replicate x.isLt

/-- A plane at rest is extrapolated to its reference. -/
theorem RestsAt.extrapolateTo {p : PositionStruct} (h : d.RestsAt p) (outOfRange : ℚ → Int64)
    (now : ℚ) :
    (d.extrapolateTo outOfRange now).pos = p.pos ∧ (d.extrapolateTo outOfRange now).dir = p.dir := by
  constructor
  · apply Vector.ext
    intro x hx
    have hzero : toInt64 outOfRange 0 = 0 := by
      have hcast := @toInt64_intCast outOfRange 0 (by norm_num)
      exact_mod_cast hcast
    simp only [PositionModule.extrapolateTo, Vector.getElem_ofFn, h.posVel, h.reference,
      get_replicate, Int64.toInt_zero, Int.cast_zero, mul_zero, hzero, Int64.add_zero]
    rfl
  · apply Vector.ext
    intro x hx
    simp only [PositionModule.extrapolateTo, Vector.getElem_ofFn, h.dirVel, h.reference,
      get_replicate, mul_zero, add_zero, degToDir_dirToDeg]
    rfl

/-- No frame changes the speeds or the reference. -/
theorem RestsAt.frameCallback {p : PositionStruct} (h : d.RestsAt p) (mode : Mode) (time : ℕ → ℚ)
    (answers : PositionAnswers) : (d.frameCallback outOfRange mode time answers).state.RestsAt p := by
  unfold PositionModule.frameCallback
  cases mode with
  | idle => exact ⟨h.posVel, h.dirVel, h.reference⟩
  | host =>
    simp only
    split
    · split
      · split
        · exact ⟨h.posVel, h.dirVel, h.reference⟩
        · exact ⟨h.posVel, h.dirVel, h.reference⟩
      · exact ⟨h.posVel, h.dirVel, h.reference⟩
    · exact h
  | client =>
    simp only
    split
    · split
      · exact ⟨h.posVel, h.dirVel, h.reference⟩
      · exact h
    · exact h

/-- With the plane at rest at a position, frames on a client write exactly this position. -/
theorem RestsAt.written {p : PositionStruct} (h : d.RestsAt p) (mode : Mode) (time : ℕ → ℚ)
    (answers : PositionAnswers) :
    (d.frameCallback outOfRange mode time answers).written =
      if mode = .client ∧ d.fsuipc ∧ d.extrapolate ∧ answers.ok1 ∧ answers.ok2 then
        some (p.pos, p.dir)
      else none := by
  obtain ⟨hpos, hdir⟩ := h.extrapolateTo outOfRange (time 0)
  cases mode with
  | idle => rfl
  | host =>
    simp only [PositionModule.frameCallback, reduceCtorEq, false_and, if_false]
    split
    · split
      · split
        · rfl
        · rfl
      · rfl
    · rfl
  | client =>
    simp only [PositionModule.frameCallback, true_and, hpos, hdir]
    cases d.fsuipc with
    | false => rfl
    | true =>
      cases d.extrapolate with
      | false => rfl
      | true => simp

/-! ### Jumps -/

/-- The cosine of a rational number is not zero. -/
theorem cos_ne_zero (q : ℚ) : Real.cos q ≠ 0 := by
  intro hcos
  obtain ⟨k, hk⟩ := Real.cos_eq_zero_iff.mp hcos
  have hodd : ((2 * k + 1 : ℤ) : ℝ) ≠ 0 := by
    exact_mod_cast (by omega : 2 * k + 1 ≠ 0)
  have hpi : Real.pi = ((2 * q / (2 * k + 1 : ℤ) : ℚ) : ℝ) := by
    push_cast at hodd ⊢
    field_simp
    linarith
  exact irrational_pi ⟨_, hpi.symm⟩

/-- A distance is not negative. -/
theorem dist_nonneg (d : PositionModule) (newPos : PositionStruct) : 0 ≤ d.dist newPos :=
  Real.sqrt_nonneg _

/-- A difference of coordinates wraps around, but it is zero only between equal ones. -/
theorem toInt_sub_eq_zero_iff (a b : Int64) : ((a - b).toInt : ℚ) = 0 ↔ a = b := by
  rw [Int.cast_eq_zero, ← Int64.toInt_zero, Int64.toInt_inj]
  constructor
  · intro h
    have hback : a - b + b = a := Int64.sub_add_cancel a b
    rw [← hback, h, Int64.zero_add]
  · rintro rfl
    exact Int64.sub_self a

/-- There is no distance to the north exactly if the latitudes are equal. -/
theorem lat_eq_zero_iff (a b : Int64) :
    ((dlatToM (xToLat (a - b)) : ℚ) : ℝ) = 0 ↔ a = b := by
  rw [Rat.cast_eq_zero, ← toInt_sub_eq_zero_iff, dlatToM, xToLat]
  simp

/-- There is no distance to the east exactly if the longitudes are equal. -/
theorem lon_eq_zero_iff (a b : Int64) (lat : ℚ) :
    dlonToM (yToLon (a - b)) lat = 0 ↔ a = b := by
  rw [dlonToM, mul_eq_zero, or_iff_left (cos_ne_zero lat), Rat.cast_eq_zero,
    ← toInt_sub_eq_zero_iff, yToLon]
  simp

/-- There is no distance upwards exactly if the altitudes are equal. -/
theorem alt_eq_zero_iff (a b : Int64) : ((zToM (a - b) : ℚ) : ℝ) = 0 ↔ a = b := by
  rw [Rat.cast_eq_zero, ← toInt_sub_eq_zero_iff, zToM]
  simp

/-- There is no distance exactly if the packet repeats the position of the reference. -/
theorem dist_eq_zero_iff : d.dist newPos = 0 ↔ newPos.pos = d.reference.pos := by
  have hsqr : ∀ x : ℝ, 0 ≤ sqr x := fun x => mul_self_nonneg x
  have hzero : ∀ x : ℝ, sqr x = 0 ↔ x = 0 := fun x => mul_self_eq_zero
  rw [dist, Real.sqrt_eq_zero (add_nonneg (add_nonneg (hsqr _) (hsqr _)) (hsqr _)),
    add_eq_zero_iff_of_nonneg (add_nonneg (hsqr _) (hsqr _)) (hsqr _),
    add_eq_zero_iff_of_nonneg (hsqr _) (hsqr _), hzero, hzero, hzero, lat_eq_zero_iff,
    lon_eq_zero_iff, alt_eq_zero_iff]
  constructor
  · rintro ⟨⟨h0, h1⟩, h2⟩
    apply Vector.ext
    intro x hx
    match x, hx with
    | 0, _ => exact h0
    | 1, _ => exact h1
    | 2, _ => exact h2
  · intro h
    rw [h]
    exact ⟨⟨rfl, rfl⟩, rfl⟩

/-- Back in time no speed is too high. -/
theorem not_jumped_of_neg (h : d.timestampDifference newPos < 0) : ¬ d.Jumped newPos := by
  rw [Jumped, if_neg h.ne]
  have hdiff : (d.timestampDifference newPos : ℝ) < 0 := by exact_mod_cast h
  have hvel : d.dist newPos / d.timestampDifference newPos ≤ 0 :=
    div_nonpos_of_nonneg_of_nonpos (d.dist_nonneg newPos) hdiff.le
  linarith

/-- Over no time every distance is a jump. -/
theorem jumped_iff_of_zero (h : d.timestampDifference newPos = 0) :
    d.Jumped newPos ↔ newPos.pos ≠ d.reference.pos := by
  rw [Jumped, if_pos h, Ne, ← dist_eq_zero_iff]
  exact (d.dist_nonneg newPos).lt_iff_ne'

/-! ### Packets -/

/-- A module put to rest at a packet rests there. -/
theorem restsAt_rest (d : PositionModule) (newPos : PositionStruct) : (d.rest newPos).RestsAt newPos :=
  ⟨rfl, rfl, rfl⟩

/-- The first packet takes the plane to rest. -/
theorem receive_first (outOfRange : ℚ → Int64) (h : d.extrapolate = false) (time : ℕ → ℚ)
    (newPos : PositionStruct) :
    (d.receive outOfRange .client time newPos).divisor = none ∧
      ∃ d', (d.receive outOfRange .client time newPos).state = some d' ∧ d'.RestsAt newPos := by
  simp only [receive, h, Bool.not_false, if_true, true_and]
  exact ⟨_, rfl, restsAt_rest _ newPos⟩

/-- A packet after the first one is activated behind the correction, which leaves the reference. -/
theorem receive_activate (outOfRange : ℚ → Int64) (h : d.extrapolate = true) (time : ℕ → ℚ)
    (newPos : PositionStruct) :
    ∃ jumped, (jumped = true ↔ d.Jumped newPos) ∧ d.receive outOfRange .client time newPos =
      (d.correct (time 1 - d.timediff - newPos.timestamp)).activate outOfRange jumped (time 0)
        (time 1 - d.timediff - newPos.timestamp) newPos := by
  classical
  refine ⟨decide (d.Jumped newPos), decide_eq_true_iff, ?_⟩
  simp only [receive, h, Bool.not_true, Bool.false_eq_true, if_false]
  rfl

/-- A jump takes the plane to rest. -/
theorem receive_jumped (outOfRange : ℚ → Int64) (h : d.extrapolate = true)
    (hjumped : d.Jumped newPos) (time : ℕ → ℚ) :
    (d.receive outOfRange .client time newPos).divisor = none ∧
      ∃ d', (d.receive outOfRange .client time newPos).state = some d' ∧ d'.RestsAt newPos := by
  obtain ⟨jumped, hiff, hreceive⟩ := receive_activate outOfRange h time newPos
  rw [hreceive, activate, if_pos (hiff.mpr hjumped)]
  exact ⟨rfl, _, rfl, restsAt_rest _ newPos⟩

/-- Every other packet divides by the time since the reference. -/
theorem receive_moved (h : d.extrapolate = true) (hjumped : ¬ d.Jumped newPos) (time : ℕ → ℚ) :
    (d.receive outOfRange .client time newPos).divisor = some (d.timestampDifference newPos) := by
  obtain ⟨jumped, hiff, hreceive⟩ := receive_activate outOfRange h time newPos
  rw [hreceive, activate, if_neg (hiff.not.mpr hjumped)]
  rfl

/-- The packets for which the plane has to be at rest: the first one, one that is not later than the
reference, and one that asks for a speed above 10000 km/h. -/
def Unreasonable (d : PositionModule) (newPos : PositionStruct) : Prop :=
  d.extrapolate = false ∨ d.timestampDifference newPos ≤ 0 ∨
    10000 < d.dist newPos / d.timestampDifference newPos * 3.6

/-- A packet divides by a positive time, or the plane is at rest behind it. -/
def ShowsPacket (outOfRange : ℚ → Int64) (d : PositionModule) (time : ℕ → ℚ) (newPos : PositionStruct) : Prop :=
  (∀ dt, (d.receive outOfRange .client time newPos).divisor = some dt → 0 < dt) ∧
    (d.Unreasonable newPos → (d.receive outOfRange .client time newPos).divisor = none ∧
      ∃ d', (d.receive outOfRange .client time newPos).state = some d' ∧ d'.RestsAt newPos)

/-- The packet is the first one, or it is later than the reference, or it has the timestamp of the
reference and another position. -/
def ProperPacket (d : PositionModule) (newPos : PositionStruct) : Prop :=
  d.extrapolate = true →
    0 < d.timestampDifference newPos ∨
      d.timestampDifference newPos = 0 ∧ newPos.pos ≠ d.reference.pos

/-- A plane that is taken to rest does not move over any time. -/
theorem showsPacket_of_rests {time : ℕ → ℚ}
    (h : (d.receive outOfRange .client time newPos).divisor = none ∧
      ∃ d', (d.receive outOfRange .client time newPos).state = some d' ∧ d'.RestsAt newPos) :
    d.ShowsPacket outOfRange time newPos := by
  constructor
  · intro dt hdt
    rw [h.1] at hdt
    cases hdt
  · intro _
    exact h

/-- Over positive time only a jump is unreasonable. -/
theorem Unreasonable.jumped (h : d.Unreasonable newPos) (hextrapolate : d.extrapolate = true)
    (hpos : 0 < d.timestampDifference newPos) : d.Jumped newPos := by
  rw [Jumped, if_neg hpos.ne']
  obtain hfirst | hle | hfast := h
  · rw [hextrapolate] at hfirst
    cases hfirst
  · exact absurd hpos (not_lt.mpr hle)
  · exact hfast

/-- Only for proper packets the plane moves over positive time, and rests otherwise. -/
theorem showsPacket_iff (outOfRange : ℚ → Int64) (time : ℕ → ℚ) :
    d.ShowsPacket outOfRange time newPos ↔ d.ProperPacket newPos := by
  cases hextrapolate : d.extrapolate with
  | false =>
    apply iff_of_true
    · exact showsPacket_of_rests (receive_first outOfRange hextrapolate time newPos)
    · intro htrue
      rw [hextrapolate] at htrue
      cases htrue
  | true =>
    constructor
    · intro hshows _
      by_cases hjumped : d.Jumped newPos
      · obtain hneg | hzero | hpos := lt_trichotomy (d.timestampDifference newPos) 0
        · exact absurd hjumped (not_jumped_of_neg hneg)
        · exact .inr ⟨hzero, (jumped_iff_of_zero hzero).mp hjumped⟩
        · exact .inl hpos
      · exact .inl (hshows.1 _ (receive_moved hextrapolate hjumped time))
    · intro hproper
      by_cases hjumped : d.Jumped newPos
      · exact showsPacket_of_rests (receive_jumped outOfRange hextrapolate hjumped time)
      · have hpos : 0 < d.timestampDifference newPos := by
          cases hproper hextrapolate with
          | inl hpos => exact hpos
          | inr hzero => exact absurd ((jumped_iff_of_zero hzero.1).mpr hzero.2) hjumped
        constructor
        · intro dt hdt
          rw [receive_moved hextrapolate hjumped time] at hdt
          exact Option.some.inj hdt ▸ hpos
        · intro hunreasonable
          exact absurd (hunreasonable.jumped hextrapolate hpos) hjumped

end PositionModule

/-! ### Sequences of packets and frames -/

/-- What happens to a position module, with what the clock and FSUIPC answer and with the mode of the
core at the time. -/
inductive PositionAction
  | start
  | frame (mode : Mode) (time : ℕ → ℚ) (answers : PositionAnswers)
  | receive (mode : Mode) (time : ℕ → ℚ) (newPos : PositionStruct)

/-- A position module and the packet at which the plane has to be at rest, if the last one was
unreasonable. -/
structure PositionRun where
  module : PositionModule
  resting : Option PositionStruct

namespace PositionRun

variable (outOfRange : ℚ → Int64)

open Classical in
/-- The packet at which the plane has to be at rest behind a packet. -/
noncomputable def restingAfter (s : PositionRun) (mode : Mode) (newPos : PositionStruct) :
    Option PositionStruct :=
  if mode = .client then if s.module.Unreasonable newPos then some newPos else none else s.resting

/-- The runs of a position module. -/
noncomputable def machine : Machine PositionRun PositionAction where
  initial s := s.module.extrapolate = false ∧ s.resting = none
  step s
    | .start => some { s with module := s.module.start }
    | .frame mode time answers =>
      some { s with module := (s.module.frameCallback outOfRange mode time answers).state }
    | .receive mode time newPos =>
      (s.module.receive outOfRange mode time newPos).state.map fun module =>
        { module := module, resting := s.restingAfter mode newPos }

/-- A packet on a client divides by a positive time or takes the plane to rest, and frames write the
packet at which the plane is at rest. -/
def Shows (s : PositionRun) : PositionAction → Prop
  | .receive .client time newPos => s.module.ShowsPacket outOfRange time newPos
  | .frame mode time answers => ∀ p, s.resting = some p →
    (s.module.frameCallback outOfRange mode time answers).written =
      if mode = .client ∧ s.module.fsuipc ∧ s.module.extrapolate ∧ answers.ok1 ∧ answers.ok2 then
        some (p.pos, p.dir)
      else none
  | _ => True

/-- Every packet on a client is a proper one. -/
def Proper (s : PositionRun) : PositionAction → Prop
  | .receive .client _ newPos => s.module.ProperPacket newPos
  | _ => True

/-- Where the plane has to be at rest, it is. -/
def Sound (s : PositionRun) : Prop := ∀ p, s.resting = some p → s.module.RestsAt p

variable {outOfRange} {s t : PositionRun} {a : PositionAction}

/-- With the plane at rest where it has to be, an action shows what it has to exactly if it is
proper. -/
theorem Sound.shows_iff (h : s.Sound) (a : PositionAction) :
    s.Shows outOfRange a ↔ s.Proper a := by
  cases a with
  | start => exact Iff.rfl
  | frame mode time answers =>
    apply iff_true_intro
    intro p hp
    exact (h p hp).written mode time answers
  | receive mode time newPos =>
    cases mode with
    | idle => exact Iff.rfl
    | host => exact Iff.rfl
    | client => exact PositionModule.showsPacket_iff outOfRange time

/-- A proper action keeps the plane at rest where it has to be. -/
theorem Sound.step (h : s.Sound) (hproper : s.Proper a)
    (ht : (machine outOfRange).step s a = some t) : t.Sound := by
  cases a with
  | start =>
    obtain rfl := Option.some.inj ht
    intro p hp
    exact ⟨(h p hp).posVel, (h p hp).dirVel, (h p hp).reference⟩
  | frame mode time answers =>
    obtain rfl := Option.some.inj ht
    intro p hp
    exact (h p hp).frameCallback mode time answers
  | receive mode time newPos =>
    obtain ⟨d', hstate, rfl⟩ := Option.map_eq_some_iff.mp ht
    intro p hp
    cases mode with
    | idle => exact Option.some.inj hstate ▸ h p hp
    | host => exact Option.some.inj hstate ▸ h p hp
    | client =>
      simp only [restingAfter, if_true, Option.ite_none_right_eq_some, Option.some.injEq] at hp
      obtain ⟨hunreasonable, rfl⟩ := hp
      have hshows := (PositionModule.showsPacket_iff outOfRange time).mpr hproper
      obtain ⟨-, d'', hstate', hrests⟩ := hshows.2 hunreasonable
      rw [hstate] at hstate'
      exact Option.some.inj hstate' ▸ hrests

/-- In every sequence of packets, frames and modes, positions are divided by positive times only and the
plane rests at all other packets, exactly if every packet received on a client is the first one, or
later than the reference, or has the timestamp of the reference and another position. -/
theorem shows_iff_proper (outOfRange : ℚ → Int64) (d : PositionModule)
    (actions : List PositionAction) :
    (machine outOfRange).Along (Shows outOfRange) ⟨d, none⟩ actions ↔
      (machine outOfRange).Along Proper ⟨d, none⟩ actions := by
  apply Machine.along_iff_along (fun s a (h : s.Sound) => h.shows_iff a)
  · intro s a t h hproper ht
    exact h.step hproper ht
  · intro p hp
    cases hp

/-- A packet for the point where all coordinates are zero. -/
def packetAt (timestamp : ℚ) : PositionStruct := ⟨timestamp, .replicate 3 0, .replicate 3 0⟩

/-- A module that has received nothing. -/
def unused : PositionModule where
  fsuipc := true
  timediff := 0
  meanLatency := 0
  lastReferenceTime := 0
  extrapolate := false
  reference := packetAt 0
  extrapolated := packetAt 0
  posVel := .replicate 3 0
  dirVel := .replicate 3 0

/-- A packet that is older than the first one, or the first one again. -/
theorem older_packet_not_shown :
    (¬ (machine fun _ => 0).Along (Shows fun _ => 0) ⟨unused, none⟩
      [.receive .client (fun _ => 0) (packetAt 1), .receive .client (fun _ => 0) (packetAt 0)]) ∧
    ¬ (machine fun _ => 0).Along (Shows fun _ => 0) ⟨unused, none⟩
      [.receive .client (fun _ => 0) (packetAt 1), .receive .client (fun _ => 0) (packetAt 1)] := by
  constructor
  · intro h
    have hsecond : (0 : ℚ) < 0 - 1 ∨ (0 : ℚ) - 1 = 0 ∧ _ :=
      (PositionModule.showsPacket_iff _ _).mp h.2.1 rfl
    norm_num at hsecond
  · intro h
    have hsecond : (0 : ℚ) < 1 - 1 ∨ (1 : ℚ) - 1 = 0 ∧ (packetAt 1).pos ≠ (packetAt 1).pos :=
      (PositionModule.showsPacket_iff _ _).mp h.2.1 rfl
    norm_num at hsecond

end PositionRun

end Multicrew.Core.Exact
