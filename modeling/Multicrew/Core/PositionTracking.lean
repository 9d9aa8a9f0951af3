import Mathlib.Tactic.Linarith
import Mathlib.Tactic.Ring
import Multicrew.Core.PositionVelocity
import Multicrew.Library.Machine

/-!
# How far the client's plane strays from the host's

A packet puts the plane of a client where the host's was and gives it the host's speed, with what it
has strayed added per second. So every error is there again at the next packet, with the other sign and
times the seconds that have passed. It dies out while packets are less than a second apart, and what
stays is bounded by how fast and how evenly the host's plane moves. This is about coordinates of the
position as `__int64`, whose differences wrap around with the longitude.
-/

namespace Multicrew.Core.Exact

open Multicrew.Library

/-- The way from one value of a coordinate to another. -/
def moved (a b : Int64) : ℚ := ((b - a).toInt : ℤ)

/-- How fast a coordinate of the host's plane changes per second, how much that speed differs from one
packet to the next, how many seconds lie between packets, and between the last frame of the client and
the next packet; and an error for which these are small enough. -/
structure TrackingBounds where
  speed : ℚ
  change : ℚ
  gap : ℚ
  lag : ℚ
  error : ℚ
  speed_nonneg : 0 ≤ speed
  error_nonneg : 0 ≤ error
  gap_le : gap ≤ 1
  first : speed * gap ≤ error
  steady : speed * lag + change * gap + error * gap + (gap + 1) ≤ error
  fits : speed + error < 2 ^ 63

/-- The module of a client, with the time of the last packet, that of the last frame since, and the
speed of the host's plane between the last two packets. -/
structure Tracking where
  module : PositionModule
  arrived : ℚ := 0
  frame : Option ℚ := none
  speed : Option (Fin 3 → ℚ) := none

/-- A frame of the client, or a packet it receives. All readings of the clock in one of them agree. -/
inductive TrackingAction
  | frame (now : ℚ) (answers : PositionAnswers)
  | receive (now : ℚ) (newPos : PositionStruct)

namespace Tracking

/-- The client from its start on. -/
noncomputable def machine (outOfRange : ℚ → Int64) : Machine Tracking TrackingAction where
  initial s := s.module.fsuipc = true ∧ s.module.extrapolate = false
  step s
    | .frame now answers => some { s with
        module := (s.module.frameCallback outOfRange .client (fun _ => now) answers).state
        frame := some now }
    | .receive now newPos =>
      (s.module.receive outOfRange .client (fun _ => now) newPos).state.map fun module => {
        module := module
        arrived := now
        speed := if s.module.extrapolate then
            some fun x => moved (s.module.reference.pos.get x) (newPos.pos.get x) /
              s.module.timestampDifference newPos
          else none }

/-- Packets take the same time each, and come while the host's plane moves as described. -/
def Smooth (b : TrackingBounds) (delay : ℚ) (s : Tracking) : TrackingAction → Prop
  | .frame now _ => s.arrived ≤ now
  | .receive now newPos => now = newPos.timestamp + delay ∧
    (s.module.extrapolate = true →
      0 < s.module.timestampDifference newPos ∧ s.module.timestampDifference newPos ≤ b.gap ∧
      (∀ x, |moved (s.module.reference.pos.get x) (newPos.pos.get x)| ≤
        b.speed * s.module.timestampDifference newPos) ∧
      (∀ v ∈ s.speed, ∀ x, |moved (s.module.reference.pos.get x) (newPos.pos.get x) /
        s.module.timestampDifference newPos - v x| ≤ b.change) ∧
      ∃ last ∈ s.frame, last ≤ now ∧ now ≤ last + b.lag)

/-- When a packet comes, the plane is not farther than the error from where the packet puts it, and
frames write no position farther from the last packet than the time since allows. -/
def Tracks (outOfRange : ℚ → Int64) (b : TrackingBounds) (s : Tracking) : TrackingAction → Prop
  | .frame now answers => now ≤ s.arrived + b.gap →
    ∀ w ∈ (s.module.frameCallback outOfRange .client (fun _ => now) answers).written, ∀ x,
      |moved (s.module.reference.pos.get x) (w.1.get x)| ≤
        (now - s.arrived) * (b.speed + b.error)
  | .receive _ newPos => s.module.extrapolate = true →
    ∀ x, |moved (s.module.extrapolated.pos.get x) (newPos.pos.get x)| ≤ b.error

end Tracking

/-! ### Conversions -/

/-- A conversion goes towards zero. -/
theorem abs_truncate_le (x : ℚ) : |(truncate x : ℚ)| ≤ |x| := by
  unfold truncate
  split
  · rename_i hneg
    have hceil : (⌈x⌉ : ℚ) ≤ 0 := by exact_mod_cast Int.ceil_le.mpr (by simpa using hneg.le)
    rw [abs_of_nonpos hceil, abs_of_neg hneg]
    exact neg_le_neg (Int.le_ceil x)
  · rename_i hpos
    have hpos := not_lt.mp hpos
    have hfloor : (0 : ℚ) ≤ ⌊x⌋ := by exact_mod_cast Int.floor_nonneg.mpr hpos
    rw [abs_of_nonneg hfloor, abs_of_nonneg hpos]
    exact Int.floor_le x

/-- A conversion loses less than one. -/
theorem abs_truncate_sub_le (x : ℚ) : |(truncate x : ℚ) - x| ≤ 1 := by
  unfold truncate
  rw [abs_le]
  split
  · have hle := Int.le_ceil x
    have hlt := Int.ceil_lt_add_one x
    constructor
    · linarith
    · linarith
  · have hle := Int.floor_le x
    have hlt := Int.lt_floor_add_one x
    constructor
    · linarith
    · linarith

/-- A number that fits is converted by leaving its fraction out. -/
theorem toInt_toInt64 (outOfRange : ℚ → Int64) {x : ℚ} (h : |x| < 2 ^ 63) :
    (toInt64 outOfRange x).toInt = truncate x := by
  have habs := abs_lt.mp (lt_of_le_of_lt (abs_truncate_le x) h)
  have hlow : -2 ^ 63 < truncate x := by exact_mod_cast habs.1
  have hhigh : truncate x < 2 ^ 63 := by exact_mod_cast habs.2
  rw [toInt64, if_pos ⟨hlow.le, hhigh⟩, Int64.toInt_ofInt_of_le hlow.le hhigh]

/-- The way to a coordinate that was moved. -/
theorem moved_add (a way : Int64) : moved a (a + way) = (way.toInt : ℚ) := by
  rw [moved, Int64.add_comm, Int64.add_sub_cancel]

/-- The way from a coordinate that was moved, if it is not half way around. -/
theorem moved_of_add {a b way : Int64} (h : |moved a b - (way.toInt : ℚ)| < 2 ^ 63) :
    moved (a + way) b = moved a b - (way.toInt : ℚ) := by
  have habs := abs_lt.mp h
  have hlow : -2 ^ 63 < (b - a).toInt - way.toInt := by
    have := habs.1
    simp only [moved] at this
    exact_mod_cast this
  have hhigh : (b - a).toInt - way.toInt < 2 ^ 63 := by
    have := habs.2
    simp only [moved] at this
    exact_mod_cast this
  have hsub : (b - (a + way)).toInt = (b - a).toInt - way.toInt := by
    rw [← Int64.sub_sub, Int64.toInt_sub]
    exact Int.bmod_eq_of_le (by omega) (by omega)
  simp only [moved, hsub, Int.cast_sub]

/-! ### Between two packets -/

namespace TrackingBounds

variable (b : TrackingBounds) {v e ago : ℚ}

/-- The speed a packet asks for is converted like any number that fits. -/
theorem abs_speed_add_le (hv : |v| ≤ b.speed) (he : |e| ≤ b.error) : |v + e| ≤ b.speed + b.error :=
  (abs_add_le v e).trans (add_le_add hv he)

/-- The plane moves as fast as the host's with what it has strayed, but for what conversions lose. -/
theorem extrapolated (outOfRange : ℚ → Int64) (hv : |v| ≤ b.speed) (he : |e| ≤ b.error)
    (hago : 0 ≤ ago) (hgap : ago ≤ b.gap) :
    let way := (toInt64 outOfRange (ago * (toInt64 outOfRange (v + e)).toInt)).toInt
    |(way : ℚ)| ≤ ago * (b.speed + b.error) ∧ |(way : ℚ) - ago * (v + e)| ≤ ago + 1 := by
  intro way
  have hsum := b.abs_speed_add_le hv he
  have hposVel : (toInt64 outOfRange (v + e)).toInt = truncate (v + e) :=
    toInt_toInt64 outOfRange (lt_of_le_of_lt hsum b.fits)
  have hvel : |(truncate (v + e) : ℚ)| ≤ b.speed + b.error := (abs_truncate_le _).trans hsum
  have hmul : |ago * (truncate (v + e) : ℚ)| ≤ ago * (b.speed + b.error) := by
    rw [abs_mul, abs_of_nonneg hago]
    exact mul_le_mul_of_nonneg_left hvel hago
  have hsmall : ago * (b.speed + b.error) ≤ b.speed + b.error :=
    mul_le_of_le_one_left (add_nonneg b.speed_nonneg b.error_nonneg) (hgap.trans b.gap_le)
  have hway : way = truncate (ago * (truncate (v + e) : ℚ)) := by
    rw [← hposVel]
    refine toInt_toInt64 outOfRange (lt_of_le_of_lt ?_ b.fits)
    rw [hposVel]
    exact hmul.trans hsmall
  constructor
  · rw [hway]
    exact (abs_truncate_le _).trans hmul
  · have hlost := abs_truncate_sub_le (ago * (truncate (v + e) : ℚ))
    have hlost' : |ago * (truncate (v + e) : ℚ) - ago * (v + e)| ≤ ago := by
      rw [← mul_sub, abs_mul, abs_of_nonneg hago]
      exact mul_le_of_le_one_right hago (abs_truncate_sub_le (v + e))
    rw [hway]
    have hsplit := abs_sub_le (truncate (ago * (truncate (v + e) : ℚ)) : ℚ)
      (ago * (truncate (v + e) : ℚ)) (ago * (v + e))
    linarith

/-- At the next packet the plane has strayed by what the host has moved since the last frame, what its
speed has changed, and what it had strayed before, times the time and with the other sign. -/
theorem strayed {d lastSpeed dt : ℚ} (he : |e| ≤ b.error) (hago : 0 ≤ ago) (hdt : 0 < dt)
    (hgap : dt ≤ b.gap) (hago_le : ago ≤ dt) (hlag : dt - ago ≤ b.lag)
    (hd : |d| ≤ b.speed * dt) (hchange : |d / dt - lastSpeed| ≤ b.change) {way : ℚ}
    (hway : |way - ago * (lastSpeed + e)| ≤ ago + 1) : |d - way| ≤ b.error := by
  have hspeed : |d / dt| ≤ b.speed := by
    rw [abs_div, abs_of_pos hdt]
    exact (div_le_iff₀ hdt).mpr hd
  have hsplit : d - way = (dt - ago) * (d / dt) + ago * (d / dt - lastSpeed) - ago * e -
      (way - ago * (lastSpeed + e)) := by
    have hcancel : dt * (d / dt) = d := mul_div_cancel₀ d hdt.ne'
    linear_combination -hcancel
  have hlag_nonneg : 0 ≤ dt - ago := sub_nonneg.mpr hago_le
  have hagap := hago_le.trans hgap
  have hfirst : |(dt - ago) * (d / dt)| ≤ b.speed * b.lag := by
    rw [abs_mul, abs_of_nonneg hlag_nonneg, mul_comm]
    exact mul_le_mul hspeed hlag hlag_nonneg b.speed_nonneg
  have hsecond : |ago * (d / dt - lastSpeed)| ≤ b.change * b.gap := by
    rw [abs_mul, abs_of_nonneg hago, mul_comm]
    exact mul_le_mul hchange hagap hago ((abs_nonneg _).trans hchange)
  have hthird : |ago * e| ≤ b.error * b.gap := by
    rw [abs_mul, abs_of_nonneg hago, mul_comm]
    exact mul_le_mul he hagap hago b.error_nonneg
  have hsteady := b.steady
  rw [hsplit]
  rw [abs_le] at hfirst hsecond hthird hway ⊢
  constructor
  · linarith [hfirst.1, hsecond.1, hthird.2, hway.2]
  · linarith [hfirst.2, hsecond.2, hthird.1, hway.1]

end TrackingBounds

namespace Tracking

variable {outOfRange : ℚ → Int64} {b : TrackingBounds} {delay : ℚ} {s t : Tracking}

/-- The plane moves with the speed of the host's and what it had strayed at the last packet. -/
structure Moving (outOfRange : ℚ → Int64) (b : TrackingBounds) (s : Tracking) : Prop where
  since : s.module.lastReferenceTime = s.arrived
  speeds : ∃ v ∈ s.speed, ∀ x, |v x| ≤ b.speed ∧ ∃ e, |e| ≤ b.error ∧
    s.module.posVel.get x = toInt64 outOfRange (v x + e)
  shown : ∀ last ∈ s.frame, s.arrived ≤ last ∧ ∀ x, s.module.extrapolated.pos.get x =
    s.module.reference.pos.get x +
      toInt64 outOfRange ((last - s.arrived) * (s.module.posVel.get x).toInt)

/-- The clocks agree after the first packet, and the plane rests at the last one or moves from there. -/
structure Started (outOfRange : ℚ → Int64) (b : TrackingBounds) (delay : ℚ) (s : Tracking) : Prop where
  timediff : s.module.timediff = delay
  arrived : s.arrived = s.module.reference.timestamp + delay
  course : (s.module.RestsAt s.module.reference ∧
      s.module.extrapolated.pos = s.module.reference.pos) ∨ s.Moving outOfRange b

/-- What holds between two actions of a client. -/
structure Sound (outOfRange : ℚ → Int64) (b : TrackingBounds) (delay : ℚ) (s : Tracking) : Prop where
  fsuipc : s.module.fsuipc = true
  started : s.module.extrapolate = true → s.Started outOfRange b delay

/-- A position extrapolated to a time. -/
theorem get_extrapolateTo (outOfRange : ℚ → Int64) (d : PositionModule) (now : ℚ) (x : Fin 3) :
    (d.extrapolateTo outOfRange now).pos.get x = d.reference.pos.get x +
      toInt64 outOfRange ((now - d.lastReferenceTime) * (d.posVel.get x).toInt) :=
  Vector.getElem_ofFn x.isLt

/-- What a frame does on a client that extrapolates, and on one that does not yet. -/
theorem Sound.frame_eq (hs : s.Sound outOfRange b delay) (now : ℚ) (answers : PositionAnswers) :
    s.module.frameCallback outOfRange .client (fun _ => now) answers =
      if s.module.extrapolate then
        { state := { s.module with extrapolated := s.module.extrapolateTo outOfRange now }
          written := if answers.ok1 && answers.ok2 then
              some ((s.module.extrapolateTo outOfRange now).pos,
                (s.module.extrapolateTo outOfRange now).dir)
            else none }
      else { state := s.module } := by
  simp only [PositionModule.frameCallback, hs.fsuipc, if_true]

/-- Frames write positions that are not too far away. -/
theorem Sound.frame_tracks (hs : s.Sound outOfRange b delay) {now : ℚ} (hnow : s.arrived ≤ now)
    (answers : PositionAnswers) : s.Tracks outOfRange b (.frame now answers) := by
  intro hgap w hw x
  rw [hs.frame_eq] at hw
  split at hw
  · rename_i hextrapolate
    simp only [Option.mem_def, Option.ite_none_right_eq_some, Option.some.injEq] at hw
    obtain ⟨-, rfl⟩ := hw
    have hago : 0 ≤ now - s.arrived := sub_nonneg.mpr hnow
    obtain ⟨hrest, -⟩ | hmoving := (hs.started hextrapolate).course
    · have hpos := (hrest.extrapolateTo outOfRange now).1
      dsimp only
      rw [hpos]
      have hzero : moved (s.module.reference.pos.get x) (s.module.reference.pos.get x) = 0 := by
        simp [moved]
      rw [hzero, abs_zero]
      exact mul_nonneg hago (add_nonneg b.speed_nonneg b.error_nonneg)
    · obtain ⟨v, -, hspeeds⟩ := hmoving.speeds
      obtain ⟨hv, e, he, hposVel⟩ := hspeeds x
      rw [get_extrapolateTo, moved_add, hposVel, hmoving.since]
      exact (b.extrapolated outOfRange hv he hago (by linarith)).1
  · cases hw

/-- A frame keeps the plane on its course. -/
theorem Sound.frame (hs : s.Sound outOfRange b delay) {now : ℚ} (hnow : s.arrived ≤ now)
    (answers : PositionAnswers) : ({ s with
      module := (s.module.frameCallback outOfRange .client (fun _ => now) answers).state
      frame := some now } : Tracking).Sound outOfRange b delay := by
  rw [hs.frame_eq]
  cases hextrapolate : s.module.extrapolate with
  | false =>
    exact ⟨hs.fsuipc, fun h => by simp [hextrapolate] at h⟩
  | true =>
    obtain ⟨htimediff, harrived, hcourse⟩ := hs.started hextrapolate
    refine ⟨hs.fsuipc, fun _ => ⟨htimediff, harrived, ?_⟩⟩
    obtain ⟨hrest, -⟩ | hmoving := hcourse
    · exact .inl ⟨⟨hrest.posVel, hrest.dirVel, rfl⟩, (hrest.extrapolateTo outOfRange now).1⟩
    · refine .inr ⟨hmoving.since, hmoving.speeds, ?_⟩
      intro last hlast
      obtain rfl := Option.some.inj hlast
      exact ⟨hnow, fun x => by rw [← hmoving.since]; exact get_extrapolateTo ..⟩

/-- When a packet comes that is not the first one, the plane has not strayed too far. -/
theorem Sound.receive_tracks (hs : s.Sound outOfRange b delay) {now : ℚ} {newPos : PositionStruct}
    (hsmooth : s.Smooth b delay (.receive now newPos)) :
    s.Tracks outOfRange b (.receive now newPos) := by
  intro hextrapolate x
  obtain ⟨hnow, hsmooth⟩ := hsmooth
  obtain ⟨hdt, hgap, hd, hchange, last, hlast, hle, hlag⟩ := hsmooth hextrapolate
  obtain ⟨-, harrived, ⟨-, hrest⟩ | hmoving⟩ := hs.started hextrapolate
  · rw [hrest]
    exact (hd x).trans ((mul_le_mul_of_nonneg_left hgap b.speed_nonneg).trans b.first)
  · obtain ⟨v, hv, hspeeds⟩ := hmoving.speeds
    obtain ⟨hvle, e, he, hposVel⟩ := hspeeds x
    obtain ⟨hsince, hshown⟩ := hmoving.shown last hlast
    have hago : 0 ≤ last - s.arrived := sub_nonneg.mpr hsince
    have hdt_eq : s.module.timestampDifference newPos = now - s.arrived := by
      rw [PositionModule.timestampDifference, hnow, harrived]
      ring
    have hago_le : last - s.arrived ≤ s.module.timestampDifference newPos := by
      rw [hdt_eq]
      linarith
    have hway := (b.extrapolated outOfRange hvle he hago (hago_le.trans hgap)).2
    have hstrayed := b.strayed he hago hdt hgap hago_le (by rw [hdt_eq]; linarith) (hd x)
      (hchange v hv x) hway
    rw [hshown x, hposVel]
    rw [moved_of_add (lt_of_le_of_lt hstrayed (by linarith [b.fits, b.speed_nonneg]))]
    exact hstrayed

/-- The latency of a packet that takes as long as the first one is zero. -/
theorem Started.receive_eq (hs : s.Started outOfRange b delay)
    (hextrapolate : s.module.extrapolate = true) {now : ℚ} {newPos : PositionStruct}
    (hnow : now = newPos.timestamp + delay) : ∃ jumped,
    s.module.receive outOfRange .client (fun _ => now) newPos =
      (s.module.correct 0).activate outOfRange jumped now 0 newPos := by
  obtain ⟨jumped, -, heq⟩ := PositionModule.receive_activate outOfRange hextrapolate
    (fun _ => now) newPos
  have hlatency : now - s.module.timediff - newPos.timestamp = 0 := by
    rw [hs.timediff, hnow]
    ring
  exact ⟨jumped, by rw [heq, hlatency]⟩

/-- A packet puts the plane on its new course. -/
theorem Sound.receive (hs : s.Sound outOfRange b delay) {now : ℚ} {newPos : PositionStruct}
    (hsmooth : s.Smooth b delay (.receive now newPos))
    (h : (machine outOfRange).step s (.receive now newPos) = some t) :
    t.Sound outOfRange b delay := by
  have htracks := hs.receive_tracks hsmooth
  obtain ⟨hnow, hsmooth⟩ := hsmooth
  obtain ⟨d, hd, rfl⟩ := Option.map_eq_some_iff.mp h
  cases hextrapolate : s.module.extrapolate with
  | false =>
    -- the first packet sets the clocks
    simp only [PositionModule.receive, hextrapolate, Bool.not_false, if_true,
      Option.some.injEq] at hd
    subst hd
    refine ⟨hs.fsuipc, fun _ => ⟨?_, hnow, .inl ⟨⟨rfl, rfl, rfl⟩, rfl⟩⟩⟩
    change now - newPos.timestamp = delay
    rw [hnow]
    ring
  | true =>
    have hstarted := hs.started hextrapolate
    obtain ⟨jumped, heq⟩ := hstarted.receive_eq hextrapolate hnow
    obtain ⟨hdt, -, hmoved, -⟩ := hsmooth hextrapolate
    rw [heq] at hd
    have htimediff : (s.module.correct 0).timediff = delay := by
      simp only [PositionModule.correct, zero_div, add_zero, hstarted.timediff]
    cases jumped with
    | true =>
      simp only [PositionModule.activate, if_true, Option.some.injEq] at hd
      subst hd
      exact ⟨hs.fsuipc, fun _ => ⟨htimediff, hnow, .inl ⟨⟨rfl, rfl, rfl⟩, rfl⟩⟩⟩
    | false =>
      have hne : (s.module.correct 0).timestampDifference newPos ≠ 0 := hdt.ne'
      simp only [PositionModule.activate, Bool.false_eq_true, if_false, if_neg hne,
        Option.some.injEq] at hd
      subst hd
      have hshown : ∀ last : ℚ, last ∉ (none : Option ℚ) := Option.not_mem_none
      refine ⟨hs.fsuipc, fun _ => ⟨htimediff, hnow, .inr ⟨rfl, ?_, ?_⟩⟩⟩
      swap
      · exact fun last hlast => absurd hlast (hshown last)
      refine ⟨_, rfl, fun x => ⟨?_, _, htracks hextrapolate x, ?_⟩⟩
      · rw [abs_div, abs_of_pos hdt]
        exact (div_le_iff₀ hdt).mpr (hmoved x)
      · have hget : ∀ f : Fin 3 → Int64, (Vector.ofFn f).get x = f x :=
          fun f => Vector.getElem_ofFn x.isLt
        simp only [PositionModule.speeds, hget, mul_zero, add_zero]
        rfl

/-- A client whose host moves as smoothly as described tracks it: in every run of packets with the same
delay and frames, when a packet comes, the plane is within the error of where the packet puts it, in
every coordinate, and all positions written until the next one are near. -/
theorem tracked (outOfRange : ℚ → Int64) (b : TrackingBounds) (delay : ℚ) {d : PositionModule}
    (hfsuipc : d.fsuipc = true) (hextrapolate : d.extrapolate = false) {as : List TrackingAction}
    (hsmooth : (machine outOfRange).Along (Smooth b delay) { module := d } as) :
    (machine outOfRange).Along (Tracks outOfRange b) { module := d } as := by
  refine hsmooth.of_invariant (I := fun s => s.Sound outOfRange b delay) (fun s a hs ha => ?_)
    (fun s a t hs ha ht => ?_) ⟨hfsuipc, fun h => by simp [hextrapolate] at h⟩
  · cases a with
    | frame now answers => exact hs.frame_tracks ha answers
    | receive now newPos => exact hs.receive_tracks ha
  · cases a with
    | frame now answers => exact Option.some.inj ht ▸ hs.frame ha answers
    | receive now newPos => exact hs.receive ha ht

/-- Packets every quarter of a second and ten frames a second, at speeds up to a thousand. -/
def quarterSecond : TrackingBounds where
  speed := 1000
  change := 100
  gap := 1 / 4
  lag := 1 / 10
  error := 250
  speed_nonneg := by norm_num
  error_nonneg := by norm_num
  gap_le := by norm_num
  first := by norm_num
  steady := by norm_num
  fits := by norm_num

/-- A plane that has moved by 200 in every coordinate at its second packet. -/
def twoPackets : List TrackingAction :=
  [.receive 0 (PositionRun.packetAt 0), .frame (1 / 5) {},
    .receive (1 / 4) ⟨1 / 4, .replicate 3 200, .replicate 3 0⟩]

/-- The run is tracked. -/
theorem tracked_twoPackets :
    (machine fun _ => 0).Along (Tracks (fun _ => 0) quarterSecond) { module := PositionRun.unused }
      twoPackets := by
  have hmoved : ∀ x : Fin 3, moved ((PositionRun.packetAt 0).pos.get x)
      ((Vector.replicate 3 (200 : Int64)).get x) = 200 := by
    intro x
    simp only [PositionRun.packetAt, PositionModule.get_replicate]
    rfl
  refine tracked (fun _ => 0) quarterSecond 0 rfl rfl ⟨⟨?_, nofun⟩, ⟨?_, ⟨⟨?_, fun _ => ?_⟩, ?_⟩⟩⟩
  · norm_num [PositionRun.packetAt]
  · change (0 : ℚ) ≤ 1 / 5
    norm_num
  · norm_num
  · change (0 : ℚ) < 1 / 4 - 0 ∧ (1 / 4 - 0 : ℚ) ≤ 1 / 4 ∧
      (∀ x, |moved ((PositionRun.packetAt 0).pos.get x) ((Vector.replicate 3 (200 : Int64)).get x)| ≤
        1000 * (1 / 4 - 0 : ℚ)) ∧
      (∀ v ∈ (none : Option (Fin 3 → ℚ)), ∀ x, |moved ((PositionRun.packetAt 0).pos.get x)
        ((Vector.replicate 3 (200 : Int64)).get x) / (1 / 4 - 0) - v x| ≤ 100) ∧
      ∃ last ∈ some (1 / 5 : ℚ), last ≤ 1 / 4 ∧ 1 / 4 ≤ last + 1 / 10
    refine ⟨by norm_num, by norm_num, fun x => ?_, nofun, 1 / 5, rfl, by norm_num, by norm_num⟩
    rw [hmoved]
    norm_num
  · split
    · trivial
    · trivial

end Tracking

end Multicrew.Core.Exact
