import Mathlib.Algebra.Group.Nat.Defs
import Mathlib.Data.List.Basic

/-!
# The election of the frame provider

The simulator has no callback for a frame, so one of the gauges it draws announces each frame to the
core. A global counter counts the frames announced, and a gauge keeps what it was when the gauge was
last drawn: if the counter has not moved since, nobody has announced the frame yet.
-/

namespace Multicrew.Gauge

/-- The drawing data of a `Gauge`. -/
structure FrameData where
  attached : Bool := false
  lastFrameCounter : UInt32
  iProvideFrameCallback : Bool := false
  deriving DecidableEq, Repr

namespace FrameData

/-- `Gauge::callback` at `PANEL_SERVICE_PRE_DRAW`: the gauge, the global counter, and whether
`ackNewFrame` is called. -/
def preDraw (d : FrameData) (frameCounter : UInt32) : FrameData × UInt32 × Bool :=
  if d.iProvideFrameCallback then
    if d.lastFrameCounter = frameCounter then
      ({ d with lastFrameCounter := d.lastFrameCounter + 1 }, frameCounter + 1, true)
    else
      ({ d with lastFrameCounter := frameCounter, iProvideFrameCallback := false }, frameCounter,
        false)
  else if d.lastFrameCounter = frameCounter then
    ({ d with iProvideFrameCallback := true, lastFrameCounter := frameCounter + 1 },
      frameCounter + 1, true)
  else ({ d with lastFrameCounter := frameCounter }, frameCounter, false)

/-- Whether it was the provider or not, a gauge announces the frame if the counter has not moved
since it was drawn last, and then keeps what the counter is. -/
theorem preDraw_cases (d : FrameData) (frameCounter : UInt32) :
    (d.preDraw frameCounter).1.lastFrameCounter = (d.preDraw frameCounter).2.1 ∧
      ((d.lastFrameCounter = frameCounter ∧ (d.preDraw frameCounter).2 = (frameCounter + 1, true)) ∨
        (d.lastFrameCounter ≠ frameCounter ∧
          (d.preDraw frameCounter).2 = (frameCounter, false))) := by
  by_cases hprovide : d.iProvideFrameCallback = true
  · by_cases hlast : d.lastFrameCounter = frameCounter
    · simp [preDraw, hprovide, hlast]
    · simp [preDraw, hprovide, hlast]
  · by_cases hlast : d.lastFrameCounter = frameCounter
    · simp [preDraw, hprovide, hlast]
    · simp [preDraw, hprovide, hlast]

end FrameData

/-- The gauges of a process and `Gauge::Data::frameCounter`. -/
structure FrameState where
  frameCounter : UInt32 := 0
  gauges : List FrameData := []
  deriving DecidableEq, Repr

/-- What happens to gauges while none is drawn. -/
inductive GaugeEvent
  | create
  | attach (g : ℕ)
  | postDraw (g : ℕ)
  | preKill (g : ℕ)
  deriving DecidableEq, Repr

/-- Some events, and the gauges drawn in the frame after them. -/
structure Round where
  events : List GaugeEvent := []
  drawn : List ℕ
  deriving DecidableEq, Repr

namespace FrameState

/-- `Gauge::Gauge`, `Gauge::attach` and `Gauge::callback` for the other services. Only the callback
of an attached gauge is called. -/
def event (s : FrameState) : GaugeEvent → Option FrameState
  | .create => some { s with gauges := s.gauges ++ [{ lastFrameCounter := s.frameCounter }] }
  | .attach g => match s.gauges[g]? with
    | some d => some { s with gauges := s.gauges.set g { d with attached := true } }
    | none => none
  | .postDraw g => match s.gauges[g]? with
    | some d => if d.attached then some s else none
    | none => none
  | .preKill g => match s.gauges[g]? with
    | some d =>
      if d.attached then some { s with gauges := s.gauges.set g { d with attached := false } }
      else none
    | none => none

/-- `Gauge::callback` at `PANEL_SERVICE_PRE_DRAW`, with whether `ackNewFrame` is called. -/
def callback (s : FrameState) (g : ℕ) : Option (FrameState × Bool) :=
  match s.gauges[g]? with
  | some d =>
    if d.attached then
      let (d', frameCounter, ack) := d.preDraw s.frameCounter
      some ({ s with frameCounter := frameCounter, gauges := s.gauges.set g d' }, ack)
    else none
  | none => none

/-- The events of a round. -/
def events (s : FrameState) : List GaugeEvent → Option FrameState
  | [] => some s
  | e :: rest => (s.event e).bind (events · rest)

/-- The calls of a frame, with the number of calls of `ackNewFrame`. -/
def draw (s : FrameState) : List ℕ → Option (FrameState × ℕ)
  | [] => some (s, 0)
  | g :: rest => (s.callback g).bind fun (t, ack) =>
    (draw t rest).map fun (u, acks) => (u, acks + ack.toNat)

/-- A run of rounds, with the calls of `ackNewFrame` in each. -/
def rounds (s : FrameState) : List Round → Option (FrameState × List ℕ)
  | [] => some (s, [])
  | r :: rest => (s.events r.events).bind fun t =>
    (t.draw r.drawn).bind fun (u, acks) =>
      (rounds u rest).map fun (v, later) => (v, acks :: later)

/-- A gauge for which nobody has announced a frame since it was drawn last. -/
def Current (s : FrameState) (g : ℕ) : Prop :=
  ∃ d, s.gauges[g]? = some d ∧ d.lastFrameCounter = s.frameCounter

/-- No gauge has seen a frame that was not announced. -/
def Behind (s : FrameState) : Prop :=
  ∀ d ∈ s.gauges, d.lastFrameCounter.toNat ≤ s.frameCounter.toNat

variable {s t : FrameState} {g : ℕ} {ack : Bool}

/-- A call counts and announces the frame if the gauge is current, and leaves the gauge current. -/
theorem callback_cases (h : s.callback g = some (t, ack)) :
    ∃ d, t.gauges = s.gauges.set g d ∧ d.lastFrameCounter = t.frameCounter ∧ t.Current g ∧
      ((s.Current g ∧ ack = true ∧ t.frameCounter = s.frameCounter + 1) ∨
        (¬ s.Current g ∧ ack = false ∧ t.frameCounter = s.frameCounter)) := by
  unfold callback at h
  split at h
  · rename_i d hd
    split at h
    · obtain ⟨rfl, rfl⟩ := Prod.mk.inj (Option.some.inj h)
      have hlt := (List.getElem?_eq_some_iff.mp hd).1
      obtain ⟨hlast, hcases⟩ := d.preDraw_cases s.frameCounter
      refine ⟨_, rfl, hlast, ⟨_, List.getElem?_set_self hlt, hlast⟩, ?_⟩
      cases hcases with
      | inl hcurrent =>
        exact .inl ⟨⟨d, hd, hcurrent.1⟩, congrArg Prod.snd hcurrent.2, congrArg Prod.fst hcurrent.2⟩
      | inr hseen =>
        refine .inr ⟨?_, congrArg Prod.snd hseen.2, congrArg Prod.fst hseen.2⟩
        rintro ⟨d', hd', hlast'⟩
        cases hd.symm.trans hd'
        exact hseen.1 hlast'
    · cases h
  · cases h

/-- A call leaves the other gauges. -/
theorem callback_others (h : s.callback g = some (t, ack)) {k : ℕ} (hk : k ≠ g) :
    t.gauges[k]? = s.gauges[k]? := by
  obtain ⟨d, hgauges, -⟩ := callback_cases h
  rw [hgauges, List.getElem?_set_ne hk.symm]

/-- A call keeps the gauges behind the counter, while the counter does not wrap around. -/
theorem Behind.callback (hs : s.Behind) (h : s.callback g = some (t, ack))
    (hcount : s.frameCounter.toNat ≤ t.frameCounter.toNat) : t.Behind := by
  obtain ⟨d, hgauges, hlast, -⟩ := callback_cases h
  intro d' hd'
  rw [hgauges] at hd'
  cases List.mem_or_eq_of_mem_set hd' with
  | inl hin => exact Nat.le_trans (hs d' hin) hcount
  | inr heq => exact Nat.le_of_eq (by rw [heq, hlast])

/-- Events between the frames neither announce one nor change what a gauge has seen. -/
theorem event_keeps {e : GaugeEvent} (h : s.event e = some t) :
    t.frameCounter = s.frameCounter ∧ (∀ g, s.Current g → t.Current g) ∧ (s.Behind → t.Behind) := by
  have hset : ∀ {g : ℕ} {d : FrameData} (attached : Bool), s.gauges[g]? = some d →
      (∀ k, s.Current k →
        Current { s with gauges := s.gauges.set g { d with attached := attached } } k) ∧
      (s.Behind → Behind { s with gauges := s.gauges.set g { d with attached := attached } }) := by
    intro g d attached hd
    have hlt := (List.getElem?_eq_some_iff.mp hd).1
    refine ⟨fun k ⟨d', hd', hlast⟩ => ?_, fun hs d' hd' => ?_⟩
    · by_cases hk : k = g
      · subst hk
        cases hd.symm.trans hd'
        exact ⟨_, List.getElem?_set_self hlt, hlast⟩
      · exact ⟨d', (List.getElem?_set_ne (Ne.symm hk)).trans hd', hlast⟩
    · cases List.mem_or_eq_of_mem_set hd' with
      | inl hin => exact hs d' hin
      | inr heq =>
        subst heq
        exact hs d (List.mem_of_getElem? hd)
  cases e with
  | create =>
    obtain rfl := Option.some.inj h
    refine ⟨rfl, fun k ⟨d', hd', hlast⟩ => ?_, fun hs d' hd' => ?_⟩
    · have hlt := (List.getElem?_eq_some_iff.mp hd').1
      exact ⟨d', (List.getElem?_append_left hlt).trans hd', hlast⟩
    · cases List.mem_append.mp hd' with
      | inl hin => exact hs d' hin
      | inr hnew =>
        obtain rfl := List.mem_singleton.mp hnew
        exact Nat.le_refl _
  | attach g =>
    simp only [event] at h
    split at h
    · obtain rfl := Option.some.inj h
      exact ⟨rfl, hset true ‹_›⟩
    · cases h
  | postDraw g =>
    simp only [event] at h
    split at h
    · split at h
      · exact Option.some.inj h ▸ ⟨rfl, fun _ => id, id⟩
      · cases h
    · cases h
  | preKill g =>
    simp only [event] at h
    split at h
    · split at h
      · obtain rfl := Option.some.inj h
        exact ⟨rfl, hset false ‹_›⟩
      · cases h
    · cases h

/-- The events of a round change nothing either. -/
theorem events_keep {es : List GaugeEvent} (h : s.events es = some t) :
    t.frameCounter = s.frameCounter ∧ (∀ g, s.Current g → t.Current g) ∧ (s.Behind → t.Behind) := by
  induction es generalizing s with
  | nil => exact Option.some.inj h ▸ ⟨rfl, fun _ => id, id⟩
  | cons e rest ih =>
    obtain ⟨u, hu, hrest⟩ := Option.bind_eq_some_iff.mp h
    obtain ⟨hcounter, hcurrent, hbehind⟩ := event_keeps hu
    obtain ⟨hcounter', hcurrent', hbehind'⟩ := ih hrest
    exact ⟨hcounter'.trans hcounter, fun g hg => hcurrent' g (hcurrent g hg),
      fun hs => hbehind' (hbehind hs)⟩

/-- The first call of a frame and the rest of it. -/
theorem draw_cons {rest : List ℕ} {acks : ℕ} (h : s.draw (g :: rest) = some (t, acks)) :
    ∃ u ack later, s.callback g = some (u, ack) ∧ u.draw rest = some (t, later) ∧
      acks = later + ack.toNat := by
  obtain ⟨⟨u, ack⟩, hu, hrest⟩ := Option.bind_eq_some_iff.mp h
  obtain ⟨⟨t', later⟩, hdraw, heq⟩ := Option.map_eq_some_iff.mp hrest
  obtain ⟨rfl, rfl⟩ := Prod.mk.inj heq
  exact ⟨u, ack, later, hu, hdraw, rfl⟩

/-- A frame of gauges that are not current is not announced. -/
theorem draw_of_not_current {drawn : List ℕ} {acks : ℕ} (h : s.draw drawn = some (t, acks))
    (hnodup : drawn.Nodup) (hs : s.Behind) (hcurrent : ∀ g ∈ drawn, ¬ s.Current g) :
    acks = 0 ∧ t.frameCounter = s.frameCounter ∧ t.Behind ∧
      (∀ k, k ∉ drawn → t.gauges[k]? = s.gauges[k]?) := by
  induction drawn generalizing s acks with
  | nil =>
    obtain ⟨rfl, rfl⟩ := Prod.mk.inj (Option.some.inj h)
    exact ⟨rfl, rfl, hs, fun _ _ => rfl⟩
  | cons g rest ih =>
    obtain ⟨u, ack, later, hu, hrest, rfl⟩ := draw_cons h
    obtain ⟨hg, hnodup⟩ := List.nodup_cons.mp hnodup
    obtain ⟨-, -, -, -, hannounce | ⟨-, rfl, hcounter⟩⟩ := callback_cases hu
    · exact absurd hannounce.1 (hcurrent g List.mem_cons_self)
    · have hothers : ∀ k, k ≠ g → u.gauges[k]? = s.gauges[k]? := fun k => callback_others hu
      have hseen : ∀ k ∈ rest, ¬ u.Current k := by
        rintro k hk ⟨d, hd, hlast⟩
        have hkg : k ≠ g := fun heq => hg (heq ▸ hk)
        exact hcurrent k (List.mem_cons_of_mem g hk)
          ⟨d, (hothers k hkg).symm.trans hd, hlast.trans hcounter⟩
      obtain ⟨rfl, hcounter', ht, hrest'⟩ := ih hrest hnodup (hs.callback hu
        (Nat.le_of_eq (congrArg UInt32.toNat hcounter.symm))) hseen
      refine ⟨rfl, hcounter'.trans hcounter, ht, fun k hk => ?_⟩
      rw [List.mem_cons, not_or] at hk
      exact (hrest' k hk.2).trans (hothers k hk.1)

/-- A frame is announced at most once, and exactly if one of its gauges is current; afterwards one
of them is. -/
structure Drawn (s t : FrameState) (drawn : List ℕ) (acks : ℕ) : Prop where
  once : acks ≤ 1
  announced : acks = 0 ↔ ∀ g ∈ drawn, ¬ s.Current g
  counted : t.frameCounter.toNat = s.frameCounter.toNat + acks
  behind : t.Behind
  current : drawn ≠ [] → ∃ g ∈ drawn, t.Current g

/-- An announced frame moves the counter on if it does not wrap around. -/
theorem toNat_succ {c : UInt32} (h : c.toNat + 1 < 2 ^ 32) : (c + 1).toNat = c.toNat + 1 := by
  rw [UInt32.toNat_add]
  exact Nat.mod_eq_of_lt h

/-- The gauges of a frame after the one that announces it are not current any more. -/
theorem not_current_of_announced (h : s.callback g = some (t, ack)) (hs : s.Behind)
    (hcount : s.frameCounter.toNat < t.frameCounter.toNat) {k : ℕ} (hk : k ≠ g) :
    ¬ t.Current k := by
  rintro ⟨d, hd, hlast⟩
  have hbefore := hs d (List.mem_of_getElem? ((callback_others h hk).symm.trans hd))
  rw [hlast] at hbefore
  exact Nat.not_lt.mpr hbefore hcount

/-- What the calls of a frame on distinct gauges do. -/
theorem draw_drawn {drawn : List ℕ} {acks : ℕ} (h : s.draw drawn = some (t, acks))
    (hnodup : drawn.Nodup) (hs : s.Behind) (hcount : s.frameCounter.toNat + 1 < 2 ^ 32) :
    Drawn s t drawn acks := by
  induction drawn generalizing s acks with
  | nil =>
    obtain ⟨rfl, rfl⟩ := Prod.mk.inj (Option.some.inj h)
    exact ⟨Nat.zero_le 1, by simp, rfl, hs, fun hne => absurd rfl hne⟩
  | cons g rest ih =>
    obtain ⟨u, ack, later, hu, hrest, rfl⟩ := draw_cons h
    obtain ⟨hg, hnodup⟩ := List.nodup_cons.mp hnodup
    have hne : ∀ k ∈ rest, k ≠ g := fun k hk heq => hg (heq ▸ hk)
    obtain ⟨-, -, -, hcurrent, ⟨hannounce, rfl, hcounter⟩ | ⟨hseen, rfl, hcounter⟩⟩ :=
      callback_cases hu
    · have hnat : u.frameCounter.toNat = s.frameCounter.toNat + 1 :=
        hcounter ▸ toNat_succ hcount
      obtain ⟨rfl, hcounter', ht, hothers⟩ := draw_of_not_current hrest hnodup
        (hs.callback hu (by omega)) fun k hk =>
          not_current_of_announced hu hs (by omega) (hne k hk)
      refine ⟨Nat.le_refl 1, ⟨fun hzero => by simp at hzero, fun hnone => ?_⟩, ?_, ht, fun _ => ?_⟩
      · exact absurd hannounce (hnone g List.mem_cons_self)
      · rw [hcounter', hnat]
        rfl
      · obtain ⟨d, hd, hlast⟩ := hcurrent
        exact ⟨g, List.mem_cons_self, d, (hothers g hg).trans hd, hlast.trans hcounter'.symm⟩
    · have hu' := hs.callback hu (Nat.le_of_eq (congrArg UInt32.toNat hcounter.symm))
      have hrest' := ih hrest hnodup hu' (hcounter ▸ hcount)
      -- what the others of the frame see has not changed
      have hsame : ∀ k ∈ rest, (u.Current k ↔ s.Current k) := by
        intro k hk
        rw [Current, Current, callback_others hu (hne k hk), hcounter]
      refine ⟨hrest'.once, hrest'.announced.trans ⟨fun hnone k hk => ?_, fun hnone k hk => ?_⟩, ?_,
        hrest'.behind, fun _ => ?_⟩
      · cases List.mem_cons.mp hk with
        | inl heq => exact heq ▸ hseen
        | inr hin => exact fun hk' => hnone k hin ((hsame k hin).mpr hk')
      · exact fun hk' => hnone k (List.mem_cons_of_mem g hk) ((hsame k hk).mp hk')
      · rw [hrest'.counted, hcounter]
        rfl
      · cases rest with
        | nil =>
          obtain ⟨rfl, -⟩ := Prod.mk.inj (Option.some.inj hrest)
          exact ⟨g, List.mem_cons_self, hcurrent⟩
        | cons k rest =>
          obtain ⟨k', hk', hcurrent'⟩ := hrest'.current (List.cons_ne_nil k rest)
          exact ⟨k', List.mem_cons_of_mem g hk', hcurrent'⟩

/-- The first round of a run and the others. -/
theorem rounds_cons {r : Round} {rest : List Round} {acks : List ℕ}
    (h : s.rounds (r :: rest) = some (t, acks)) :
    ∃ u v first later, s.events r.events = some u ∧ u.draw r.drawn = some (v, first) ∧
      v.rounds rest = some (t, later) ∧ acks = first :: later := by
  obtain ⟨u, hu, hrest⟩ := Option.bind_eq_some_iff.mp h
  obtain ⟨⟨v, first⟩, hv, hrest⟩ := Option.bind_eq_some_iff.mp hrest
  obtain ⟨⟨t', later⟩, hlater, heq⟩ := Option.map_eq_some_iff.mp hrest
  obtain ⟨rfl, rfl⟩ := Prod.mk.inj heq
  exact ⟨u, v, first, later, hu, hv, hlater, rfl⟩

/-- A round does what its frame does. -/
theorem round_drawn {r : Round} {u : FrameState} {acks : ℕ} (hu : s.events r.events = some u)
    (ht : u.draw r.drawn = some (t, acks)) (hnodup : r.drawn.Nodup) (hs : s.Behind)
    (hcount : s.frameCounter.toNat + 1 < 2 ^ 32) :
    Drawn u t r.drawn acks ∧ u.frameCounter = s.frameCounter := by
  obtain ⟨hcounter, -, hbehind⟩ := events_keep hu
  exact ⟨draw_drawn ht hnodup (hbehind hs) (hcounter ▸ hcount), hcounter⟩

/-- If a frame draws everything the last one drew, it is announced. -/
theorem announced_of_subset {r : Round} {u : FrameState} {drawn : List ℕ} {acks : ℕ}
    (hcurrent : ∃ g ∈ drawn, s.Current g) (hsubset : drawn ⊆ r.drawn)
    (hu : s.events r.events = some u) (hdrawn : Drawn u t r.drawn acks) : acks = 1 := by
  obtain ⟨g, hg, hgcurrent⟩ := hcurrent
  have hne : acks ≠ 0 := fun hzero =>
    hdrawn.announced.mp hzero g (hsubset hg) ((events_keep hu).2.1 g hgcurrent)
  have honce := hdrawn.once
  omega

/-- The frames of a run from any state in which no gauge is ahead of the counter. -/
theorem rounds_acks {rs : List Round} {acks : List ℕ} (h : s.rounds rs = some (t, acks))
    (hnodup : ∀ r ∈ rs, r.drawn.Nodup) (hs : s.Behind)
    (hcount : s.frameCounter.toNat + rs.length < 2 ^ 32) :
    (∀ n ∈ acks, n ≤ 1) ∧ ∀ n (r r' : Round), rs[n]? = some r → rs[n + 1]? = some r' →
      r.drawn ≠ [] → r.drawn ⊆ r'.drawn → acks[n + 1]? = some 1 := by
  induction rs generalizing s acks with
  | nil =>
    obtain ⟨rfl, rfl⟩ := Prod.mk.inj (Option.some.inj h)
    exact ⟨by simp, fun n r r' hr => by simp at hr⟩
  | cons r rest ih =>
    obtain ⟨u, v, first, later, hu, hv, hrest, rfl⟩ := rounds_cons h
    rw [List.length_cons] at hcount
    obtain ⟨hdrawn, hcounter⟩ := round_drawn hu hv (hnodup r List.mem_cons_self) hs (by omega)
    have hv' : v.frameCounter.toNat ≤ s.frameCounter.toNat + 1 := by
      have hcounted := hdrawn.counted
      have honce := hdrawn.once
      rw [hcounter] at hcounted
      omega
    obtain ⟨honce, hexact⟩ := ih hrest (fun r' hr' => hnodup r' (List.mem_cons_of_mem r hr'))
      hdrawn.behind (by omega)
    refine ⟨fun n hn => ?_, fun n r₁ r₂ h₁ h₂ hne hsubset => ?_⟩
    · cases List.mem_cons.mp hn with
      | inl heq => exact heq ▸ hdrawn.once
      | inr hin => exact honce n hin
    · cases n with
      | succ n => exact hexact n r₁ r₂ h₁ h₂ hne hsubset
      | zero =>
        obtain rfl := Option.some.inj h₁
        cases rest with
        | nil => simp at h₂
        | cons r' rest =>
          obtain rfl := Option.some.inj h₂
          obtain ⟨u', v', first', later', hu', hv', -, rfl⟩ := rounds_cons hrest
          have hdrawn' := (round_drawn hu' hv' (hnodup _ (by simp)) hdrawn.behind
            (by rw [List.length_cons] at hcount; omega)).1
          exact congrArg some (announced_of_subset (hdrawn.current hne) hsubset hu' hdrawn')

end FrameState

/-- In a run of fewer than 2^32 frames, each drawing distinct gauges, every frame is announced at
most once, and one that draws all the gauges of the frame before it is announced. -/
theorem ackNewFrame_once {rs : List Round} {t : FrameState} {acks : List ℕ}
    (hrun : ({} : FrameState).rounds rs = some (t, acks))
    (hdistinct : ∀ r ∈ rs, r.drawn.Nodup) (hlength : rs.length < 2 ^ 32) :
    (∀ n ∈ acks, n ≤ 1) ∧ ∀ n (r r' : Round), rs[n]? = some r → rs[n + 1]? = some r' →
      r.drawn ≠ [] → r.drawn ⊆ r'.drawn → acks[n + 1]? = some 1 :=
  FrameState.rounds_acks hrun hdistinct (fun d hd => (List.not_mem_nil hd).elim)
    (by simpa using hlength)

/-- The gauge that provides the first frame is closed and comes back after another took over. -/
def providerRun : List Round :=
  [⟨[.create, .attach 0, .create, .attach 1], [0]⟩, ⟨[.preKill 0], [1]⟩, ⟨[], [1]⟩,
    ⟨[.attach 0], [0, 1]⟩]

/-- Only the frame in which the provider is missing is not announced. -/
theorem ackNewFrame_once_providerRun :
    ∃ t acks, ({} : FrameState).rounds providerRun = some (t, acks) ∧ acks = [1, 0, 1, 1] ∧
      acks[2]? = some 1 :=
  ⟨_, _, rfl, by decide, (@ackNewFrame_once providerRun _ _ rfl (by decide) (by decide)).2 1
    ⟨[.preKill 0], [1]⟩ ⟨[], [1]⟩ rfl rfl (by decide) (by decide)⟩

end Multicrew.Gauge
