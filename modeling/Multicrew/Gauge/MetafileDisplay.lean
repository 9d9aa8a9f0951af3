import Mathlib.Algebra.Group.Nat.Defs
import Mathlib.Logic.Function.Basic
import Multicrew.Core.ChannelProtocol
import Multicrew.Gauge.Metafile
import Multicrew.Library.Machine

/-!
# Metafiles on the client's gauges

Several gauges may share a decompressor. A gauge draws the last metafile when the decompressor's
counter is not the one it drew at last, so the counter stands for the frame; but it starts again
after a sequence error. The drawing is reduced to which metafile is on the gauge.
-/

namespace Multicrew.Gauge

open Multicrew.Core Multicrew.Library

/-- `MetafileGauge::Data` on a client, with the metafile that was drawn last. -/
structure MetafileGauge where
  metafileElement : ℕ
  metafileCounter : UInt32 := -1
  drawn : Option Bytes := none
  deriving DecidableEq, Repr

namespace MetafileGauge

variable (md : MetafileGauge)

/-- Whether the gauge has the element to draw onto; of `d->elements` it matters which are null. -/
def hasElement (elements : List Bool) : Bool := elements.getD md.metafileElement false

/-- The metafile `MetafileGauge::callback` draws at `PANEL_SERVICE_PRE_DRAW`, if any. -/
def draws (mode : Mode) (elements : List Bool) (decompressor : MetafileDecompressor) :
    Option Bytes :=
  match mode with
  | .client =>
    decompressor.lastMetafile.filter fun _ =>
      md.hasElement elements && md.metafileCounter != decompressor.metafileCounter
  | .idle | .host => none

/-- `MetafileGauge::callback` at `PANEL_SERVICE_PRE_DRAW`. -/
def callback (mode : Mode) (elements : List Bool) (decompressor : MetafileDecompressor) :
    MetafileGauge :=
  match md.draws mode elements decompressor with
  | some metafile =>
    { md with metafileCounter := decompressor.metafileCounter, drawn := some metafile }
  | none => md

/-- With an element and a metafile, a client's gauge draws unless it has the decompressor's
counter. -/
theorem draws_client {elements : List Bool} {decompressor : MetafileDecompressor} {last : Bytes}
    (helement : md.hasElement elements = true) (hlast : decompressor.lastMetafile = some last) :
    md.draws .client elements decompressor =
      if md.metafileCounter = decompressor.metafileCounter then none else some last := by
  simp only [draws, hlast, helement, Option.filter_some, Bool.true_and, bne_iff_ne, ite_not]

end MetafileGauge

/-- What a packet does to the decompressor. -/
inductive News
  | reset
  | frame (metafile : Bytes)
  deriving DecidableEq, Repr

namespace News

/-- The frames accepted since the last reset; the newest comes first. -/
def frames : List News → ℕ
  | [] | .reset :: _ => 0
  | .frame _ :: rest => frames rest + 1

/-- The last frame accepted. -/
def lastFrame : List News → Option Bytes
  | [] => none
  | .reset :: rest => lastFrame rest
  | .frame metafile :: _ => some metafile

/-- What came of a packet the decompressor answered. -/
def of (before after : MetafileDecompressor) : MetafileReply → List News
  | .resetPacket => [.reset]
  | .ackPacket =>
    if after.metafileCounter = before.metafileCounter then []
    else after.lastMetafile.toList.map .frame

/-- Without a frame the counter stays where it starts. -/
theorem frames_of_lastFrame {history : List News} (h : lastFrame history = none) :
    frames history = 0 := by
  cases history with
  | nil => rfl
  | cons news rest => cases news with
    | reset => rfl
    | frame metafile => cases h

/-- A last frame is only replaced by another one. -/
theorem lastFrame_of_append {recent history : List News}
    (h : lastFrame (recent ++ history) = none) : lastFrame history = none := by
  induction recent with
  | nil => exact h
  | cons news rest ih => cases news with
    | reset => exact ih h
    | frame metafile => cases h

end News

/-- A packet resets the counter, adds a frame or changes nothing. -/
theorem MetafileDecompressor.receive_cases {z : Zdelta} {d d' : MetafileDecompressor}
    {mdp : MetafileDataPacket} {reply : MetafileReply} (h : d.receive z mdp = some (d', reply)) :
    (d' = { d with metafileCounter := 0 } ∧ News.of d d' reply = [.reset]) ∨
      (∃ tar, d' = ⟨some tar, d.metafileCounter + 1⟩ ∧ News.of d d' reply = [.frame tar]) ∨
      d' = d ∧ News.of d d' reply = [] := by
  unfold receive at h
  split at h
  · cases h
    exact .inl ⟨rfl, rfl⟩
  · split at h
    · cases h
    · split at h
      · cases h
        refine .inr (.inl ⟨_, rfl, ?_⟩)
        simp [News.of]
      · cases h
        exact .inr (.inr ⟨rfl, by simp [News.of]⟩)

/-- A decompressor with the gauges that share it; what came of the packets is kept, newest first,
and how much of it there was when each gauge drew last. -/
structure MetafileDisplay (γ : Type*) where
  decompressor : MetafileDecompressor := {}
  gauges : γ → MetafileGauge
  history : List News := []
  drawnAt : γ → Option (List News) := fun _ => none

/-- What happens on a client. -/
inductive DisplayAction (γ : Type*)
  | receive (mdp : MetafileDataPacket)
  | preDraw (gauge : γ) (mode : Mode) (elements : List Bool)
  deriving DecidableEq, Repr

namespace MetafileDisplay

variable {γ : Type*} [DecidableEq γ] (z : Zdelta)

/-- Nothing is received yet, and the gauges are new. -/
def start (metafileElement : γ → ℕ) : MetafileDisplay γ where
  gauges g := { metafileElement := metafileElement g }

/-- One call; `none` when the decompressor dereferences a null metafile. -/
def step (s : MetafileDisplay γ) : DisplayAction γ → Option (MetafileDisplay γ)
  | .receive mdp =>
    (s.decompressor.receive z mdp).map fun result =>
      { s with
        decompressor := result.1
        history := News.of s.decompressor result.1 result.2 ++ s.history }
  | .preDraw g mode elements =>
    some { s with
      gauges := Function.update s.gauges g ((s.gauges g).callback mode elements s.decompressor)
      drawnAt :=
        if ((s.gauges g).draws mode elements s.decompressor).isSome then
          Function.update s.drawnAt g (some s.history)
        else s.drawnAt }

end MetafileDisplay

open MetafileDisplay

/-- The client, from its start on. -/
def displayMachine (γ : Type*) [DecidableEq γ] (z : Zdelta) :
    Machine (MetafileDisplay γ) (DisplayAction γ) where
  initial s := ∃ metafileElement, s = start metafileElement
  step := step z

namespace MetafileDisplay

variable {γ : Type*} [DecidableEq γ] {z : Zdelta}

/-- A client's drawing leaves the last metafile on the gauge. -/
def UpToDate (s : MetafileDisplay γ) : DisplayAction γ → Prop
  | .receive _ => True
  | .preDraw g mode elements =>
    mode = .client → (s.gauges g).hasElement elements = true →
      ∀ last ∈ s.decompressor.lastMetafile,
        ((s.gauges g).callback mode elements s.decompressor).drawn = some last

instance (s : MetafileDisplay γ) : ∀ a, Decidable (s.UpToDate a)
  | .receive _ => .isTrue trivial
  | .preDraw g mode elements =>
    inferInstanceAs (Decidable (mode = .client → (s.gauges g).hasElement elements = true →
      ∀ last ∈ s.decompressor.lastMetafile,
        ((s.gauges g).callback mode elements s.decompressor).drawn = some last))

/-- At a client's drawing the number of frames since the last reset is another one, in 32 bits, than
when the gauge drew last, or the frame is the same. -/
def Distinguished (s : MetafileDisplay γ) : DisplayAction γ → Prop
  | .receive _ => True
  | .preDraw g mode elements =>
    mode = .client → (s.gauges g).hasElement elements = true →
      match s.drawnAt g with
      | none => News.frames s.history % 2 ^ 32 ≠ 2 ^ 32 - 1
      | some before =>
        News.frames s.history % 2 ^ 32 = News.frames before % 2 ^ 32 →
          News.lastFrame s.history = News.lastFrame before

/-- The counters are the numbers of frames since the last reset, in 32 bits. -/
structure Counted (s : MetafileDisplay γ) : Prop where
  counter : s.decompressor.metafileCounter = UInt32.ofNat (News.frames s.history)
  last : s.decompressor.lastMetafile = News.lastFrame s.history
  undrawn : ∀ g, s.drawnAt g = none →
    (s.gauges g).metafileCounter = -1 ∧ (s.gauges g).drawn = none
  drawn : ∀ g before, s.drawnAt g = some before →
    (s.gauges g).metafileCounter = UInt32.ofNat (News.frames before) ∧
      (s.gauges g).drawn = News.lastFrame before ∧ News.lastFrame before ≠ none ∧
        before <:+ s.history

variable {s t : MetafileDisplay γ}

/-- Packets keep the count. -/
theorem Counted.receive (hs : s.Counted) {mdp : MetafileDataPacket}
    (h : s.step z (.receive mdp) = some t) : t.Counted := by
  obtain ⟨⟨d, reply⟩, hreceive, rfl⟩ := Option.map_eq_some_iff.mp h
  have hdrawn : ∀ (recent : List News) g before, s.drawnAt g = some before →
      (s.gauges g).metafileCounter = UInt32.ofNat (News.frames before) ∧
        (s.gauges g).drawn = News.lastFrame before ∧ News.lastFrame before ≠ none ∧
          before <:+ recent ++ s.history := by
    intro recent g before hbefore
    obtain ⟨hcounter, hlast, hsome, hsuffix⟩ := hs.drawn g before hbefore
    exact ⟨hcounter, hlast, hsome, hsuffix.trans (List.suffix_append recent s.history)⟩
  have hnews := MetafileDecompressor.receive_cases hreceive
  refine ⟨?_, ?_, hs.undrawn, hdrawn _⟩
  · show d.metafileCounter =
      UInt32.ofNat (News.frames (News.of s.decompressor d reply ++ s.history))
    rcases hnews with ⟨rfl, hnews⟩ | ⟨tar, rfl, hnews⟩ | ⟨rfl, hnews⟩
    · rw [hnews]
      rfl
    · rw [hnews, List.singleton_append, News.frames, UInt32.ofNat_add, ← hs.counter]
      rfl
    · rw [hnews]
      exact hs.counter
  · show d.lastMetafile = News.lastFrame (News.of s.decompressor d reply ++ s.history)
    rcases hnews with ⟨rfl, hnews⟩ | ⟨tar, rfl, hnews⟩ | ⟨rfl, hnews⟩
    · rw [hnews]
      exact hs.last
    · rw [hnews]
      rfl
    · rw [hnews]
      exact hs.last

/-- Drawing keeps the count. -/
theorem Counted.preDraw (hs : s.Counted) {g : γ} {mode : Mode} {elements : List Bool}
    (h : s.step z (.preDraw g mode elements) = some t) : t.Counted := by
  obtain rfl := Option.some.inj h
  cases hdraws : (s.gauges g).draws mode elements s.decompressor with
  | none =>
    have hsame : (s.gauges g).callback mode elements s.decompressor = s.gauges g := by
      simp only [MetafileGauge.callback, hdraws]
    simpa only [hdraws, Option.isSome_none, Bool.false_eq_true, if_false, hsame,
      Function.update_eq_self] using hs
  | some metafile =>
    have hlast : s.decompressor.lastMetafile = some metafile := by
      cases mode with
      | client => exact (Option.filter_eq_some_iff.mp hdraws).1
      | idle => cases hdraws
      | host => cases hdraws
    simp only [Option.isSome_some, if_true]
    refine ⟨hs.counter, hs.last, fun g' hg' => ?_, fun g' before hbefore => ?_⟩
    · by_cases hg : g' = g
      · subst hg
        simp at hg'
      · simp only [ne_eq, hg, not_false_eq_true, Function.update_of_ne] at hg' ⊢
        exact hs.undrawn g' hg'
    · by_cases hg : g' = g
      · subst hg
        simp only [Function.update_self, Option.some.injEq] at hbefore
        subst hbefore
        simp only [Function.update_self, MetafileGauge.callback, hdraws]
        rw [← hs.last, hlast]
        exact ⟨hs.counter, rfl, by simp, List.suffix_refl _⟩
      · simp only [ne_eq, hg, not_false_eq_true, Function.update_of_ne] at hbefore ⊢
        exact hs.drawn g' before hbefore

/-- The count holds in every state. -/
theorem counted_of_reachable (hs : (displayMachine γ z).Reachable s) : s.Counted := by
  refine hs.invariant ?_ ?_
  · rintro s ⟨metafileElement, rfl⟩
    exact ⟨rfl, rfl, fun g _ => ⟨rfl, rfl⟩, fun g before hbefore => by cases hbefore⟩
  · intro s a t _ hcounted h
    cases a with
    | receive mdp => exact hcounted.receive h
    | preDraw g mode elements => exact hcounted.preDraw (z := z) h

omit [DecidableEq γ] in
/-- A gauge takes the frame for the one it shows when the numbers of frames agree. -/
theorem Counted.same_counter_iff (hs : s.Counted) (g : γ) :
    (s.gauges g).metafileCounter = s.decompressor.metafileCounter ↔
      match s.drawnAt g with
      | none => News.frames s.history % 2 ^ 32 = 2 ^ 32 - 1
      | some before => News.frames s.history % 2 ^ 32 = News.frames before % 2 ^ 32 := by
  rw [hs.counter, eq_comm]
  cases hg : s.drawnAt g with
  | none =>
    rw [(hs.undrawn g hg).1]
    exact UInt32.ofNat_eq_iff_mod_eq_toNat _ _
  | some before =>
    rw [(hs.drawn g before hg).1, UInt32.ofNat_eq_iff_mod_eq_toNat, UInt32.toNat_ofNat']

omit [DecidableEq γ] in
/-- A drawing is right exactly when the numbers of frames tell the frames apart. -/
theorem Counted.upToDate_iff (hs : s.Counted) (a : DisplayAction γ) :
    s.UpToDate a ↔ s.Distinguished a := by
  cases a with
  | receive mdp => exact Iff.rfl
  | preDraw g mode elements =>
    refine forall_congr' fun hmode => forall_congr' fun helement => ?_
    subst hmode
    have hsame := hs.same_counter_iff g
    cases hlast : s.decompressor.lastMetafile with
    | none =>
      have hnone : News.lastFrame s.history = none := hs.last.symm.trans hlast
      refine iff_of_true (by simp) ?_
      cases hg : s.drawnAt g with
      | none => simp [News.frames_of_lastFrame hnone]
      | some before =>
        -- what was drawn is still in the history
        obtain ⟨-, -, hsome, recent, hrecent⟩ := hs.drawn g before hg
        rw [← hrecent] at hnone
        exact absurd (News.lastFrame_of_append hnone) hsome
    | some last =>
      have hframe : News.lastFrame s.history = some last := hs.last.symm.trans hlast
      have hdraws := (s.gauges g).draws_client helement hlast
      simp only [Option.mem_def, Option.some.injEq, forall_eq', MetafileGauge.callback]
      by_cases hcounter : (s.gauges g).metafileCounter = s.decompressor.metafileCounter
      · rw [if_pos hcounter] at hdraws
        have hnumber := hsame.mp hcounter
        cases hg : s.drawnAt g with
        | none =>
          simp only [hg] at hnumber
          exact iff_of_false (by simp [hdraws, (hs.undrawn g hg).2]) (not_not.mpr hnumber)
        | some before =>
          simp only [hg] at hnumber
          simp only [hdraws, (hs.drawn g before hg).2.1, hnumber, true_implies, hframe]
          exact eq_comm
      · rw [if_neg hcounter] at hdraws
        have hdiffer := mt hsame.mpr hcounter
        simp only [hdraws, true_iff]
        cases hg : s.drawnAt g with
        | none => simpa only [hg] using hdiffer
        | some before =>
          simp only [hg] at hdiffer
          exact fun hequal => absurd hequal hdiffer

/-- In a run of a client every drawing leaves the last metafile on the gauge exactly when at every
drawing the numbers of frames tell the frames apart. -/
theorem metafiles_displayed_iff (z : Zdelta) (metafileElement : γ → ℕ)
    (as : List (DisplayAction γ)) :
    (displayMachine γ z).Along UpToDate (start metafileElement) as ↔
      (displayMachine γ z).Along Distinguished (start metafileElement) as :=
  Machine.along_congr (fun _ a hs => (counted_of_reachable hs).upToDate_iff a)
    (.initial ⟨_, rfl⟩) as

/-- A frame is drawn, a packet out of sequence comes, then the first frame after it. -/
def restartRun : List (DisplayAction Unit) :=
  [.receive ⟨0, [1]⟩, .preDraw () .client [true], .receive ⟨7, []⟩, .receive ⟨0, [2]⟩,
    .preDraw () .client [true]]

/-- The first frame after the reset is taken for the one drawn before it. -/
theorem restartRun_not_upToDate :
    ¬ (displayMachine Unit Zdelta.stored).Along UpToDate (start fun _ => 0) restartRun ∧
      ((displayMachine Unit Zdelta.stored).run (start fun _ => 0) restartRun).map
        (fun s => ((s.gauges ()).drawn, s.decompressor.lastMetafile)) =
          some (some [1], some [2]) := by
  decide

end MetafileDisplay

end Multicrew.Gauge
