import Multicrew.Core.ChannelProtocol
import Multicrew.Gauge.DetachedGauges
import Multicrew.Library.Machine

/-!
# The callbacks of gauge headers while a module is loaded

`module_init` puts the install callback of a new `GaugeModule` into the headers of a `Linkage`, with the
callback that was there in `user_area[9]`. The simulator copies such a header for every gauge of a panel
and calls the copy; an installed copy gets the callback of its `Gauge` until it is killed. Calls pass
through these callbacks to the gauge's own one, unless a metafile gauge draws. Headers are numbered by
their addresses.
-/

namespace Multicrew.Gauge

open Multicrew.Core (Str Mode)
open Multicrew.Library

/-- A callback in a header: the own one of a gauge, that of a `GaugeModule`, or that of one of the
gauges of a `GaugeModule`. -/
inductive PanelCallback
  | own (address : ℕ)
  | installCallback (module : ℕ)
  | callback (module gauge : ℕ)
  deriving DecidableEq, Repr

/-- What is used of a `GAUGEHDR`. The callback that the gauge's own code gave it stands beside it. -/
structure WrappedHeader where
  gaugeCallback : Option PanelCallback
  userArea9 : Option PanelCallback := none
  gaugeName : Str
  parameters : Option Str := none
  own : Option ℕ
  deriving DecidableEq, Repr

/-- The callback the gauge's own code gave the header. -/
def WrappedHeader.ownCallback (r : WrappedHeader) : Option PanelCallback := r.own.map .own

/-- A service the simulator asks for, with what decides at that moment what a gauge does: the
configuration, the mode, and whether a metafile gauge has its element and `compressor->open()`. -/
structure ServiceCall where
  serviceId : PanelService
  config : IntConfig := ⟨fun _ _ default => default⟩
  mode : Mode := .idle
  opens : Bool := false

/-- What the callback of a gauge does with the callback from before: `Gauge::callback` calls it, a
metafile gauge may record and draw, or display what the host sent instead. -/
inductive DrawPass
  | inherited
  | recorded
  | displayed
  deriving DecidableEq, Repr

/-- `PANEL_SERVICE_PRE_DRAW` -/
def preDraw : PanelService := .other 10

/-- Which way `MetafileGauge::callback` takes; other gauges have only `Gauge::callback`. -/
def ServiceCall.drawPass (call : ServiceCall) (metafile : Bool) : DrawPass :=
  if metafile ∧ call.serviceId = preDraw then
    match call.mode with
    | .idle => .inherited
    | .host => if call.opens then .recorded else .inherited
    | .client => .displayed
  else .inherited

/-- The calls of the callback from before. -/
def DrawPass.calls {α : Type*} : DrawPass → List α → List α
  | .inherited, calls => calls
  | .recorded, calls => calls ++ calls
  | .displayed, _ => []

/-- The headers in memory, a `ModuleLoader` and the `GaugeModule` it has, which is numbered. Of the gauges
the callbacks are kept that their headers had before. -/
structure WrappedModule where
  headers : ℕ → Option WrappedHeader
  mg : Option (ℕ × PanelRun) := none
  originalGaugeCallback : ℕ → Option PanelCallback := fun _ => none
  oldCallbacks : List (Option PanelCallback) := []
  modules : ℕ := 0

namespace WrappedModule

variable (s : WrappedModule)

/-- The module is the one that is there. -/
def Alive (module : ℕ) : Prop := ∃ m, s.mg = some (module, m)

instance (module : ℕ) : Decidable (s.Alive module) :=
  match h : s.mg with
  | none => .isFalse fun ⟨m, hm⟩ => by simp [h] at hm
  | some (k, m) =>
    if hk : k = module then .isTrue ⟨m, hk ▸ h⟩
    else .isFalse fun ⟨m', hm'⟩ => hk (by rw [h] at hm'; exact congrArg Prod.fst (Option.some.inj hm'))

/-- A write to the callback of a header. -/
def setCallback (p : ℕ) (callback : Option PanelCallback) : Option WrappedModule :=
  (s.headers p).map fun r =>
    { s with headers := Function.update s.headers p (some { r with gaugeCallback := callback }) }

/-- `Gauge::detach`, as far as it concerns the header of the gauge. -/
def detach (m : GaugeModule) (gauge : ℕ) : Option WrappedModule :=
  match (m.gauges[gauge]?).bind (·.gaugeHeader) with
  | none => some s
  | some p => s.setCallback p (s.originalGaugeCallback gauge)

/-- `Gauge::attach`, as far as it concerns the headers. -/
def attach (module : ℕ) (m : GaugeModule) (gauge p : ℕ) : Option WrappedModule := do
  let s ← s.detach m gauge
  let r ← s.headers p
  let s := { s with
    originalGaugeCallback := Function.update s.originalGaugeCallback gauge r.gaugeCallback }
  s.setCallback p (some (.callback module gauge))

/-- The second half of `GaugeModule::installGauge`, for `PANEL_SERVICE_POST_INSTALL`. -/
def installGauge (module : ℕ) (m : GaugeModule) (p : ℕ) : Option WrappedModule := do
  let r ← s.headers p
  let s ← s.setCallback p r.userArea9
  let gauge := (m.getDetachedGauge r.gaugeName r.parameters).1.getD m.gauges.length
  s.attach module m gauge p

/-- The module in its state after a call. -/
def setModule (module : ℕ) (m : PanelRun) : WrappedModule := { s with mg := some (module, m) }

/-- A call of a callback with the header `p`: the own callbacks called meanwhile, each with its header.
`GaugeModule::installGauge` and `Gauge::callback` call what was there before them first. Calls into a
module that is gone, endless ones, and recording a null pointer are undefined. -/
def dispatch (call : ServiceCall) :
    ℕ → Option PanelCallback → ℕ → WrappedModule → Option (List (ℕ × ℕ) × WrappedModule)
  | _, none, _, s => some ([], s)
  | _, some (.own address), p, s => some ([(address, p)], s)
  | 0, _, _, _ => none
  | depth + 1, some (.installCallback module), p, s =>
    if s.Alive module then do
      let r ← s.headers p
      let (calls, s) ← dispatch call depth r.userArea9 p s
      let (_, m) ← s.mg
      let s ← if call.serviceId = .postInstall then s.installGauge module m.module p else some s
      let pgauge : PanelHeader := ⟨p, r.gaugeName, r.parameters⟩
      some (calls, s.setModule module
        (m.next (m.module.installGauge call.config pgauge call.serviceId)))
    else none
  | depth + 1, some (.callback module gauge), _, s =>
    if s.Alive module then do
      let (_, m) ← s.mg
      let d ← m.module.gauges[gauge]?
      -- not the header of the call but that of the gauge
      let p ← d.gaugeHeader
      match call.drawPass d.metafile.isSome with
      | .inherited =>
        let (calls, s) ← dispatch call depth (s.originalGaugeCallback gauge) p s
        let (_, m) ← s.mg
        let s ← if call.serviceId = .preKill then s.detach m.module gauge else some s
        some (calls, s.setModule module (m.next (m.module.callback gauge call.serviceId)))
      | .recorded =>
        if s.originalGaugeCallback gauge = none then none
        else
          let (first, s) ← dispatch call depth (s.originalGaugeCallback gauge) p s
          let (second, s) ← dispatch call depth (s.originalGaugeCallback gauge) p s
          some (first ++ second, s)
      | .displayed => some ([], s)
    else none

/-- The gauges are detached one after the other. -/
def detachAll (m : GaugeModule) : List ℕ → WrappedModule → Option WrappedModule
  | [], s => some s
  | gauge :: rest, s => (s.detach m gauge).bind (detachAll m rest)

/-- `GaugeModule::~GaugeModule`: every gauge is detached by its destructor. -/
def deleteModule : Option WrappedModule :=
  match s.mg with
  | none => some s
  | some (_, m) =>
    (detachAll m.module (List.range m.module.gauges.length) s).map fun s => { s with mg := none }

/-- The loop of `ModuleLoader::module_init`. -/
def wrap (module : ℕ) : List ℕ → WrappedModule → Option WrappedModule
  | [], s => some s
  | h :: rest, s =>
    (s.headers h).bind fun r =>
      if r.gaugeCallback = some (.installCallback module) then
        wrap module rest { s with oldCallbacks := s.oldCallbacks ++ [r.userArea9] }
      else
        let wrapped := { r with
          userArea9 := r.gaugeCallback, gaugeCallback := some (.installCallback module) }
        wrap module rest { s with
          oldCallbacks := s.oldCallbacks ++ [r.gaugeCallback]
          headers := Function.update s.headers h (some wrapped) }

/-- `ModuleLoader::module_init`; `mg = new GaugeModule( name )` deletes the module from before. -/
def moduleInit (gaugeHeaderPtr : List ℕ) : Option WrappedModule := do
  let s ← s.deleteModule
  wrap s.modules (gaugeHeaderPtr.take 255) { s with mg := some (s.modules, {}), modules := s.modules + 1 }

/-- The loop of `ModuleLoader::module_deinit`. -/
def unwrap : List ℕ → List (Option PanelCallback) → WrappedModule → Option WrappedModule
  | _, [], s => some s
  | [], _ :: _, _ => none
  | h :: gaugeHeaderPtr, callback :: oldCallbacks, s =>
    (s.setCallback h callback).bind (unwrap gaugeHeaderPtr oldCallbacks)

/-- `ModuleLoader::module_deinit` -/
def moduleDeinit (gaugeHeaderPtr : List ℕ) : Option WrappedModule := do
  let s ← s.deleteModule
  let s ← unwrap gaugeHeaderPtr s.oldCallbacks s
  some { s with oldCallbacks := [] }

end WrappedModule

/-- What the simulator does: it initialises and deinitialises the module, copies one of its headers to a
new one with the parameters of a gauge of a panel, calls that one, and frees it. -/
inductive PanelAction
  | moduleInit
  | moduleDeinit
  | copy (h p : ℕ) (parameters : Option Str)
  | service (p : ℕ) (call : ServiceCall)
  | free (p : ℕ)

namespace WrappedModule

variable (gaugeHeaderPtr : List ℕ) (s : WrappedModule)

/-- One action. A panel calls and frees its own headers. -/
def step : PanelAction → Option WrappedModule
  | .moduleInit => s.moduleInit gaugeHeaderPtr
  | .moduleDeinit => s.moduleDeinit gaugeHeaderPtr
  | .copy h p parameters =>
    if h ∈ gaugeHeaderPtr ∧ s.headers p = none then
      (s.headers h).map fun r =>
        { s with headers := Function.update s.headers p (some { r with parameters := parameters }) }
    else none
  | .service p call =>
    if p ∈ gaugeHeaderPtr then none
    else (s.headers p).bind fun r => (dispatch call 3 r.gaugeCallback p s).map Prod.snd
  | .free p =>
    if p ∈ gaugeHeaderPtr ∨ s.headers p = none then none
    else some { s with headers := Function.update s.headers p none }

/-- The module as it is loaded. -/
def start (gaugeName : ℕ → Str) (own : ℕ → Option ℕ) : WrappedModule where
  headers h :=
    if h ∈ gaugeHeaderPtr then
      some { gaugeCallback := (own h).map .own, gaugeName := gaugeName h, own := own h }
    else none

/-- The way a call of a header takes. -/
def pass (call : ServiceCall) (r : WrappedHeader) : DrawPass :=
  match r.gaugeCallback with
  | some (.callback _ gauge) =>
    call.drawPass ((s.mg.bind fun km => km.2.module.gauges[gauge]?).any (·.metafile.isSome))
  | _ => .inherited

/-- A call with the header reaches the gauge's own callback once, with this header, and no other: twice
when a metafile is recorded, and not at all when one is displayed. -/
def Forwards (p : ℕ) (r : WrappedHeader) : Prop :=
  ∀ call, (s.pass call r = .recorded → r.own.isSome) → ∃ t,
    dispatch call 3 r.gaugeCallback p s =
      some ((s.pass call r).calls (r.own.toList.map (·, p)), t)

/-- Multicrew is not noticed: calls reach the gauges, attached gauges have headers that are in memory,
and without a module all headers are as the gauges' own code left them. -/
structure Unnoticed : Prop where
  forwards : ∀ p r, s.headers p = some r → s.Forwards p r
  attached : ∀ k m gauge p, s.mg = some (k, m) → m.module.Attached gauge p → (s.headers p).isSome
  restored : s.mg = none → ∀ p r, s.headers p = some r → r.gaugeCallback = r.ownCallback

/-- The module is not initialised again before it is deinitialised, it is deinitialised when all headers
of panels are installed or were never wrapped, and a header is freed when it was killed. -/
def Orderly : PanelAction → Prop
  | .moduleInit => s.mg = none ∨ gaugeHeaderPtr = []
  | .moduleDeinit => ∀ p r k, p ∉ gaugeHeaderPtr → s.headers p = some r →
      r.gaugeCallback ≠ some (.installCallback k)
  | .free p => ∀ k m gauge, s.mg = some (k, m) → ¬ m.module.Attached gauge p
  | _ => True

end WrappedModule

/-- The simulator with a module from its loading on. -/
def panels (gaugeHeaderPtr : List ℕ) : Machine WrappedModule PanelAction where
  initial s := ∃ gaugeName own, s = WrappedModule.start gaugeHeaderPtr gaugeName own
  step := WrappedModule.step gaugeHeaderPtr

/-! ### What a module does to its gauges -/

namespace GaugeModule

variable {m : GaugeModule} {gauge p q : ℕ}

/-- A gauge has one header. -/
theorem Attached.unique (hp : m.Attached gauge p) (hq : m.Attached gauge q) : p = q := by
  obtain ⟨d, hd, hheader⟩ := hp
  obtain ⟨d', hd', hheader'⟩ := hq
  obtain rfl := Option.some.inj (hd.symm.trans hd')
  exact Option.some.inj (hheader.symm.trans hheader')

/-- A gauge is attached to the header it keeps. -/
theorem attached_iff : m.Attached gauge p ↔ (m.gauges[gauge]?).bind (·.gaugeHeader) = some p := by
  simp only [Attached, Option.bind_eq_some_iff]

/-- The gauge that is installed has no header before, and is the only one that gets one. -/
theorem attached_installGauge (config : IntConfig) (pgauge : PanelHeader)
    (hkept : ∀ key gauge, gauge ∈ m.kept key → m.Idle key gauge) : ∃ gauge,
    (m.getDetachedGauge pgauge.gaugeName pgauge.parameters).1.getD m.gauges.length = gauge ∧
      (∀ q, ¬ m.Attached gauge q) ∧
      ∀ g q, (m.installGauge config pgauge .postInstall).Attached g q ↔
        g = gauge ∧ q = pgauge.address ∨ m.Attached g q := by
  obtain ⟨gauge, list, d, hlist, hd, heq⟩ | ⟨hlist, channels, metafile, heq⟩ :=
    installGauge_cases config pgauge hkept
  · have hnone := ((hkept _ gauge (hlist ▸ List.mem_cons_self)).key_unique hd).1
    refine ⟨gauge, ?_, fun q hq => ?_, fun g q => ?_⟩
    · rw [getDetachedGauge_eq]
      simp only [show m.kept (detachId pgauge.gaugeName (pgauge.parameters.getD [])) = gauge :: list
        from hlist, Option.getD_some]
    · rw [attached_iff, hd, Option.bind_some, hnone] at hq
      cases hq
    · rw [heq, attached_iff, attached_iff]
      by_cases hg : g = gauge
      · subst hg
        rw [List.getElem?_set_self (List.getElem?_eq_some_iff.mp hd).1, hd]
        simp [hnone, eq_comm]
      · rw [List.getElem?_set_ne (Ne.symm hg)]
        simp [hg]
  · refine ⟨m.gauges.length, ?_, fun q hq => ?_, fun g q => ?_⟩
    · rw [getDetachedGauge_eq]
      simp only [show m.kept (detachId pgauge.gaugeName (pgauge.parameters.getD [])) = [] from hlist,
        Option.getD_none]
    · rw [attached_iff, List.getElem?_eq_none (Nat.le_refl _)] at hq
      cases hq
    · rw [heq, attached_iff, attached_iff]
      rcases Nat.lt_trichotomy g m.gauges.length with hlt | rfl | hgt
      · rw [List.getElem?_append_left hlt]
        simp [Nat.ne_of_lt hlt]
      · simp [eq_comm]
      · rw [List.getElem?_eq_none (by simp; omega), List.getElem?_eq_none (by omega)]
        simp [Nat.ne_of_gt hgt]

/-- Other services of the module attach nothing. -/
theorem installGauge_of_ne (config : IntConfig) (pgauge : PanelHeader) {serviceId : PanelService}
    (h : serviceId ≠ .postInstall) : m.installGauge config pgauge serviceId = m := if_neg h

/-- A detached gauge loses its header, and no other gauge does. -/
theorem attached_detach (g q : ℕ) : (m.detach gauge).Attached g q ↔ g ≠ gauge ∧ m.Attached g q := by
  cases hd : m.gauges[gauge]? with
  | none =>
    have hsame : m.detach gauge = m := by simp [detach, hd]
    rw [hsame]
    refine ⟨fun h => ⟨?_, h⟩, fun h => h.2⟩
    rintro rfl
    rw [attached_iff, hd] at h
    cases h
  | some d =>
    have hlt := (List.getElem?_eq_some_iff.mp hd).1
    cases hheader : d.gaugeHeader with
    | none =>
      rw [detach_of_idle hd hheader]
      refine ⟨fun h => ⟨?_, h⟩, fun h => h.2⟩
      rintro rfl
      rw [attached_iff, hd, Option.bind_some, hheader] at h
      cases h
    | some p =>
      rw [detach_of_attached hd (by simp [hheader]), attached_iff, attached_iff]
      by_cases hg : g = gauge
      · subst hg
        simp [List.getElem?_set_self hlt]
      · simp [List.getElem?_set_ne (Ne.symm hg), hg]

end GaugeModule

/-! ### How the headers stand -/

namespace WrappedHeader

/-- The header is as the gauge's own code left it. -/
def Plain (r : WrappedHeader) : Prop := r.gaugeCallback = r.ownCallback

/-- The header is wrapped by a module. -/
def Wrapped (r : WrappedHeader) (module : ℕ) : Prop :=
  r.gaugeCallback = some (.installCallback module) ∧ r.userArea9 = r.ownCallback

/-- The gauge's own callback is none of Multicrew's. -/
theorem ownCallback_ne (r : WrappedHeader) (module : ℕ) :
    r.ownCallback ≠ some (.installCallback module) ∧
      ∀ gauge, r.ownCallback ≠ some (.callback module gauge) := by
  cases h : r.own <;> simp [ownCallback, h]

end WrappedHeader

namespace WrappedModule

variable {gaugeHeaderPtr : List ℕ} {s t : WrappedModule} {k p : ℕ} {m : PanelRun} {r : WrappedHeader}

/-- How the headers stand while a module is there. -/
structure Loaded (gaugeHeaderPtr : List ℕ) (s : WrappedModule) (k : ℕ) (m : PanelRun) : Prop where
  number : k < s.modules
  sound : m.Sound
  oldCallbacks : s.oldCallbacks = (gaugeHeaderPtr.take 255).map fun h =>
    (s.headers h).bind WrappedHeader.ownCallback
  wrapped : ∀ h ∈ gaugeHeaderPtr, ∀ r, s.headers h = some r →
    if h ∈ gaugeHeaderPtr.take 255 then r.Wrapped k else r.Plain
  copies : ∀ p, p ∉ gaugeHeaderPtr → ∀ r, s.headers p = some r → r.Plain ∨ r.Wrapped k ∨
    ∃ gauge, r.gaugeCallback = some (.callback k gauge) ∧ m.module.Attached gauge p
  attached : ∀ gauge p, m.module.Attached gauge p → p ∉ gaugeHeaderPtr ∧ ∃ r,
    s.headers p = some r ∧ r.gaugeCallback = some (.callback k gauge) ∧
      s.originalGaugeCallback gauge = r.ownCallback

/-- How the headers stand between two actions. -/
structure Sound (gaugeHeaderPtr : List ℕ) (s : WrappedModule) : Prop where
  present : ∀ h ∈ gaugeHeaderPtr, (s.headers h).isSome
  none_copied : gaugeHeaderPtr = [] → ∀ p, s.headers p = none
  unloaded : s.mg = none → s.oldCallbacks = [] ∧ ∀ p r, s.headers p = some r → r.Plain
  loaded : ∀ k m, s.mg = some (k, m) → s.Loaded gaugeHeaderPtr k m

/-- Every header is plain, wrapped, or that of a gauge which is attached to it. -/
theorem Loaded.cases (hs : s.Loaded gaugeHeaderPtr k m) (hr : s.headers p = some r) :
    r.Plain ∨ r.Wrapped k ∨
      ∃ gauge, r.gaugeCallback = some (.callback k gauge) ∧ m.module.Attached gauge p ∧
        p ∉ gaugeHeaderPtr ∧ s.originalGaugeCallback gauge = r.ownCallback := by
  by_cases hp : p ∈ gaugeHeaderPtr
  · have hstands := hs.wrapped p hp r hr
    split at hstands
    · exact .inr (.inl hstands)
    · exact .inl hstands
  · obtain h | h | ⟨gauge, hcallback, hattached⟩ := hs.copies p hp r hr
    · exact .inl h
    · exact .inr (.inl h)
    · obtain ⟨-, r', hr', -, horiginal⟩ := hs.attached gauge p hattached
      obtain rfl := Option.some.inj (hr.symm.trans hr')
      exact .inr (.inr ⟨gauge, hcallback, hattached, hp, horiginal⟩)

/-- A header with the callback of a gauge is the one of the gauge. -/
theorem Loaded.of_callback (hs : s.Loaded gaugeHeaderPtr k m) (hr : s.headers p = some r)
    {module gauge : ℕ} (hcallback : r.gaugeCallback = some (.callback module gauge)) :
    m.module.Attached gauge p ∧ s.originalGaugeCallback gauge = r.ownCallback := by
  obtain h | h | ⟨gauge', h, hattached, -, horiginal⟩ := hs.cases hr
  · exact absurd (h.symm.trans hcallback) ((r.ownCallback_ne module).2 gauge)
  · simp [h.1] at hcallback
  · rw [h] at hcallback
    simp only [Option.some.injEq, PanelCallback.callback.injEq] at hcallback
    exact hcallback.2 ▸ ⟨hattached, horiginal⟩

/-- No header has the callback of a module that is yet to come. -/
theorem Loaded.ne_installCallback (hs : s.Loaded gaugeHeaderPtr k m) (hr : s.headers p = some r) :
    r.gaugeCallback ≠ some (.installCallback s.modules) := by
  intro hcallback
  obtain h | h | ⟨gauge, h, -⟩ := hs.cases hr
  · exact (r.ownCallback_ne s.modules).1 (h.symm.trans hcallback)
  · have hk : k = s.modules := by simpa [h.1] using hcallback
    exact Nat.ne_of_lt hs.number hk
  · simp [h] at hcallback

/-! ### Calls -/

/-- Setting the callback of a header that exists. -/
theorem setCallback_of (hr : s.headers p = some r) (callback : Option PanelCallback) :
    s.setCallback p callback = some { s with
      headers := Function.update s.headers p (some { r with gaugeCallback := callback }) } := by
  simp only [setCallback, hr, Option.map_some]

/-- A plain header is called like a gauge without Multicrew. -/
theorem dispatch_own (r : WrappedHeader) (call : ServiceCall) (depth p : ℕ) (s : WrappedModule) :
    dispatch call depth r.ownCallback p s = some (r.own.toList.map (·, p), s) := by
  cases h : r.own <;> cases depth <;> simp [WrappedHeader.ownCallback, h, dispatch]

/-- A plain header passes every service to the gauge's own callback. -/
theorem pass_plain (call : ServiceCall) (h : r.Plain) : s.pass call r = .inherited := by
  unfold pass
  split
  · rename_i module gauge hcallback
    exact absurd (h.symm.trans hcallback) ((r.ownCallback_ne module).2 gauge)
  · rfl

/-- So does a wrapped one. -/
theorem pass_wrapped (call : ServiceCall) (h : r.Wrapped k) : s.pass call r = .inherited := by
  simp only [pass, h.1]

/-- A wrapped header is called like one without Multicrew, and then installed if it is time. -/
theorem dispatch_wrapped (hmg : s.mg = some (k, m)) (hr : s.headers p = some r) (hw : r.Wrapped k)
    (call : ServiceCall) :
    dispatch call 3 r.gaugeCallback p s =
      (if call.serviceId = .postInstall then s.installGauge k m.module p else some s).map fun t =>
        (r.own.toList.map (·, p), t.setModule k (m.next
          (m.module.installGauge call.config ⟨p, r.gaugeName, r.parameters⟩ call.serviceId))) := by
  have halive : s.Alive k := ⟨m, hmg⟩
  rw [hw.1, dispatch, if_pos halive, hr, Option.bind_eq_bind, Option.bind_some, hw.2, dispatch_own]
  simp only [Option.bind_eq_bind, Option.bind_some, hmg]
  by_cases hservice : call.serviceId = .postInstall
  · simp only [if_pos hservice, Option.map_eq_bind]
    rfl
  · simp only [if_neg hservice, Option.map_some]

/-- An attached header is called like one without Multicrew, and then detached if it is killed. Only a
metafile gauge calls the gauge's own callback twice or not at all. -/
theorem dispatch_callback {gauge : ℕ} (hmg : s.mg = some (k, m))
    (hcallback : r.gaugeCallback = some (.callback k gauge)) (hattached : m.module.Attached gauge p)
    (horiginal : s.originalGaugeCallback gauge = r.ownCallback) (call : ServiceCall) (q : ℕ) :
    dispatch call 3 r.gaugeCallback q s =
      match s.pass call r with
      | .inherited =>
        (if call.serviceId = .preKill then s.detach m.module gauge else some s).map fun t =>
          (r.own.toList.map (·, p),
            t.setModule k (m.next (m.module.callback gauge call.serviceId)))
      | .recorded =>
        if r.ownCallback = none then none
        else some (r.own.toList.map (·, p) ++ r.own.toList.map (·, p), s)
      | .displayed => some ([], s) := by
  have halive : s.Alive k := ⟨m, hmg⟩
  obtain ⟨d, hd, hheader⟩ := hattached
  have hpass : s.pass call r = call.drawPass d.metafile.isSome := by
    simp only [pass, hcallback, hmg, Option.bind_some, hd, Option.any_some]
  rw [hpass, hcallback, dispatch, if_pos halive]
  simp only [hmg, Option.bind_eq_bind, Option.bind_some, hd, hheader]
  cases call.drawPass d.metafile.isSome with
  | inherited =>
    simp only [horiginal, dispatch_own, Option.bind_some, hmg]
    by_cases hservice : call.serviceId = .preKill
    · simp only [if_pos hservice, Option.map_eq_bind]
      rfl
    · simp only [if_neg hservice, Option.map_some]
  | recorded => simp only [horiginal, dispatch_own, Option.bind_some]
  | displayed => rfl

/-- Installing a wrapped header gives it the callback of a gauge that had no header, and the gauge the
callback of the header. -/
theorem Loaded.installGauge (hs : s.Loaded gaugeHeaderPtr k m) (hr : s.headers p = some r)
    (hw : r.Wrapped k) (config : IntConfig) : ∃ gauge,
    s.installGauge k m.module p = some { s with
      originalGaugeCallback := Function.update s.originalGaugeCallback gauge r.ownCallback
      headers := Function.update s.headers p
        (some { r with gaugeCallback := some (.callback k gauge) }) } ∧
    (∀ q, ¬ m.module.Attached gauge q) ∧
    ∀ g q, (m.module.installGauge config ⟨p, r.gaugeName, r.parameters⟩ .postInstall).Attached g q ↔
      g = gauge ∧ q = p ∨ m.module.Attached g q := by
  obtain ⟨gauge, hgauge, hidle, hattached⟩ := GaugeModule.attached_installGauge config
    ⟨p, r.gaugeName, r.parameters⟩ fun key g => (hs.sound.lists.mem_iff key g).mp
  refine ⟨gauge, ?_, hidle, hattached⟩
  have hnone : (m.module.gauges[gauge]?).bind (·.gaugeHeader) = none := by
    cases h : (m.module.gauges[gauge]?).bind (·.gaugeHeader) with
    | none => rfl
    | some q => exact absurd (GaugeModule.attached_iff.mpr h) (hidle q)
  simp only [WrappedModule.installGauge, hr, Option.bind_eq_bind, Option.bind_some,
    setCallback_of hr, hgauge, attach, detach, hnone, Function.update_self, hw.2]
  rw [setCallback_of (Function.update_self ..)]
  simp only [Function.update_idem]

/-- Detaching an attached gauge makes its header plain. -/
theorem detach_of_attached {gauge : ℕ} (hr : s.headers p = some r)
    (hattached : m.module.Attached gauge p) (horiginal : s.originalGaugeCallback gauge = r.ownCallback) :
    s.detach m.module gauge = some { s with
      headers := Function.update s.headers p (some { r with gaugeCallback := r.ownCallback }) } := by
  rw [detach, GaugeModule.attached_iff.mp hattached]
  simp only [setCallback_of hr, horiginal]

/-! ### Calls keep the headers in order -/

/-- What a call does: nothing to the headers, or one header is installed, or one is killed. Whatever the
gauges attached, the module stays the same one. Only recording a null pointer is undefined. -/
theorem Loaded.dispatch (hs : s.Loaded gaugeHeaderPtr k m) (hmg : s.mg = some (k, m))
    (hr : s.headers p = some r) (call : ServiceCall)
    (hown : s.pass call r = .recorded → r.own.isSome) : ∃ t m',
    WrappedModule.dispatch call 3 r.gaugeCallback p s =
      some ((s.pass call r).calls (r.own.toList.map (·, p)), t.setModule k m') ∧ m'.Sound ∧
    ((t = s ∧ ∀ g q, m'.module.Attached g q ↔ m.module.Attached g q) ∨
      (r.Wrapped k ∧ ∃ gauge, t = { s with
          originalGaugeCallback := Function.update s.originalGaugeCallback gauge r.ownCallback
          headers := Function.update s.headers p
            (some { r with gaugeCallback := some (.callback k gauge) }) } ∧
        (∀ q, ¬ m.module.Attached gauge q) ∧
        ∀ g q, m'.module.Attached g q ↔ g = gauge ∧ q = p ∨ m.module.Attached g q) ∨
      ∃ gauge, m.module.Attached gauge p ∧ t = { s with
          headers := Function.update s.headers p
            (some { r with gaugeCallback := r.ownCallback }) } ∧
        ∀ g q, m'.module.Attached g q ↔ g ≠ gauge ∧ m.module.Attached g q) := by
  have hself : s.setModule k m = s := by rw [setModule, ← hmg]
  obtain h | h | ⟨gauge, hcallback, hattached, -, horiginal⟩ := hs.cases hr
  · refine ⟨s, m, ?_, hs.sound, .inl ⟨rfl, fun _ _ => Iff.rfl⟩⟩
    rw [pass_plain call h, h, dispatch_own, hself]
    rfl
  · have hsound := hs.sound.installGauge call.config ⟨p, r.gaugeName, r.parameters⟩ call.serviceId
    rw [pass_wrapped call h, dispatch_wrapped hmg hr h]
    by_cases hservice : call.serviceId = .postInstall
    · rw [hservice] at hsound ⊢
      obtain ⟨gauge, heq, hidle, hattached⟩ := hs.installGauge hr h call.config
      rw [if_pos rfl, heq]
      exact ⟨_, _, rfl, hsound, .inr (.inl ⟨h, gauge, rfl, hidle, hattached⟩)⟩
    · rw [if_neg hservice]
      refine ⟨s, _, rfl, hsound, .inl ⟨rfl, fun g q => ?_⟩⟩
      simp only [PanelRun.next, GaugeModule.installGauge_of_ne call.config _ hservice]
  · rw [dispatch_callback hmg hcallback hattached horiginal]
    cases hpass : s.pass call r with
    | displayed =>
      exact ⟨s, m, by rw [hself]; rfl, hs.sound, .inl ⟨rfl, fun _ _ => Iff.rfl⟩⟩
    | recorded =>
      have hne : r.ownCallback ≠ none := by
        obtain ⟨address, haddress⟩ := Option.isSome_iff_exists.mp (hown hpass)
        simp [WrappedHeader.ownCallback, haddress]
      refine ⟨s, m, ?_, hs.sound, .inl ⟨rfl, fun _ _ => Iff.rfl⟩⟩
      simp only [if_neg hne, hself]
      rfl
    | inherited =>
      have hlt : gauge < m.module.gauges.length := by
        obtain ⟨d, hd, -⟩ := hattached
        exact (List.getElem?_eq_some_iff.mp hd).1
      have hsound : (m.next (m.module.callback gauge call.serviceId)).Sound :=
        hs.sound.step (a := .callback gauge call.serviceId) (if_pos hlt)
      by_cases hservice : call.serviceId = .preKill
      · simp only [hservice, if_true] at hsound ⊢
        rw [detach_of_attached hr hattached horiginal]
        exact ⟨_, _, rfl, hsound, .inr (.inr ⟨gauge, hattached, rfl, GaugeModule.attached_detach⟩)⟩
      · simp only [if_neg hservice]
        refine ⟨s, _, rfl, hsound, .inl ⟨rfl, fun g q => ?_⟩⟩
        cases hid : call.serviceId with
        | preKill => exact absurd hid hservice
        | postInstall | other => exact Iff.rfl

/-- Recording a null pointer is undefined. -/
theorem Loaded.dispatch_null (hs : s.Loaded gaugeHeaderPtr k m) (hmg : s.mg = some (k, m))
    (hr : s.headers p = some r) {call : ServiceCall} (hpass : s.pass call r = .recorded)
    (hown : r.own = none) : WrappedModule.dispatch call 3 r.gaugeCallback p s = none := by
  obtain h | h | ⟨gauge, hcallback, hattached, -, horiginal⟩ := hs.cases hr
  · rw [pass_plain call h] at hpass
    cases hpass
  · rw [pass_wrapped call h] at hpass
    cases hpass
  · rw [dispatch_callback hmg hcallback hattached horiginal, hpass]
    simp [WrappedHeader.ownCallback, hown]

/-- One header of a panel is changed, and what its module remembers of it. -/
theorem Loaded.change (hs : s.Loaded gaugeHeaderPtr k m) (hp : p ∉ gaugeHeaderPtr) {m' : PanelRun}
    (hm : m'.Sound) (hmodules : t.modules = s.modules) (hold : t.oldCallbacks = s.oldCallbacks)
    (hother : ∀ q, q ≠ p → t.headers q = s.headers q)
    (hr : ∀ r, t.headers p = some r → r.Plain ∨ r.Wrapped k ∨
      ∃ gauge, r.gaugeCallback = some (.callback k gauge) ∧ m'.module.Attached gauge p)
    (hkept : ∀ gauge q, q ≠ p → m.module.Attached gauge q → m'.module.Attached gauge q)
    (hattached : ∀ gauge q, m'.module.Attached gauge q →
      (q ≠ p ∧ m.module.Attached gauge q ∧
        t.originalGaugeCallback gauge = s.originalGaugeCallback gauge) ∨
      (q = p ∧ ∃ r, t.headers p = some r ∧ r.gaugeCallback = some (.callback k gauge) ∧
        t.originalGaugeCallback gauge = r.ownCallback)) :
    t.Loaded gaugeHeaderPtr k m' where
  number := hmodules ▸ hs.number
  sound := hm
  oldCallbacks := by
    refine hold.trans (hs.oldCallbacks.trans (List.map_congr_left fun h hh => ?_))
    rw [hother h fun heq => hp (heq ▸ List.mem_of_mem_take hh)]
  wrapped h hh r' hr' := hs.wrapped h hh r' (by rwa [hother h fun heq => hp (heq ▸ hh)] at hr')
  copies q hq r' hr' := by
    by_cases hne : q = p
    · subst hne
      exact hr r' hr'
    · obtain h | h | ⟨gauge, hcallback, h⟩ := hs.copies q hq r' (hother q hne ▸ hr')
      · exact .inl h
      · exact .inr (.inl h)
      · exact .inr (.inr ⟨gauge, hcallback, hkept gauge q hne h⟩)
  attached gauge q h := by
    obtain ⟨hne, hbefore, horiginal⟩ | ⟨rfl, r, hr', hcallback, horiginal⟩ := hattached gauge q h
    · obtain ⟨hq, r', hr', hcallback, hown⟩ := hs.attached gauge q hbefore
      exact ⟨hq, r', (hother q hne).trans hr', hcallback, horiginal.trans hown⟩
    · exact ⟨hp, r, hr', hcallback, horiginal⟩

/-- A change to a header of a panel keeps the headers in order if it does while a module is there. -/
theorem Sound.change (hs : s.Sound gaugeHeaderPtr) (hp : p ∉ gaugeHeaderPtr)
    (hother : ∀ q, q ≠ p → t.headers q = s.headers q)
    (hnone : gaugeHeaderPtr = [] → t.headers p = none)
    (hunloaded : t.mg = none → s.mg = none ∧ t.oldCallbacks = s.oldCallbacks ∧
      ∀ r, t.headers p = some r → r.Plain)
    (hloaded : ∀ k m, t.mg = some (k, m) → t.Loaded gaugeHeaderPtr k m) :
    t.Sound gaugeHeaderPtr where
  present h hh := by
    rw [hother h fun heq => hp (heq ▸ hh)]
    exact hs.present h hh
  none_copied hptr q := by
    by_cases hne : q = p
    · exact hne ▸ hnone hptr
    · exact (hother q hne).trans (hs.none_copied hptr q)
  unloaded hmg := by
    obtain ⟨hbefore, hold, hplain⟩ := hunloaded hmg
    refine ⟨hold.trans (hs.unloaded hbefore).1, fun q r hr => ?_⟩
    by_cases hne : q = p
    · subst hne
      exact hplain r hr
    · exact (hs.unloaded hbefore).2 q r (hother q hne ▸ hr)
  loaded := hloaded

/-- Installing a wrapped header keeps the headers in order. -/
theorem Loaded.installed (hs : s.Loaded gaugeHeaderPtr k m) (hp : p ∉ gaugeHeaderPtr)
    (hr : s.headers p = some r) (hw : r.Wrapped k) {m' : PanelRun} (hm : m'.Sound) {gauge : ℕ}
    (hidle : ∀ q, ¬ m.module.Attached gauge q)
    (hattached : ∀ g q, m'.module.Attached g q ↔ g = gauge ∧ q = p ∨ m.module.Attached g q) :
    ({ s with
      mg := some (k, m')
      originalGaugeCallback := Function.update s.originalGaugeCallback gauge r.ownCallback
      headers := Function.update s.headers p
        (some { r with gaugeCallback := some (.callback k gauge) }) } : WrappedModule).Loaded
      gaugeHeaderPtr k m' := by
  refine hs.change hp hm rfl rfl (fun q hq => Function.update_of_ne hq ..) ?_ ?_ ?_
  · intro r' hr'
    dsimp only at hr'
    rw [Function.update_self] at hr'
    obtain rfl := Option.some.inj hr'
    exact .inr (.inr ⟨gauge, rfl, (hattached gauge p).mpr (.inl ⟨rfl, rfl⟩)⟩)
  · exact fun g q _ hg => (hattached g q).mpr (.inr hg)
  · intro g q hg
    obtain ⟨rfl, rfl⟩ | hbefore := (hattached g q).mp hg
    · exact .inr ⟨rfl, _, Function.update_self .., rfl, Function.update_self ..⟩
    · have hgauge : g ≠ gauge := fun heq => hidle q (heq ▸ hbefore)
      refine .inl ⟨?_, hbefore, Function.update_of_ne hgauge ..⟩
      rintro rfl
      -- a wrapped header is not attached
      obtain ⟨-, r', hr', hcallback, -⟩ := hs.attached g q hbefore
      obtain rfl := Option.some.inj (hr.symm.trans hr')
      simp [hw.1] at hcallback

/-- Killing an attached header keeps the headers in order. -/
theorem Loaded.killed (hs : s.Loaded gaugeHeaderPtr k m) (hp : p ∉ gaugeHeaderPtr)
    {m' : PanelRun} (hm : m'.Sound) {gauge : ℕ} (hgauge : m.module.Attached gauge p)
    (hattached : ∀ g q, m'.module.Attached g q ↔ g ≠ gauge ∧ m.module.Attached g q) :
    ({ s with
      mg := some (k, m')
      headers := Function.update s.headers p
        (some { r with gaugeCallback := r.ownCallback }) } : WrappedModule).Loaded
      gaugeHeaderPtr k m' := by
  refine hs.change hp hm rfl rfl (fun q hq => Function.update_of_ne hq ..) ?_ ?_ ?_
  · intro r' hr'
    dsimp only at hr'
    rw [Function.update_self] at hr'
    obtain rfl := Option.some.inj hr'
    exact .inl rfl
  · intro g q hq hg
    refine (hattached g q).mpr ⟨?_, hg⟩
    rintro rfl
    exact hq (hg.unique hgauge)
  · intro g q hg
    obtain ⟨hne, hbefore⟩ := (hattached g q).mp hg
    refine .inl ⟨?_, hbefore, rfl⟩
    rintro rfl
    -- the header has the callback of one gauge only
    obtain ⟨-, r₁, hr₁, hcallback₁, -⟩ := hs.attached g q hbefore
    obtain ⟨-, r₂, hr₂, hcallback₂, -⟩ := hs.attached gauge q hgauge
    obtain rfl := Option.some.inj (hr₁.symm.trans hr₂)
    have hsame := hcallback₁.symm.trans hcallback₂
    simp only [Option.some.injEq, PanelCallback.callback.injEq, true_and] at hsame
    exact hne hsame

/-- A call with a header of a panel keeps the headers in order. -/
theorem Sound.service (hs : s.Sound gaugeHeaderPtr) (hp : p ∉ gaugeHeaderPtr)
    (hr : s.headers p = some r) {call : ServiceCall} {result : List (ℕ × ℕ) × WrappedModule}
    (hresult : dispatch call 3 r.gaugeCallback p s = some result) :
    result.2.Sound gaugeHeaderPtr := by
  cases hmg : s.mg with
  | none =>
    rw [(hs.unloaded hmg).2 p r hr, dispatch_own] at hresult
    exact Option.some.inj hresult ▸ hs
  | some km =>
    obtain ⟨k, m⟩ := km
    have hl := hs.loaded k m hmg
    have hne : gaugeHeaderPtr ≠ [] := by
      intro hptr
      rw [hs.none_copied hptr p] at hr
      cases hr
    have hsound : ∀ t : WrappedModule, (∀ q, q ≠ p → t.headers q = s.headers q) → ∀ m',
        (t.setModule k m').Loaded gaugeHeaderPtr k m' →
          (t.setModule k m').Sound gaugeHeaderPtr := by
      intro t hother m' hloaded
      refine hs.change hp hother (fun hptr => absurd hptr hne) nofun ?_
      rintro k' m'' hk
      obtain ⟨rfl, rfl⟩ := Prod.mk.inj (Option.some.inj hk)
      exact hloaded
    have hown : s.pass call r = .recorded → r.own.isSome := by
      intro hpass
      by_contra hnone
      rw [hl.dispatch_null hmg hr hpass (Option.not_isSome_iff_eq_none.mp hnone)] at hresult
      cases hresult
    obtain ⟨t, m', hcall, hm, h⟩ := hl.dispatch hmg hr call hown
    obtain rfl := Option.some.inj (hcall.symm.trans hresult)
    obtain ⟨rfl, hsame⟩ | ⟨hw, gauge, rfl, hidle, hattached⟩ | ⟨gauge, hgauge, rfl, hattached⟩ := h
    · refine hsound t (fun _ _ => rfl) m' ?_
      exact {
        number := hl.number
        sound := hm
        oldCallbacks := hl.oldCallbacks
        wrapped := hl.wrapped
        copies := fun q hq r' hr' => by simpa only [hsame] using hl.copies q hq r' hr'
        attached := fun g q hg => hl.attached g q ((hsame g q).mp hg) }
    · exact hsound _ (fun q hq => Function.update_of_ne hq ..) m'
        (hl.installed hp hr hw hm hidle hattached)
    · exact hsound _ (fun q hq => Function.update_of_ne hq ..) m'
        (hl.killed hp hm hgauge hattached)

/-! ### The module comes and goes -/

/-- A header after its gauge was deleted, if that is one of some. -/
def released (gauges : List ℕ) (r : WrappedHeader) : WrappedHeader :=
  match r.gaugeCallback with
  | some (.callback _ gauge) =>
    if gauge ∈ gauges then { r with gaugeCallback := r.ownCallback } else r
  | _ => r

/-- Detaching gauges one after the other releases their headers and changes nothing else. -/
theorem Loaded.detachAll (hs : s.Loaded gaugeHeaderPtr k m) (gauges done : List ℕ)
    {u : WrappedModule} (hu : u = { s with headers := fun p => (s.headers p).map (released done) }) :
    WrappedModule.detachAll m.module gauges u =
      some { s with headers := fun p => (s.headers p).map (released (done ++ gauges)) } := by
  induction gauges generalizing done u with
  | nil => rw [WrappedModule.detachAll, hu, List.append_nil]
  | cons gauge rest ih =>
    have hstep : u.detach m.module gauge =
        some { s with headers := fun p => (s.headers p).map (released (done ++ [gauge])) } := by
      -- only the header of this gauge can change
      have hother : ∀ q, ¬ m.module.Attached gauge q → ∀ r, s.headers q = some r →
          released (done ++ [gauge]) r = released done r := by
        intro q hq r hr
        simp only [released]
        split
        · rename_i module g hcallback
          have hne : g ≠ gauge := fun heq => hq (heq ▸ (hs.of_callback hr hcallback).1)
          simp only [List.mem_append, List.mem_singleton, hne, or_false]
        · rfl
      have hmap : ∀ q, ¬ m.module.Attached gauge q →
          (s.headers q).map (released (done ++ [gauge])) = (s.headers q).map (released done) := by
        intro q hq
        cases hr : s.headers q with
        | none => rfl
        | some r => simp only [Option.map_some, hother q hq r hr]
      cases hheader : (m.module.gauges[gauge]?).bind (·.gaugeHeader) with
      | none =>
        have hidle : ∀ q, ¬ m.module.Attached gauge q := fun q hq => by
          rw [GaugeModule.attached_iff, hheader] at hq
          cases hq
        simp only [detach, hheader, hu, hmap _ (hidle _)]
      | some p =>
        have hattached := GaugeModule.attached_iff.mpr hheader
        obtain ⟨-, r, hr, hcallback, horiginal⟩ := hs.attached gauge p hattached
        have hhere : u.headers p = some (released done r) := by rw [hu]; simp only [hr, Option.map_some]
        have hdone : ({ released done r with gaugeCallback := r.ownCallback } : WrappedHeader) =
            released (done ++ [gauge]) r := by
          simp only [released, hcallback, List.mem_append, List.mem_singleton, or_true, if_true]
          split <;> rfl
        rw [detach, hheader]
        simp only [setCallback_of hhere]
        subst hu
        simp only [horiginal, hdone, Option.some.injEq, mk.injEq, and_true]
        funext q
        by_cases hq : q = p
        · subst hq
          rw [Function.update_self, hr, Option.map_some]
        · rw [Function.update_of_ne hq, hmap q fun h => hq (h.unique hattached)]
    rw [WrappedModule.detachAll, hstep, Option.bind_some, ih (done ++ [gauge]) rfl, List.append_assoc,
      List.singleton_append]

/-- A header after the module was deleted. -/
def unattached (r : WrappedHeader) : WrappedHeader :=
  match r.gaugeCallback with
  | some (.callback _ _) => { r with gaugeCallback := r.ownCallback }
  | _ => r

/-- The header keeps its own code. -/
theorem unattached_own (r : WrappedHeader) : (unattached r).own = r.own := by
  unfold unattached
  split <;> rfl

/-- A plain header stays as it is. -/
theorem unattached_plain (h : r.Plain) : unattached r = r := by
  unfold unattached
  split
  · rename_i module gauge hcallback
    exact absurd (h.symm.trans hcallback) ((r.ownCallback_ne module).2 gauge)
  · rfl

/-- So does one that waits to be installed. -/
theorem unattached_installCallback (h : r.gaugeCallback = some (.installCallback k)) :
    unattached r = r := by
  simp only [unattached, h]

/-- Deleting the module releases the headers of all gauges. -/
theorem Sound.deleteModule (hs : s.Sound gaugeHeaderPtr) :
    s.deleteModule = some { s with mg := none, headers := fun p => (s.headers p).map unattached } := by
  cases hmg : s.mg with
  | none =>
    have hheaders : s.headers = fun p => (s.headers p).map unattached := by
      funext p
      cases hr : s.headers p with
      | none => rfl
      | some r => rw [Option.map_some, unattached_plain ((hs.unloaded hmg).2 p r hr)]
    have hself : ({ s with mg := none } : WrappedModule) = s := by rw [← hmg]
    rw [← hheaders, hself]
    simp only [WrappedModule.deleteModule, hmg]
  | some km =>
    obtain ⟨k, m⟩ := km
    have hl := hs.loaded k m hmg
    have hstart : s = { s with headers := fun p => (s.headers p).map (released []) } := by
      have hnil : ∀ r, released [] r = r := fun r => by
        unfold released
        split <;> simp
      have hid : released [] = id := funext hnil
      simp only [hid, Option.map_id_fun, id]
    have hall : ∀ p, (s.headers p).map (released ([] ++ List.range m.module.gauges.length)) =
        (s.headers p).map unattached := by
      intro p
      cases hr : s.headers p with
      | none => rfl
      | some r =>
        simp only [Option.map_some, released, unattached, List.nil_append, List.mem_range]
        split
        · rename_i module gauge hcallback
          obtain ⟨d, hd, -⟩ := (hl.of_callback hr hcallback).1
          rw [if_pos (List.getElem?_eq_some_iff.mp hd).1]
        · rfl
    have hdetached := hl.detachAll (List.range m.module.gauges.length) [] hstart
    simp only [WrappedModule.deleteModule, hmg, hdetached, Option.map_some, hall]

/-- The loop of `module_init` wraps every header of the list once, also one that comes twice. -/
theorem wrap_eq (module : ℕ) (headers : ℕ → Option WrappedHeader)
    (hnew : ∀ p r, headers p = some r → r.gaugeCallback ≠ some (.installCallback module))
    (list done : List ℕ) (hlist : ∀ h ∈ list, (headers h).isSome)
    (hs : s.headers = fun p => (headers p).map fun r => if p ∈ done then { r with
      userArea9 := r.gaugeCallback, gaugeCallback := some (.installCallback module) } else r) :
    wrap module list s = some { s with
      oldCallbacks := s.oldCallbacks ++ list.map fun h => (headers h).bind (·.gaugeCallback)
      headers := fun p => (headers p).map fun r => if p ∈ done ++ list then { r with
        userArea9 := r.gaugeCallback, gaugeCallback := some (.installCallback module) } else r } := by
  induction list generalizing s done with
  | nil => simp only [wrap, List.map_nil, List.append_nil, ← hs]
  | cons h rest ih =>
    obtain ⟨r, hr⟩ := Option.isSome_iff_exists.mp (hlist h List.mem_cons_self)
    have hrest : ∀ h ∈ rest, (headers h).isSome := fun h' hh' => hlist h' (List.mem_cons_of_mem h hh')
    have hold : ∀ old : List (Option PanelCallback), old ++ [r.gaugeCallback] ++
        rest.map (fun h => (headers h).bind (·.gaugeCallback)) =
          old ++ (h :: rest).map fun h => (headers h).bind (·.gaugeCallback) := by
      intro old
      simp only [List.append_assoc, List.singleton_append, List.map_cons, hr, Option.bind_some]
    have happend : ∀ p, p ∈ done ++ [h] ++ rest ↔ p ∈ done ++ h :: rest := by
      intro p
      rw [List.append_assoc, List.singleton_append]
    by_cases hdone : h ∈ done
    · have hhere : s.headers h = some { r with
          userArea9 := r.gaugeCallback, gaugeCallback := some (.installCallback module) } := by
        simp only [hs, hr, Option.map_some, if_pos hdone]
      rw [wrap, hhere, Option.bind_some, if_pos rfl,
        ih (s := { s with oldCallbacks := s.oldCallbacks ++ [r.gaugeCallback] }) done hrest hs]
      simp only [hold]
      congr 2
      funext p
      simp only [List.mem_append, List.mem_cons]
      by_cases hp : p = h
      · simp only [hp, hdone, true_or]
      · simp only [hp, false_or]
    · have hhere : s.headers h = some r := by simp only [hs, hr, Option.map_some, if_neg hdone]
      have hne := hnew h r hr
      rw [wrap, hhere, Option.bind_some, if_neg hne, ih (done ++ [h]) hrest]
      · simp only [hold, happend]
      · funext p
        by_cases hp : p = h
        · subst hp
          simp [hr]
        · simp only [Function.update_of_ne hp, hs, List.mem_append, List.mem_singleton, hp, or_false]

/-- The loop of `module_deinit` gives every header of the list what was kept of it. -/
theorem unwrap_eq (callback : ℕ → Option PanelCallback) (list : List ℕ) (n : ℕ)
    (hlist : ∀ h ∈ list, (s.headers h).isSome) :
    unwrap list ((list.take n).map callback) s = some { s with
      headers := fun p => (s.headers p).map fun r =>
        if p ∈ list.take n then { r with gaugeCallback := callback p } else r } := by
  induction list generalizing s n with
  | nil => simp [unwrap]
  | cons h rest ih =>
    cases n with
    | zero => simp [unwrap]
    | succ n =>
      obtain ⟨r, hr⟩ := Option.isSome_iff_exists.mp (hlist h List.mem_cons_self)
      rw [List.take_succ_cons, List.map_cons, unwrap, setCallback_of hr, Option.bind_some, ih]
      · congr 2
        funext p
        by_cases hp : p = h
        · subst hp
          simp [hr]
        · simp [hp]
      · intro h' hh'
        by_cases hp : h' = h
        · simp [hp]
        · simpa [hp] using hlist h' (List.mem_cons_of_mem h hh')

/-- No header has the callback of a module that is yet to come. -/
theorem Sound.ne_installCallback (hs : s.Sound gaugeHeaderPtr) (hr : s.headers p = some r) :
    r.gaugeCallback ≠ some (.installCallback s.modules) := by
  cases hmg : s.mg with
  | none =>
    rw [(hs.unloaded hmg).2 p r hr]
    exact (r.ownCallback_ne s.modules).1
  | some km => exact (hs.loaded km.1 km.2 hmg).ne_installCallback hr

/-- What `module_init` does. -/
theorem Sound.moduleInit_eq (hs : s.Sound gaugeHeaderPtr) :
    s.moduleInit gaugeHeaderPtr = some { s with
      mg := some (s.modules, {})
      modules := s.modules + 1
      oldCallbacks := s.oldCallbacks ++ (gaugeHeaderPtr.take 255).map fun h =>
        ((s.headers h).map unattached).bind (·.gaugeCallback)
      headers := fun p => ((s.headers p).map unattached).map fun r =>
        if p ∈ gaugeHeaderPtr.take 255 then { r with
          userArea9 := r.gaugeCallback, gaugeCallback := some (.installCallback s.modules) }
        else r } := by
  have hnew : ∀ p r, (s.headers p).map unattached = some r →
      r.gaugeCallback ≠ some (.installCallback s.modules) := by
    intro p r' hr'
    obtain ⟨r, hr, rfl⟩ := Option.map_eq_some_iff.mp hr'
    unfold unattached
    split
    · exact (r.ownCallback_ne s.modules).1
    · exact hs.ne_installCallback hr
  have hpresent : ∀ h ∈ gaugeHeaderPtr.take 255, ((s.headers h).map unattached).isSome :=
    fun h hh => by simpa using hs.present h (List.mem_of_mem_take hh)
  rw [moduleInit, hs.deleteModule, Option.bind_eq_bind, Option.bind_some,
    wrap_eq s.modules _ hnew (gaugeHeaderPtr.take 255) [] hpresent]
  · rfl
  · funext p
    simp only [List.not_mem_nil, if_false, Option.map_id']

/-- An orderly `module_init` wraps plain headers. -/
theorem Sound.moduleInit (hs : s.Sound gaugeHeaderPtr)
    (hok : s.mg = none ∨ gaugeHeaderPtr = []) (h : s.moduleInit gaugeHeaderPtr = some t) :
    t.Sound gaugeHeaderPtr := by
  have hplain : s.oldCallbacks = [] ∧ ∀ p r, s.headers p = some r → r.Plain := by
    cases hmg : s.mg with
    | none => exact hs.unloaded hmg
    | some km =>
      have hptr := hok.resolve_left (by simp [hmg])
      refine ⟨by simpa [hptr] using (hs.loaded km.1 km.2 hmg).oldCallbacks, fun p r hr => ?_⟩
      rw [hs.none_copied hptr p] at hr
      cases hr
  obtain rfl := Option.some.inj (hs.moduleInit_eq.symm.trans h)
  refine ⟨fun p hp => by simpa using hs.present p hp, fun hptr p => by simp [hs.none_copied hptr p],
    nofun, fun k m hmg => ?_⟩
  obtain ⟨rfl, rfl⟩ := Prod.mk.inj (Option.some.inj hmg)
  have hempty : ∀ gauge p, ¬ ({} : PanelRun).module.Attached gauge p := by
    rintro gauge p ⟨d, hd, -⟩
    cases hd
  refine ⟨Nat.lt_succ_self _, PanelRun.sound_of_reachable (.initial rfl), ?_, ?_, ?_,
    fun gauge p h => absurd h (hempty gauge p)⟩
  · simp only [hplain.1, List.nil_append]
    refine List.map_congr_left fun p hp => ?_
    cases hr : s.headers p with
    | none => rfl
    | some r =>
      simp only [Option.map_some, unattached_plain (hplain.2 p r hr), if_pos hp, Option.bind_some]
      exact hplain.2 p r hr
  · intro p hp r' hr'
    obtain ⟨r₁, hr₁, rfl⟩ := Option.map_eq_some_iff.mp hr'
    obtain ⟨r, hr, rfl⟩ := Option.map_eq_some_iff.mp hr₁
    rw [unattached_plain (hplain.2 p r hr)]
    split
    · exact ⟨rfl, hplain.2 p r hr⟩
    · exact hplain.2 p r hr
  · intro p hp r' hr'
    obtain ⟨r₁, hr₁, rfl⟩ := Option.map_eq_some_iff.mp hr'
    obtain ⟨r, hr, rfl⟩ := Option.map_eq_some_iff.mp hr₁
    have hnot : p ∉ gaugeHeaderPtr.take 255 := fun h => hp (List.mem_of_mem_take h)
    rw [unattached_plain (hplain.2 p r hr), if_neg hnot]
    exact .inl (hplain.2 p r hr)

/-- What `module_deinit` does: the headers that are wrapped get back what they had. -/
theorem Sound.moduleDeinit_eq (hs : s.Sound gaugeHeaderPtr) : ∃ n,
    s.moduleDeinit gaugeHeaderPtr = some { s with
      mg := none
      oldCallbacks := []
      headers := fun p => ((s.headers p).map unattached).map fun r =>
        if p ∈ gaugeHeaderPtr.take n then
          { r with gaugeCallback := (s.headers p).bind WrappedHeader.ownCallback }
        else r } ∧
    ∀ h ∈ gaugeHeaderPtr, ∀ r, s.headers h = some r → h ∉ gaugeHeaderPtr.take n → r.Plain := by
  have hold : ∃ n, s.oldCallbacks = (gaugeHeaderPtr.take n).map (fun h =>
      (s.headers h).bind WrappedHeader.ownCallback) ∧
      ∀ h ∈ gaugeHeaderPtr, ∀ r, s.headers h = some r → h ∉ gaugeHeaderPtr.take n → r.Plain := by
    cases hmg : s.mg with
    | none =>
      exact ⟨0, by simpa using (hs.unloaded hmg).1, fun h _ r hr _ => (hs.unloaded hmg).2 h r hr⟩
    | some km =>
      have hl := hs.loaded km.1 km.2 hmg
      refine ⟨255, hl.oldCallbacks, fun h hh r hr hnot => ?_⟩
      simpa only [if_neg hnot] using hl.wrapped h hh r hr
  obtain ⟨n, hold, hplain⟩ := hold
  refine ⟨n, ?_, hplain⟩
  have hpresent : ∀ h ∈ gaugeHeaderPtr, ((s.headers h).map unattached).isSome :=
    fun h hh => by simpa using hs.present h hh
  rw [moduleDeinit, hs.deleteModule, Option.bind_eq_bind, Option.bind_some]
  simp only [hold]
  rw [unwrap_eq _ gaugeHeaderPtr n hpresent]
  rfl

/-- An orderly `module_deinit` leaves plain headers. -/
theorem Sound.moduleDeinit (hs : s.Sound gaugeHeaderPtr)
    (hok : s.Orderly gaugeHeaderPtr .moduleDeinit)
    (h : s.moduleDeinit gaugeHeaderPtr = some t) : t.Sound gaugeHeaderPtr := by
  obtain ⟨n, heq, hplain⟩ := hs.moduleDeinit_eq
  obtain rfl := Option.some.inj (heq.symm.trans h)
  refine ⟨fun p hp => by simpa using hs.present p hp, fun hptr p => by simp [hs.none_copied hptr p],
    fun _ => ⟨rfl, fun p r' hr' => ?_⟩, nofun⟩
  obtain ⟨r₁, hr₁, rfl⟩ := Option.map_eq_some_iff.mp hr'
  obtain ⟨r, hr, rfl⟩ := Option.map_eq_some_iff.mp hr₁
  split
  · simp only [WrappedHeader.Plain, WrappedHeader.ownCallback, hr, Option.bind_some, unattached_own]
  · rename_i hnot
    by_cases hp : p ∈ gaugeHeaderPtr
    · have h := hplain p hp r hr hnot
      rwa [unattached_plain h]
    · cases hmg : s.mg with
      | none =>
        have h := (hs.unloaded hmg).2 p r hr
        rwa [unattached_plain h]
      | some km =>
        obtain h | h | ⟨gauge, h, -⟩ := (hs.loaded km.1 km.2 hmg).cases hr
        · rwa [unattached_plain h]
        · exact absurd h.1 (hok p r km.1 hp hr)
        · simp only [unattached, h]
          rfl

/-- A copy of a header of the module stands as that header does. -/
theorem Sound.copy (hs : s.Sound gaugeHeaderPtr) {h : ℕ} (hh : h ∈ gaugeHeaderPtr)
    (hp : s.headers p = none) (hr : s.headers h = some r) (parameters : Option Str) :
    ({ s with
      headers := Function.update s.headers p (some { r with parameters := parameters }) } :
        WrappedModule).Sound gaugeHeaderPtr := by
  have hnot : p ∉ gaugeHeaderPtr := fun hin => by simpa [hp] using hs.present p hin
  have hcopy : ∀ r', Function.update s.headers p (some { r with parameters := parameters }) p =
      some r' → r' = { r with parameters := parameters } := fun r' hr' => by
    rw [Function.update_self] at hr'
    exact (Option.some.inj hr').symm
  refine hs.change hnot (fun q hq => Function.update_of_ne hq ..)
    (fun hptr => absurd hh (hptr ▸ List.not_mem_nil))
    (fun hmg => ⟨hmg, rfl, fun r' hr' => ?_⟩) (fun k m hmg => ?_)
  · obtain rfl := hcopy r' hr'
    exact (hs.unloaded hmg).2 h r hr
  · have hl := hs.loaded k m hmg
    refine hl.change hnot hl.sound rfl rfl (fun q hq => Function.update_of_ne hq ..) ?_
      (fun _ _ _ hg => hg) ?_
    · intro r' hr'
      obtain rfl := hcopy r' hr'
      have hstands := hl.wrapped h hh r hr
      split at hstands
      · exact .inr (.inl hstands)
      · exact .inl hstands
    · intro gauge q hg
      refine .inl ⟨?_, hg, rfl⟩
      rintro rfl
      obtain ⟨-, r', hr', -⟩ := hl.attached gauge q hg
      rw [hp] at hr'
      cases hr'

/-- A header that is not attached may go. -/
theorem Sound.free (hs : s.Sound gaugeHeaderPtr) (hp : p ∉ gaugeHeaderPtr)
    (hok : s.Orderly gaugeHeaderPtr (.free p)) :
    ({ s with headers := Function.update s.headers p none } : WrappedModule).Sound
      gaugeHeaderPtr := by
  have hgone : ∀ r, Function.update s.headers p none p ≠ some r := by simp
  refine hs.change hp (fun q hq => Function.update_of_ne hq ..)
    (fun _ => Function.update_self ..) (fun hmg => ⟨hmg, rfl, fun r hr => absurd hr (hgone r)⟩)
    (fun k m hmg => ?_)
  have hl := hs.loaded k m hmg
  refine hl.change hp hl.sound rfl rfl (fun q hq => Function.update_of_ne hq ..)
    (fun r hr => absurd hr (hgone r)) (fun _ _ _ hg => hg) fun gauge q hg => .inl ⟨?_, hg, rfl⟩
  rintro rfl
  exact hok k m gauge hmg hg

/-- Orderly actions keep the headers in order. -/
theorem Sound.step (hs : s.Sound gaugeHeaderPtr) {a : PanelAction}
    (hok : s.Orderly gaugeHeaderPtr a) (h : s.step gaugeHeaderPtr a = some t) :
    t.Sound gaugeHeaderPtr := by
  cases a with
  | moduleInit => exact hs.moduleInit hok h
  | moduleDeinit => exact hs.moduleDeinit hok h
  | copy h p parameters =>
    simp only [WrappedModule.step, Option.ite_none_right_eq_some, Option.map_eq_some_iff] at h
    obtain ⟨⟨hfrom, hp⟩, r, hr, rfl⟩ := h
    exact hs.copy hfrom hp hr parameters
  | service p call =>
    simp only [WrappedModule.step, Option.ite_none_left_eq_some, Option.bind_eq_some_iff,
      Option.map_eq_some_iff] at h
    obtain ⟨hp, r, hr, result, hcall, rfl⟩ := h
    exact hs.service hp hr hcall
  | free p =>
    simp only [WrappedModule.step, Option.ite_none_left_eq_some, Option.some.injEq, not_or] at h
    obtain ⟨⟨hp, -⟩, rfl⟩ := h
    exact hs.free hp hok

/-- If the headers are in order, Multicrew is not noticed. -/
theorem Sound.unnoticed (hs : s.Sound gaugeHeaderPtr) : s.Unnoticed where
  forwards p r hr call hown := by
    cases hmg : s.mg with
    | none =>
      have hplain := (hs.unloaded hmg).2 p r hr
      refine ⟨s, ?_⟩
      rw [pass_plain call hplain, hplain, dispatch_own]
      rfl
    | some km =>
      obtain ⟨t, m', hcall, -⟩ := (hs.loaded km.1 km.2 hmg).dispatch hmg hr call hown
      exact ⟨_, hcall⟩
  attached k m gauge p hmg hattached := by
    obtain ⟨-, r, hr, -⟩ := (hs.loaded k m hmg).attached gauge p hattached
    exact hr ▸ rfl
  restored hmg := (hs.unloaded hmg).2

/-- A call into a module that is gone is undefined. -/
theorem dispatch_gone (hgone : ¬ s.Alive k) (call : ServiceCall) (depth p : ℕ) :
    dispatch call depth (some (.installCallback k)) p s = none := by
  cases depth with
  | zero => rfl
  | succ depth => rw [dispatch, if_neg hgone]

/-- An action that is not orderly makes Multicrew noticed. -/
theorem Sound.orderly (hs : s.Sound gaugeHeaderPtr) {a : PanelAction}
    (h : ∀ t, s.step gaugeHeaderPtr a = some t → t.Unnoticed) : s.Orderly gaugeHeaderPtr a := by
  cases a with
  | copy | service => trivial
  | moduleInit =>
    by_contra hnot
    obtain ⟨hmg, hptr⟩ := not_or.mp hnot
    obtain ⟨⟨k, m⟩, hmg⟩ := Option.ne_none_iff_exists'.mp hmg
    have hl := hs.loaded k m hmg
    obtain ⟨first, rest, rfl⟩ := List.exists_cons_of_ne_nil hptr
    obtain ⟨r, hr⟩ := Option.isSome_iff_exists.mp (hs.present first List.mem_cons_self)
    have hin : first ∈ (first :: rest).take 255 := List.mem_cons_self
    have hw : r.Wrapped k := by
      simpa only [if_pos hin] using hl.wrapped first List.mem_cons_self r hr
    -- the second module wraps the callback of the first one
    have hunnoticed := h _ hs.moduleInit_eq
    obtain ⟨t, ht⟩ := hunnoticed.forwards first
      { r with userArea9 := some (.installCallback k), gaugeCallback := some (.installCallback s.modules) }
      (by simp only [hr, Option.map_some, unattached_installCallback hw.1, if_pos hin, hw.1])
      { serviceId := .preKill } nofun
    have hgone : ∀ u : WrappedModule, u.mg = some (s.modules, {}) →
        dispatch { serviceId := .preKill } 2 (some (.installCallback k)) first u = none := by
      refine fun u hu => dispatch_gone ?_ _ 2 first
      rintro ⟨m', hm'⟩
      exact Nat.ne_of_gt hl.number (Prod.mk.inj (Option.some.inj (hu.symm.trans hm'))).1
    rw [dispatch] at ht
    split at ht
    · simp only [hr, Option.map_some, unattached_installCallback hw.1, if_pos hin, hw.1,
        Option.bind_eq_bind, Option.bind_some, hgone, Option.bind_none, reduceCtorEq] at ht
    · cases ht
  | moduleDeinit =>
    intro p r k hp hr hcallback
    obtain ⟨n, heq, -⟩ := hs.moduleDeinit_eq
    have hnot : p ∉ gaugeHeaderPtr.take n := fun hin => hp (List.mem_of_mem_take hin)
    have hplain := (h _ heq).restored rfl p r
      (by simp only [hr, Option.map_some, unattached_installCallback hcallback, if_neg hnot])
    exact (r.ownCallback_ne k).1 (hplain.symm.trans hcallback)
  | free p =>
    intro k m gauge hmg hattached
    obtain ⟨hp, r, hr, -⟩ := (hs.loaded k m hmg).attached gauge p hattached
    have hstep : s.step gaugeHeaderPtr (.free p) =
        some { s with headers := Function.update s.headers p none } :=
      if_neg (not_or.mpr ⟨hp, by simp [hr]⟩)
    simpa using (h _ hstep).attached k m gauge p hmg hattached

/-- Everything is plain at the start. -/
theorem sound_start (gaugeName : ℕ → Str) (own : ℕ → Option ℕ) :
    (start gaugeHeaderPtr gaugeName own).Sound gaugeHeaderPtr where
  present h hh := by simp [start, hh]
  none_copied hptr p := by simp [start, hptr]
  unloaded _ := by
    refine ⟨rfl, fun p r hr => ?_⟩
    simp only [start, Option.ite_none_right_eq_some, Option.some.injEq] at hr
    exact hr.2 ▸ rfl
  loaded k m hmg := by cases hmg

/-- In every run of a simulator with any panels, Multicrew is not noticed after any step exactly if
the simulator is orderly: until it breaks that order every service of every header, plain, wrapped,
installed or killed, goes to the gauge's own callback once and with that header, but for the drawing of
metafile gauges, no attached gauge has a header that is gone, and whenever the module is
deinitialised no callback of Multicrew is left. -/
theorem unnoticed_iff_orderly (gaugeName : ℕ → Str) (own : ℕ → Option ℕ) (as : List PanelAction) :
    (panels gaugeHeaderPtr).Along
      (fun s a => ∀ t, s.step gaugeHeaderPtr a = some t → t.Unnoticed)
      (start gaugeHeaderPtr gaugeName own) as ↔
    (panels gaugeHeaderPtr).Along (fun s a => s.Orderly gaugeHeaderPtr a)
      (start gaugeHeaderPtr gaugeName own) as :=
  Machine.along_iff_along (I := fun s => s.Sound gaugeHeaderPtr)
    (fun _ _ hs => ⟨hs.orderly, fun hok _ ht => (hs.step hok ht).unnoticed⟩)
    (fun _ _ _ hs hok ht => hs.step hok ht) (sound_start gaugeName own) as

/-- A copy is installed and killed, and another copy installed, while the module's own header, which the
list has twice, stays wrapped. -/
example :
    let as : List PanelAction := [.moduleInit, .copy 5 7 none, .service 7 { serviceId := .postInstall },
      .service 7 { serviceId := .preKill }, .copy 5 8 none, .service 8 { serviceId := .postInstall }]
    ((panels [5, 5]).run (start [5, 5] (fun _ => []) fun _ => some 3) as).map (fun s =>
      ([5, 7, 8].map fun p => (s.headers p).bind (·.gaugeCallback), s.oldCallbacks)) =
    some ([some (.installCallback 0), some (.own 3), some (.callback 0 0)],
      [some (.own 3), some (.own 3)]) := by
  rfl

end WrappedModule

end Multicrew.Gauge
