import Multicrew.Gauge.ChannelIds
import Multicrew.Library.Bytes
import Multicrew.Library.FreeLists
import Multicrew.Library.Machine

/-!
# Gauges kept for the next panel

A panel that is resized kills its gauges and installs them again. `GaugeModule` never deletes a
gauge before the simulator ends: a killed one waits in the list of its name and parameter, and an
installed header takes the first of its list, or a new gauge. The panels may be killed and installed
in any order, so a gauge could be queued twice or stay attached in a list; it is not.
-/

namespace Multicrew.Gauge

open Multicrew.Core (Str)
open Multicrew.Library

/-- The services of a panel that the module and its gauges tell apart. -/
inductive PanelService
  | postInstall
  | preKill
  | other (serviceId : ℤ)
  deriving DecidableEq, Repr

/-- What is used of a `GAUGEHDR` apart from the callbacks. -/
structure PanelHeader where
  address : ℕ
  gaugeName : Str
  parameters : Option Str
  deriving DecidableEq, Repr

/-- `parameters`, with the empty string for a null pointer. -/
def PanelHeader.parameter (pgauge : PanelHeader) : Str := pgauge.parameters.getD []

/-- `Config::intValue` -/
structure IntConfig where
  intValue : (category key : Str) → (default : ℤ) → ℤ

/-- A `Gauge` of a module; a `MetafileGauge` has the number of its channel and of its element. -/
structure ModuleGauge where
  name : Str
  parameter : Str
  metafile : Option (ℕ × ℤ) := none
  gaugeHeader : Option ℕ := none
  deriving DecidableEq, Repr

/-- The key a gauge is kept under. -/
def ModuleGauge.detachId (d : ModuleGauge) : Str := Gauge.detachId d.name d.parameter

/-- `GaugeModule::Data`. A `Gauge*` is the position in `gauges`, where nothing is ever removed; of
the metafile channels only the number is used. -/
structure GaugeModule where
  gauges : List ModuleGauge := []
  metafileChannels : ℕ := 0
  detachedGauges : Str → Option (List ℕ) := fun _ => none

namespace GaugeModule

variable (m : GaugeModule)

/-- `GaugeModule::configIntValue` -/
def configIntValue (config : IntConfig) (pgauge : PanelHeader) (key : Str) (default : ℤ) : ℤ :=
  config.intValue (pgauge.gaugeName ++ exclamation :: pgauge.parameter) key
    (config.intValue pgauge.gaugeName key default)

/-- The gauges kept under a key, the oldest first. -/
def kept (key : Str) : List ℕ := (m.detachedGauges key).getD []

/-- `GaugeModule::getDetachedGauge`, with the module it leaves. -/
def getDetachedGauge (name : Str) (parameter : Option Str) : Option ℕ × GaugeModule :=
  let key := detachId name (parameter.getD [])
  match m.detachedGauges key with
  | none | some [] => (none, m)
  | some (gauge :: list) =>
    (some gauge, { m with detachedGauges := Function.update m.detachedGauges key (some list) })

/-- `GaugeModule::detached` -/
def detached (gauge : ℕ) : GaugeModule :=
  match m.gauges[gauge]? with
  | none => m
  | some d =>
    { m with
      detachedGauges :=
        Function.update m.detachedGauges d.detachId (some (m.kept d.detachId ++ [gauge])) }

/-- `Gauge::detach` -/
def detach (gauge : ℕ) : GaugeModule :=
  match m.gauges[gauge]? with
  | none => m
  | some d =>
    if d.gaugeHeader.isSome then
      { m.detached gauge with gauges := m.gauges.set gauge { d with gaugeHeader := none } }
    else m

/-- `Gauge::attach`: a gauge that is attached is detached first. -/
def attach (gauge : ℕ) (gaugeHeader : ℕ) : GaugeModule :=
  let m := m.detach gauge
  { m with gauges := m.gauges.modify gauge fun d => { d with gaugeHeader := some gaugeHeader } }

/-- The gauge made for a header, after the channels up to its own. -/
def newGauge (config : IntConfig) (pgauge : PanelHeader) : GaugeModule :=
  let metafile := configIntValue config pgauge (ascii "metafile") (-1)
  let element := configIntValue config pgauge (ascii "metafileelement") 0
  let gauge : ModuleGauge := { name := pgauge.gaugeName, parameter := pgauge.parameter }
  if 0 ≤ metafile then
    { m with
      metafileChannels := max m.metafileChannels (metafile.toNat + 1)
      gauges := m.gauges ++ [{ gauge with metafile := some (metafile.toNat, element) }] }
  else { m with gauges := m.gauges ++ [gauge] }

/-- `GaugeModule::installGauge` -/
def installGauge (config : IntConfig) (pgauge : PanelHeader) (serviceId : PanelService) :
    GaugeModule :=
  if serviceId = .postInstall then
    match m.getDetachedGauge pgauge.gaugeName pgauge.parameters with
    | (some gauge, m) => m.attach gauge pgauge.address
    | (none, m) => (m.newGauge config pgauge).attach m.gauges.length pgauge.address
  else m

/-- `Gauge::callback`, also when called by `MetafileGauge::callback`. -/
def callback (gauge : ℕ) (serviceId : PanelService) : GaugeModule :=
  match serviceId with
  | .preKill => m.detach gauge
  | _ => m

/-- A gauge is attached to a header. -/
def Attached (gauge : ℕ) (gaugeHeader : ℕ) : Prop :=
  ∃ d, m.gauges[gauge]? = some d ∧ d.gaugeHeader = some gaugeHeader

/-- A gauge of a key is not attached. -/
def Idle (key : Str) (gauge : ℕ) : Prop :=
  ∃ d, m.gauges[gauge]? = some d ∧ d.gaugeHeader = none ∧ d.detachId = key

end GaugeModule

/-- What the simulator calls. The configuration is the one in force at the call. -/
inductive PanelCall
  | installGauge (config : IntConfig) (pgauge : PanelHeader) (serviceId : PanelService)
  | callback (gauge : ℕ) (serviceId : PanelService)

/-- A module between two calls, with the number of calls so far and the one at which each gauge was
detached last. -/
structure PanelRun where
  module : GaugeModule := {}
  calls : ℕ := 0
  detachedAt : ℕ → ℕ := fun _ => 0

namespace PanelRun

variable (s : PanelRun)

/-- The gauge loses its header in a call. -/
def loses (before after : GaugeModule) (gauge : ℕ) : Bool :=
  (before.gauges[gauge]?).any (·.gaugeHeader.isSome) &&
    (after.gauges[gauge]?).any (·.gaugeHeader.isNone)

/-- One more call. -/
def next (m : GaugeModule) : PanelRun where
  module := m
  calls := s.calls + 1
  detachedAt gauge := if loses s.module m gauge then s.calls else s.detachedAt gauge

/-- One call of the simulator. A callback is one of a gauge that exists. -/
def step : PanelCall → Option PanelRun
  | .installGauge config pgauge serviceId =>
    some (s.next (s.module.installGauge config pgauge serviceId))
  | .callback gauge serviceId =>
    if gauge < s.module.gauges.length then some (s.next (s.module.callback gauge serviceId))
    else none

/-- The gauge of a key that has been detached longest. -/
def Longest (key : Str) (gauge : ℕ) : Prop :=
  s.module.Idle key gauge ∧
    ∀ other, s.module.Idle key other → other ≠ gauge → s.detachedAt gauge < s.detachedAt other

end PanelRun

/-- The calls the module gets from the simulator, from its construction on. -/
def panelMachine : Machine PanelRun PanelCall where
  initial s := s = {}
  step := PanelRun.step

namespace GaugeModule

variable {m : GaugeModule} {key : Str} {gauge gaugeHeader : ℕ} {d : ModuleGauge}

/-- A gauge has one key. -/
theorem Idle.key_unique (h : m.Idle key gauge) (hd : m.gauges[gauge]? = some d) :
    d.gaugeHeader = none ∧ d.detachId = key := by
  obtain ⟨d', hd', hnone, hkey⟩ := h
  obtain rfl := Option.some.inj (hd'.symm.trans hd)
  exact ⟨hnone, hkey⟩

/-- Detaching a gauge that is not attached does nothing. -/
theorem detach_of_idle (hd : m.gauges[gauge]? = some d) (hnone : d.gaugeHeader = none) :
    m.detach gauge = m := by
  simp [detach, hd, hnone]

/-- Attaching a gauge that is not attached only gives it the header. -/
theorem attach_of_idle (hd : m.gauges[gauge]? = some d) (hnone : d.gaugeHeader = none) :
    m.attach gauge gaugeHeader =
      { m with gauges := m.gauges.set gauge { d with gaugeHeader := some gaugeHeader } } := by
  simp only [attach, detach_of_idle hd hnone, List.modify_eq_set_getElem?, hd, Option.map_eq_map,
    Option.map_some, Option.getD_some]

/-- Detaching an attached gauge takes its header and puts it behind the gauges kept for its key. -/
theorem detach_of_attached (hd : m.gauges[gauge]? = some d) (hheader : d.gaugeHeader.isSome) :
    m.detach gauge =
      { m with
        gauges := m.gauges.set gauge { d with gaugeHeader := none }
        detachedGauges :=
          Function.update m.detachedGauges d.detachId (some (m.kept d.detachId ++ [gauge])) } := by
  simp only [detach, detached, hd, if_pos hheader]

/-- What is kept after one list was changed. -/
theorem kept_update (gauges : List ModuleGauge) (channels : ℕ) (list : List ℕ) :
    (GaugeModule.mk gauges channels (Function.update m.detachedGauges key (some list))).kept =
      Function.update m.kept key list := by
  funext key'
  by_cases h : key' = key
  · subst h
    simp [kept]
  · simp [kept, Function.update_of_ne h]

/-- `getDetachedGauge` takes the first gauge of the list of its key. -/
theorem getDetachedGauge_eq (name : Str) (parameter : Option Str) :
    m.getDetachedGauge name parameter =
      match m.kept (detachId name (parameter.getD [])) with
      | [] => (none, m)
      | gauge :: list =>
        (some gauge,
          { m with
            detachedGauges := Function.update m.detachedGauges
              (detachId name (parameter.getD [])) (some list) }) := by
  simp only [getDetachedGauge, kept]
  cases m.detachedGauges (detachId name (parameter.getD [])) with
  | none => rfl
  | some list => cases list <;> rfl

/-- Whatever its configuration, a new gauge is a detached one behind the others. -/
theorem newGauge_eq (config : IntConfig) (pgauge : PanelHeader) :
    ∃ channels metafile, m.newGauge config pgauge =
      { m with
        metafileChannels := channels
        gauges := m.gauges ++ [{
          name := pgauge.gaugeName, parameter := pgauge.parameter, metafile := metafile }] } := by
  unfold newGauge
  dsimp only
  split
  · exact ⟨_, _, rfl⟩
  · exact ⟨_, none, rfl⟩

/-- Other gauges than the changed one are idle as before. -/
theorem idle_set {list : List ModuleGauge} {d' : ModuleGauge} {key : Str} {other : ℕ}
    (hlist : list[gauge]? = some d) (channels : ℕ) (table table' : Str → Option (List ℕ)) :
    (GaugeModule.mk (list.set gauge d') channels table).Idle key other ↔
      if other = gauge then d'.gaugeHeader = none ∧ d'.detachId = key
      else (GaugeModule.mk list channels table').Idle key other := by
  have hlt := (List.getElem?_eq_some_iff.mp hlist).1
  by_cases h : other = gauge
  · subst h
    simp [Idle, List.getElem?_set_self hlt]
  · simp [Idle, h, List.getElem?_set_ne (Ne.symm h)]

/-- What is installed: the gauge of the key at the head of its list, or a new one, which is attached
before anything else happens. -/
theorem installGauge_cases (config : IntConfig) (pgauge : PanelHeader)
    (hkept : ∀ key gauge, gauge ∈ m.kept key → m.Idle key gauge) :
    let key := detachId pgauge.gaugeName pgauge.parameter
    let installed := m.installGauge config pgauge .postInstall
    (∃ gauge list d, m.kept key = gauge :: list ∧ m.gauges[gauge]? = some d ∧
        installed =
          { m with
            gauges := m.gauges.set gauge { d with gaugeHeader := some pgauge.address }
            detachedGauges := Function.update m.detachedGauges key (some list) }) ∨
      (m.kept key = [] ∧ ∃ channels metafile, installed =
        { m with
          metafileChannels := channels
          gauges := m.gauges ++ [{
            name := pgauge.gaugeName, parameter := pgauge.parameter, metafile := metafile
            gaugeHeader := some pgauge.address }] }) := by
  intro key installed
  have hinstalled : installed = match m.getDetachedGauge pgauge.gaugeName pgauge.parameters with
      | (some gauge, m) => m.attach gauge pgauge.address
      | (none, m) => (m.newGauge config pgauge).attach m.gauges.length pgauge.address := if_pos rfl
  rw [getDetachedGauge_eq] at hinstalled
  cases hlist : m.kept key with
  | nil =>
    simp only [show m.kept (detachId pgauge.gaugeName (pgauge.parameters.getD [])) = [] from hlist]
      at hinstalled
    obtain ⟨channels, metafile, hnew⟩ := newGauge_eq (m := m) config pgauge
    refine .inr ⟨rfl, channels, metafile, ?_⟩
    rw [hinstalled, hnew, attach_of_idle List.getElem?_concat_length rfl]
    simp
  | cons gauge list =>
    simp only [show m.kept (detachId pgauge.gaugeName (pgauge.parameters.getD [])) = gauge :: list
      from hlist] at hinstalled
    obtain ⟨d, hd, hnone, -⟩ := hkept key gauge (hlist ▸ List.mem_cons_self)
    exact .inl ⟨gauge, list, d, rfl, hd, hinstalled.trans (attach_of_idle hd hnone)⟩

end GaugeModule

namespace PanelRun

variable {s t : PanelRun}

/-- The lists hold what is detached, in the order it was detached; that was before now. -/
structure Sound (s : PanelRun) : Prop where
  lists : FreeLists s.module.Idle s.detachedAt s.module.kept
  before : ∀ key gauge, s.module.Idle key gauge → s.detachedAt gauge < s.calls

/-- A gauge that is detached already is not detached by the next call. -/
theorem next_detachedAt {key : Str} {gauge : ℕ} (h : s.module.Idle key gauge) (m : GaugeModule) :
    (s.next m).detachedAt gauge = s.detachedAt gauge := by
  obtain ⟨d, hd, hnone, -⟩ := h
  simp [next, loses, hd, hnone]

/-- A call that attaches or adds a gauge keeps the times of what stays detached. -/
theorem Sound.next_of_idle (hs : s.Sound) {m : GaugeModule}
    (hidle : ∀ key gauge, m.Idle key gauge → s.module.Idle key gauge)
    (hlists : FreeLists m.Idle s.detachedAt m.kept) : (s.next m).Sound where
  lists := hlists.congr (fun _ _ => Iff.rfl) fun key gauge h =>
    next_detachedAt (hidle key gauge h) m
  before key gauge h := by
    rw [next_detachedAt (hidle key gauge h) m]
    exact Nat.lt_succ_of_lt (hs.before key gauge (hidle key gauge h))

/-- Detaching queues an attached gauge, and a detached one not again. -/
theorem Sound.detach (hs : s.Sound) (gauge : ℕ) : (s.next (s.module.detach gauge)).Sound := by
  cases hd : s.module.gauges[gauge]? with
  | none =>
    have hsame : s.module.detach gauge = s.module := by simp [GaugeModule.detach, hd]
    rw [hsame]
    exact hs.next_of_idle (fun _ _ h => h) hs.lists
  | some d =>
    cases hheader : d.gaugeHeader with
    | none =>
      rw [GaugeModule.detach_of_idle hd hheader]
      exact hs.next_of_idle (fun _ _ h => h) hs.lists
    | some gaugeHeader =>
      have hidle : ∀ key other, (s.module.detach gauge).Idle key other ↔
          s.module.Idle key other ∨ key = d.detachId ∧ other = gauge := by
        intro key other
        rw [GaugeModule.detach_of_attached hd (by simp [hheader]),
          GaugeModule.idle_set hd _ _ s.module.detachedGauges]
        split
        · rename_i heq
          subst heq
          have hbusy : ¬ s.module.Idle key other := fun h => by
            simpa [hheader] using (h.key_unique hd).1
          simp only [hbusy, false_or, true_and, and_true]
          exact eq_comm
        · rename_i hne
          simp [hne]
      have hnow : (s.next (s.module.detach gauge)).detachedAt gauge = s.calls := by
        have hlt := (List.getElem?_eq_some_iff.mp hd).1
        have hlost : loses s.module (s.module.detach gauge) gauge = true := by
          rw [GaugeModule.detach_of_attached hd (by simp [hheader])]
          simp [loses, hd, hheader, List.getElem?_set_self hlt]
        simp only [next, hlost, if_true]
      have hlists := hs.lists.put hidle
        (fun key other h => next_detachedAt h (s.module.detach gauge))
        (fun key other h => by
          rw [hnow]
          exact hs.before key other h)
      refine ⟨?_, fun key other h => ?_⟩
      · have hkept : (s.module.detach gauge).kept = Function.update s.module.kept d.detachId
            (s.module.kept d.detachId ++ [gauge]) := by
          rw [GaugeModule.detach_of_attached hd (by simp [hheader])]
          exact GaugeModule.kept_update _ _ _
        rw [← hkept] at hlists
        exact hlists
      · cases (hidle key other).mp h with
        | inl hold =>
          rw [next_detachedAt hold]
          exact Nat.lt_succ_of_lt (hs.before key other hold)
        | inr hnew =>
          rw [hnew.2, hnow]
          exact Nat.lt_succ_self _

/-- Installing takes the gauge that waited longest, or adds one. -/
theorem Sound.installGauge (hs : s.Sound) (config : IntConfig) (pgauge : PanelHeader)
    (serviceId : PanelService) :
    (s.next (s.module.installGauge config pgauge serviceId)).Sound := by
  by_cases hservice : serviceId = .postInstall
  · subst hservice
    obtain ⟨gauge, list, d, hkept, hd, heq⟩ | ⟨hkept, channels, metafile, heq⟩ :=
      GaugeModule.installGauge_cases config pgauge fun key gauge => (hs.lists.mem_iff key gauge).mp
    · rw [heq]
      have hidle := (hs.lists.oldest hkept).1
      have hset : ∀ key other, (GaugeModule.mk
          (s.module.gauges.set gauge { d with gaugeHeader := some pgauge.address })
          s.module.metafileChannels (Function.update s.module.detachedGauges
            (detachId pgauge.gaugeName pgauge.parameter) (some list))).Idle key other ↔
          s.module.Idle key other ∧ other ≠ gauge := by
        intro key other
        rw [GaugeModule.idle_set hd _ _ s.module.detachedGauges]
        split
        · rename_i h
          simp [h]
        · rename_i h
          exact (and_iff_left h).symm
      refine hs.next_of_idle (fun key other h => ((hset key other).mp h).1) ?_
      rw [GaugeModule.kept_update]
      refine hs.lists.take hkept hset fun key h => ?_
      rw [← (h.key_unique hd).2, (hidle.key_unique hd).2]
    · rw [heq]
      have happend : ∀ key other, (GaugeModule.mk (s.module.gauges ++ [{
          name := pgauge.gaugeName, parameter := pgauge.parameter, metafile := metafile
          gaugeHeader := some pgauge.address }]) channels s.module.detachedGauges).Idle key other ↔
          s.module.Idle key other := by
        intro key other
        simp only [GaugeModule.Idle, List.getElem?_append]
        split
        · rfl
        · rename_i hge
          have hnone : s.module.gauges[other]? = none :=
            List.getElem?_eq_none (by omega)
          simp only [hnone, reduceCtorEq, false_and, exists_false, iff_false, not_exists]
          rintro d' ⟨hd', hheader, -⟩
          obtain rfl := List.mem_singleton.mp (List.mem_of_getElem? hd')
          cases hheader
      exact hs.next_of_idle (fun key other h => (happend key other).mp h)
        (hs.lists.congr happend fun _ _ _ => rfl)
  · have hsame : s.module.installGauge config pgauge serviceId = s.module := if_neg hservice
    rw [hsame]
    exact hs.next_of_idle (fun _ _ h => h) hs.lists

/-- Every call keeps the lists right. -/
theorem Sound.step (hs : s.Sound) {a : PanelCall} (h : s.step a = some t) : t.Sound := by
  cases a with
  | installGauge config pgauge serviceId =>
    exact Option.some.inj h ▸ hs.installGauge config pgauge serviceId
  | callback gauge serviceId =>
    simp only [PanelRun.step, Option.ite_none_right_eq_some, Option.some.injEq] at h
    obtain ⟨-, rfl⟩ := h
    cases serviceId with
    | preKill => exact hs.detach gauge
    | postInstall | other => exact hs.next_of_idle (fun _ _ h => h) hs.lists

/-- All states of all runs are sound. -/
theorem sound_of_reachable (hs : panelMachine.Reachable s) : s.Sound :=
  hs.invariant
    (fun s hinit => by
      subst hinit
      have hnone : ∀ key gauge, ¬ ({} : PanelRun).module.Idle key gauge := by
        rintro key gauge ⟨d, hd, -⟩
        cases hd
      exact ⟨.empty hnone _, fun key gauge h => absurd h (hnone key gauge)⟩)
    fun s a t _ hs h => hs.step h

/-- A call leaves an attached gauge at its header, or detaches it. -/
theorem Sound.header_kept (hs : s.Sound) {a : PanelCall} (h : s.step a = some t)
    {gauge header header' : ℕ} (hbefore : s.module.Attached gauge header)
    (hafter : t.module.Attached gauge header') : header' = header := by
  obtain ⟨d, hd, hheader⟩ := hbefore
  obtain ⟨d', hd', hheader'⟩ := hafter
  have hsame : t.module.gauges[gauge]? = s.module.gauges[gauge]? → header' = header := by
    intro heq
    obtain rfl : d = d' := Option.some.inj (by rw [← hd, ← hd', heq])
    exact Option.some.inj (hheader'.symm.trans hheader)
  cases a with
  | installGauge config pgauge serviceId =>
    obtain rfl := Option.some.inj h
    by_cases hservice : serviceId = .postInstall
    · subst hservice
      obtain ⟨taken, list, d₁, hkept, hd₁, heq⟩ | ⟨-, channels, metafile, heq⟩ :=
        GaugeModule.installGauge_cases config pgauge fun key gauge => (hs.lists.mem_iff key gauge).mp
      · refine hsame ?_
        have hne : taken ≠ gauge := by
          rintro rfl
          simpa [hheader] using ((hs.lists.oldest hkept).1.key_unique hd).1
        simp only [next, heq, List.getElem?_set_ne hne]
      · refine hsame ?_
        have hlt := (List.getElem?_eq_some_iff.mp hd).1
        simp only [next, heq, List.getElem?_append_left hlt]
    · refine hsame ?_
      simp only [next, GaugeModule.installGauge, if_neg hservice]
  | callback killed serviceId =>
    simp only [PanelRun.step, Option.ite_none_right_eq_some, Option.some.injEq] at h
    obtain ⟨-, rfl⟩ := h
    cases serviceId with
    | postInstall | other => exact hsame rfl
    | preKill =>
      cases hk : s.module.gauges[killed]? with
      | none => exact hsame (by simp [next, GaugeModule.callback, GaugeModule.detach, hk])
      | some k =>
        cases hkheader : k.gaugeHeader with
        | none =>
          refine hsame ?_
          simp only [next, GaugeModule.callback, GaugeModule.detach_of_idle hk hkheader]
        | some _ =>
          have heq := GaugeModule.detach_of_attached hk (by simp [hkheader])
          simp only [next, GaugeModule.callback, heq] at hd' hsame
          by_cases hgauge : killed = gauge
          · subst hgauge
            rw [List.getElem?_set_self (List.getElem?_eq_some_iff.mp hd).1] at hd'
            obtain rfl := Option.some.inj hd'
            cases hheader'
          · exact hsame (List.getElem?_set_ne hgauge)

end PanelRun

/-- Between two calls of a run every gauge is attached and not kept, or detached and kept once, under
its own key only. No call moves a gauge from one header to another, and an installed header gets the
gauge of its key that has been detached longest, or a new one if there is none. -/
theorem attached_or_kept {s : PanelRun} (hs : panelMachine.Reachable s) :
    (∀ gauge d, s.module.gauges[gauge]? = some d →
      (d.gaugeHeader.isSome ∧ ∀ key, gauge ∉ s.module.kept key) ∨
        (d.gaugeHeader = none ∧ (s.module.kept d.detachId).count gauge = 1 ∧
          ∀ key, key ≠ d.detachId → gauge ∉ s.module.kept key)) ∧
      (∀ a t gauge header header', s.step a = some t → s.module.Attached gauge header →
        t.module.Attached gauge header' → header' = header) ∧
      ∀ config pgauge, ∃ t, s.step (.installGauge config pgauge .postInstall) = some t ∧
        ((∃ gauge d, s.Longest (detachId pgauge.gaugeName pgauge.parameter) gauge ∧
            s.module.gauges[gauge]? = some d ∧
            t.module.gauges =
              s.module.gauges.set gauge { d with gaugeHeader := some pgauge.address }) ∨
          (∀ gauge, ¬ s.module.Idle (detachId pgauge.gaugeName pgauge.parameter) gauge) ∧
            ∃ metafile, t.module.gauges = s.module.gauges ++ [{
              name := pgauge.gaugeName, parameter := pgauge.parameter, metafile := metafile
              gaugeHeader := some pgauge.address }]) := by
  have hsound := PanelRun.sound_of_reachable hs
  refine ⟨fun gauge d hd => ?_, fun a t gauge header header' h => hsound.header_kept h,
    fun config pgauge => ⟨_, rfl, ?_⟩⟩
  · cases hheader : d.gaugeHeader with
    | some header =>
      refine .inl ⟨rfl, fun key hmem => ?_⟩
      have hnone := (((hsound.lists.mem_iff key gauge).mp hmem).key_unique hd).1
      rw [hheader] at hnone
      cases hnone
    | none =>
      refine .inr ⟨rfl, hsound.lists.count_eq_one ⟨d, hd, hheader, rfl⟩, fun key hne hmem => ?_⟩
      exact hne (((hsound.lists.mem_iff key gauge).mp hmem).key_unique hd).2.symm
  · obtain ⟨gauge, list, d, hkept, hd, heq⟩ | ⟨hkept, channels, metafile, heq⟩ :=
      GaugeModule.installGauge_cases config pgauge
        fun key gauge => (hsound.lists.mem_iff key gauge).mp
    · exact .inl ⟨gauge, d, hsound.lists.oldest hkept, hd, congrArg GaugeModule.gauges heq⟩
    · exact .inr ⟨hsound.lists.none_idle hkept, metafile, congrArg GaugeModule.gauges heq⟩

/-- Two gauges of one name are killed, the second one first and again later, and one comes back. -/
def resizeRun : List PanelCall :=
  let install (address : ℕ) : PanelCall :=
    .installGauge ⟨fun _ _ default => default⟩ ⟨address, ascii "clock", none⟩ .postInstall
  [install 1, install 2, .callback 1 .preKill, .callback 0 .preKill, .callback 1 .preKill, install 3]

/-- The gauge that was killed first has the new header, and the other one is kept. -/
theorem attached_or_kept_resizeRun :
    ∃ s, panelMachine.run {} resizeRun = some s ∧ s.module.Attached 1 3 ∧
      ∃ d, s.module.gauges[0]? = some d ∧
        ((d.gaugeHeader.isSome ∧ ∀ key, 0 ∉ s.module.kept key) ∨
          (d.gaugeHeader = none ∧ (s.module.kept d.detachId).count 0 = 1 ∧
            ∀ key, key ≠ d.detachId → 0 ∉ s.module.kept key)) :=
  ⟨_, rfl, ⟨_, rfl, rfl⟩, _, rfl,
    (attached_or_kept (Machine.Reachable.run (M := panelMachine) (.initial rfl)
      (show panelMachine.run {} resizeRun = _ from rfl))).1 0 _ rfl⟩

end Multicrew.Gauge
