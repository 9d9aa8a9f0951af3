import Mathlib.Logic.Function.Basic
import Multicrew.Gauge.Elements
import Multicrew.Library.Machine
import Multicrew.Library.Table
import Multicrew.Library.Traversal

/-!
# Hooking the headers of the panels

A gauge that is attached to a header puts its own callbacks into the header, its mouse rectangles
and its elements, and puts the original ones back when it is detached. Its element objects are kept
and attached to the elements of the next header by their numbers. Only pointers are modelled here.
-/

namespace Multicrew.Gauge

open Multicrew.Library

/-- A function pointer: a callback of the simulator, or an adapter of a gauge or of its parts. -/
inductive Callback
  | simulator (n : ℕ)
  | gauge (g : ℕ)
  | mouse (g num : ℕ)
  | element (g num : ℕ)
  deriving DecidableEq, Repr

/-- A pointer to a string, of the simulator or from `strdup`. -/
inductive Text
  | simulator (n : ℕ)
  | strdup (n : ℕ)
  deriving DecidableEq, Repr

/-- What of a header stays as it is: the tree at `elements_list[0]`, whose elements are numbered,
the types of the elements, and the pointer to the mouse rectangles. -/
structure HeaderLayout where
  elementsList : Option (RoseTree ℕ)
  elementType : ℕ → Option ElementKind
  mouseRect : Option ℕ
  distinct : ∀ root ∈ elementsList, root.values.Nodup

/-- The elements in the order `Gauge::createElements` visits them. -/
def HeaderLayout.order (layout : HeaderLayout) : List ℕ :=
  match layout.elementsList with
  | none => []
  | some root => RoseTree.visit root.values.length [root]

/-- The callbacks of one header. -/
structure Callbacks where
  gaugeCallback : Option Callback
  mouseFunctions : List (Option Callback)
  updateCb : ℕ → Option Callback

/-- The headers `η` of the panels, field by field. The mouse functions are those in front of the
`MOUSE_RECT_EOL`; the strings from `strdup` are counted. -/
structure Panels (η : Type*) where
  gaugeCallback : η → Option Callback
  mouseFunctions : η → List (Option Callback)
  updateCb : η × ℕ → Option Callback
  string : η × ℕ → Option Text
  strdups : ℕ := 0

/-- The callbacks of a header. -/
def Panels.callbacks {η : Type*} (m : Panels η) (h : η) : Callbacks where
  gaugeCallback := m.gaugeCallback h
  mouseFunctions := m.mouseFunctions h
  updateCb l := m.updateCb (h, l)

/-- What an object of one of the element classes keeps of its header. -/
structure ElementObject (η : Type*) where
  kind : ElementKind
  header : Option (η × ℕ) := none
  origCallback : Option Callback := none

namespace ElementObject

variable {η : Type*} [DecidableEq η] (o : ElementObject η) (m : Panels η)

/-- `attach` of the class, with the adapter of the object. -/
def attach (adapter : Callback) (e : η × ℕ) : ElementObject η × Panels η :=
  let attached := { o with header := some e, origCallback := m.updateCb e }
  let hooked := { m with updateCb := Function.update m.updateCb e (some adapter) }
  match o.kind with
  | .icon => (attached, hooked)
  | .needle | .string => (attached, if m.updateCb e ≠ none then hooked else m)
  | .static => ({ o with header := some e }, m)

/-- `detach` of the class. A string keeps its pointer to the header. -/
def detach : ElementObject η × Panels η :=
  match o.header with
  | none => (if o.kind = .icon then { o with origCallback := none } else o, m)
  | some e =>
    let restored := { m with updateCb := Function.update m.updateCb e o.origCallback }
    match o.kind with
    | .icon => ({ o with header := none, origCallback := none }, restored)
    | .needle => ({ o with header := none }, restored)
    | .string =>
      (o, { restored with
        string := Function.update m.string e (some (.strdup m.strdups))
        strdups := m.strdups + 1 })
    | .static => ({ o with header := none }, m)

/-- The object has a callback of the element. -/
def Owns (e : η × ℕ) : Prop := o.kind ≠ .static ∧ o.header = some e

end ElementObject

/-- The part of `Gauge::Data` that hooks, with the callbacks its header had before. -/
structure GaugeObject (η : Type*) where
  gaugeHeader : Option η := none
  originalGaugeCallback : Option Callback := none
  hookMouse : Bool := false
  origMouseRect : Option ℕ := none
  originalMouseCallbacks : List (Option Callback) := []
  elements : List (Option (ElementObject η)) := []
  before : Option Callbacks := none

namespace GaugeObject

variable {η : Type*} [DecidableEq η] (layout : η → HeaderLayout)

/-- `Gauge::createElement` -/
def createElement (type : Option ElementKind) : Option (ElementObject η) :=
  type.map fun kind => { kind := kind }

/-- The loop of `Gauge::createElements` from the element `num` on; `none` when an object takes an
element for one of its own type that is not. A static object is no exception, though the flags it reads
are in every element. -/
def createElements (g : ℕ) (h : η) : ℕ → List ℕ → List (Option (ElementObject η)) → Panels η →
    Option (List (Option (ElementObject η)) × Panels η)
  | _, [], elements, m => some (elements, m)
  | num, l :: rest, elements, m =>
    match elements.head?.getD (createElement ((layout h).elementType l)) with
    | none =>
      (createElements g h (num + 1) rest elements.tail m).map fun r => (none :: r.1, r.2)
    | some o =>
      if (layout h).elementType l = some o.kind then
        let r := o.attach m (.element g num) (h, l)
        (createElements g h (num + 1) rest elements.tail r.2).map fun q => (some r.1 :: q.1, q.2)
      else none

/-- The element objects of a gauge are detached one after the other. -/
def detachElements : List (Option (ElementObject η)) → Panels η →
    List (Option (ElementObject η)) × Panels η
  | [], m => ([], m)
  | none :: rest, m =>
    let r := detachElements rest m
    (none :: r.1, r.2)
  | some o :: rest, m =>
    let p := o.detach m
    let r := detachElements rest p.2
    (some p.1 :: r.1, r.2)

variable (d : GaugeObject η) (m : Panels η)

/-- The condition under which the mouse functions are hooked. -/
def HooksMouse (h : η) : Bool :=
  (layout h).mouseRect.isSome && d.hookMouse

/-- The first half of `Gauge::detach`: the callbacks of the gauge and of the mouse. -/
def restore (h : η) : Panels η :=
  { m with
    gaugeCallback := Function.update m.gaugeCallback h d.originalGaugeCallback
    mouseFunctions :=
      if d.origMouseRect = (layout h).mouseRect ∧ d.HooksMouse layout h = true then
        Function.update m.mouseFunctions h ((m.mouseFunctions h).mapIdx fun num _ =>
          d.originalMouseCallbacks.getD num none)
      else m.mouseFunctions }

/-- `Gauge::detach` -/
def detach : GaugeObject η × Panels η :=
  match d.gaugeHeader with
  | none => (d, m)
  | some h =>
    let r := detachElements d.elements (d.restore layout m h)
    ({ d with gaugeHeader := none, originalMouseCallbacks := [], elements := r.1 }, r.2)

/-- The second half of `Gauge::attach`, once the elements are attached. -/
def hook (g : ℕ) (h : η) (hookMouse : Bool) : GaugeObject η × Panels η :=
  let d := { d with
    gaugeHeader := some h
    originalGaugeCallback := m.gaugeCallback h
    hookMouse := hookMouse
    origMouseRect := (layout h).mouseRect }
  let m := { m with gaugeCallback := Function.update m.gaugeCallback h (some (.gauge g)) }
  if d.HooksMouse layout h then
    ({ d with originalMouseCallbacks := d.originalMouseCallbacks ++ m.mouseFunctions h },
      { m with
        mouseFunctions := Function.update m.mouseFunctions h
          ((m.mouseFunctions h).mapIdx fun num _ => some (.mouse g num)) })
  else (d, m)

/-- `Gauge::attach` with the settings `hookelements` and `hookmouse`. -/
def attach (g : ℕ) (h : η) (hookElements hookMouse : Bool) :
    Option (GaugeObject η × Panels η) :=
  let p := d.detach layout m
  let hooked :=
    if hookElements then createElements layout g h 0 (layout h).order p.1.elements p.2
    else some (p.1.elements, p.2)
  hooked.map fun r =>
    hook layout { p.1 with elements := r.1, before := some (p.2.callbacks h) } r.2 g h hookMouse

/-- `Gauge::~Gauge`; the destructor of an element detaches it again. -/
def destroy : Panels η :=
  let p := d.detach layout m
  (detachElements p.1.elements p.2).2

end GaugeObject

/-- The headers with the gauge that is attached to each, and the gauges that are alive. -/
structure HookState (η : Type*) where
  panels : Panels η
  owner : η → Option ℕ := fun _ => none
  gauges : ℕ → Option (GaugeObject η) := fun _ => none

/-- What happens to the gauges. -/
inductive HookAction (η : Type*)
  | construct (g : ℕ)
  | attach (g : ℕ) (h : η) (hookElements hookMouse : Bool)
  | detach (g : ℕ)
  | destroy (g : ℕ)

namespace HookState

variable {η : Type*} [DecidableEq η] (layout : η → HeaderLayout) (s : HookState η)

/-- No other gauge is attached to the header. -/
def Free (g : ℕ) (h : η) : Prop := s.owner h = none ∨ s.owner h = some g

instance (g : ℕ) (h : η) : Decidable (s.Free g h) := inferInstanceAs (Decidable (_ ∨ _))

/-- The owners once a gauge is detached. -/
def release (gaugeHeader : Option η) : η → Option ℕ :=
  fun h => if gaugeHeader = some h then none else s.owner h

/-- One call; a gauge is only attached to a header that is free. -/
def step : HookAction η → Option (HookState η)
  | .construct g =>
    match s.gauges g with
    | none => some { s with gauges := Function.update s.gauges g (some {}) }
    | some _ => none
  | .attach g h hookElements hookMouse =>
    if s.Free g h then
      (s.gauges g).bind fun d =>
        (d.attach layout s.panels g h hookElements hookMouse).map fun r =>
          { panels := r.2
            owner := Function.update (s.release d.gaugeHeader) h (some g)
            gauges := Function.update s.gauges g (some r.1) }
    else none
  | .detach g =>
    (s.gauges g).map fun d =>
      let r := d.detach layout s.panels
      { panels := r.2
        owner := s.release d.gaugeHeader
        gauges := Function.update s.gauges g (some r.1) }
  | .destroy g =>
    (s.gauges g).map fun d =>
      { panels := d.destroy layout s.panels
        owner := s.release d.gaugeHeader
        gauges := Function.update s.gauges g none }

end HookState

/-- The headers at the start. -/
def HookState.start {η : Type*} (original : η → Callbacks) (string : η × ℕ → Option ℕ) :
    HookState η where
  panels :=
    { gaugeCallback := fun h => (original h).gaugeCallback
      mouseFunctions := fun h => (original h).mouseFunctions
      updateCb := fun e => (original e.1).updateCb e.2
      string := fun e => (string e).map .simulator }

/-- Gauges come and go from the start on. -/
def hookMachine {η : Type*} [DecidableEq η] (layout : η → HeaderLayout) :
    Machine (HookState η) (HookAction η) where
  initial s := ∃ original string, s = HookState.start original string
  step := HookState.step layout

/-- Nothing of a header and its elements is another. -/
structure Panels.Same {η : Type*} (m m' : Panels η) (h : η) : Prop where
  gaugeCallback : m'.gaugeCallback h = m.gaugeCallback h
  mouseFunctions : m'.mouseFunctions h = m.mouseFunctions h
  updateCb : ∀ l, m'.updateCb (h, l) = m.updateCb (h, l)
  string : ∀ l, m'.string (h, l) = m.string (h, l)

/-- In particular its callbacks are those before. -/
theorem Panels.Same.callbacks {η : Type*} {m m' : Panels η} {h : η} (hsame : m.Same m' h) :
    m'.callbacks h = m.callbacks h := by
  simp only [Panels.callbacks, hsame.gaugeCallback, hsame.mouseFunctions, hsame.updateCb]

/-- The gauge leaves its header with the callbacks from before it was attached, and all other
headers as they are. -/
structure GaugeObject.Undoes {η : Type*} (d : GaugeObject η) (m m' : Panels η) : Prop where
  restored : ∀ h, d.gaugeHeader = some h → d.before = some (m'.callbacks h)
  same : ∀ h, d.gaugeHeader ≠ some h → m.Same m' h

namespace GaugeObject

variable {η : Type*} [DecidableEq η] {layout : η → HeaderLayout}

/-- Every string of the gauge that keeps a header keeps one of the gauge's own. -/
def KeepsOwn (d : GaugeObject η) : Prop :=
  ∀ o, some o ∈ d.elements → o.kind = .string → ∀ e, o.header = some e → d.gaugeHeader = some e.1

/-- The element objects that are there have the types of the elements they are attached to, the static
ones too. -/
def Fits (layout : HeaderLayout) : List ℕ → List (Option (ElementObject η)) → Prop
  | [], _ => True
  | l :: rest, elements =>
    (∀ o ∈ (elements.head?).join, layout.elementType l = some o.kind) ∧
      Fits layout rest elements.tail

end GaugeObject

namespace HookState

variable {η : Type*} [DecidableEq η] (layout : η → HeaderLayout) (s : HookState η)

/-- A detached or destroyed gauge undoes exactly its own hooks; `attach` detaches first, and takes
no element for one of another type. -/
def HooksUndone : HookAction η → Prop
  | .construct _ => True
  | .attach g h hookElements hookMouse => s.Free g h → ∀ d ∈ s.gauges g,
    d.Undoes s.panels (d.detach layout s.panels).2 ∧
      (d.attach layout s.panels g h hookElements hookMouse).isSome = true
  | .detach g => ∀ d ∈ s.gauges g, d.Undoes s.panels (d.detach layout s.panels).2
  | .destroy g => ∀ d ∈ s.gauges g, d.Undoes s.panels (d.destroy layout s.panels)

/-- When a gauge is detached its strings keep no other header, when it is destroyed they keep none
but its own, and when it is attached its element objects find elements of their types. -/
def StringsOwn : HookAction η → Prop
  | .construct _ => True
  | .attach g h hookElements _ => s.Free g h → ∀ d ∈ s.gauges g,
    (d.gaugeHeader.isSome = true → d.KeepsOwn) ∧
      (hookElements = true → GaugeObject.Fits (layout h) (layout h).order d.elements)
  | .detach g => ∀ d ∈ s.gauges g, d.gaugeHeader.isSome = true → d.KeepsOwn
  | .destroy g => ∀ d ∈ s.gauges g, d.KeepsOwn

end HookState

/-! ### Element objects -/

/-- The elements visited are those of the tree. -/
theorem HeaderLayout.order_perm {layout : HeaderLayout} {root : RoseTree ℕ}
    (hroot : layout.elementsList = some root) : layout.order.Perm root.values := by
  have hvalues : RoseTree.valuesOf [root] = root.values := List.append_nil _
  have hperm := RoseTree.visit_perm (Nat.le_of_eq (congrArg List.length hvalues))
  rw [hvalues] at hperm
  simpa only [order, hroot] using hperm

/-- The tree of a header is numbered without repetition, so no element is visited twice. -/
theorem HeaderLayout.order_nodup (layout : HeaderLayout) : layout.order.Nodup := by
  cases hroot : layout.elementsList with
  | none => simp [order, hroot]
  | some root => exact (order_perm hroot).nodup_iff.mpr (layout.distinct root hroot)

/-- Strings from `strdup` are counted. -/
def Panels.Counted {η : Type*} (m : Panels η) : Prop :=
  ∀ e k, m.string e = some (.strdup k) → k < m.strdups

namespace ElementObject

variable {η : Type*} [DecidableEq η] {o : ElementObject η} {m : Panels η} {e : η × ℕ}

/-- Detaching an object touches no gauge callback and no mouse function. -/
theorem detach_frame (o : ElementObject η) (m : Panels η) :
    (o.detach m).2.gaugeCallback = m.gaugeCallback ∧
      (o.detach m).2.mouseFunctions = m.mouseFunctions ∧
      m.strdups ≤ (o.detach m).2.strdups := by
  unfold detach
  cases hheader : o.header with
  | none => simp
  | some e => cases hkind : o.kind <;> simp

/-- Detaching an object puts the callback it owns back. -/
theorem detach_updateCb (o : ElementObject η) (m : Panels η) (e : η × ℕ) :
    (o.Owns e → (o.detach m).2.updateCb e = o.origCallback) ∧
      (¬ o.Owns e → (o.detach m).2.updateCb e = m.updateCb e) := by
  unfold detach Owns
  cases hheader : o.header with
  | none => simp
  | some e' =>
    cases hkind : o.kind
    all_goals
      by_cases he : e = e'
      · simp [he]
      · simp [he, Ne.symm he]

/-- Detaching a string gives its element a new string. -/
theorem detach_string (o : ElementObject η) (m : Panels η) (e : η × ℕ) :
    ((o.kind = .string ∧ o.header = some e) →
      (o.detach m).2.string e = some (.strdup m.strdups) ∧
        m.strdups < (o.detach m).2.strdups) ∧
      (¬ (o.kind = .string ∧ o.header = some e) → (o.detach m).2.string e = m.string e) := by
  unfold detach
  cases hheader : o.header with
  | none => simp
  | some e' =>
    cases hkind : o.kind
    all_goals
      by_cases he : e = e'
      · simp [he]
      · simp [he, Ne.symm he]

/-- An attached object keeps its element and what was there. -/
theorem attach_object (o : ElementObject η) (m : Panels η) (adapter : Callback) (e : η × ℕ) :
    (o.attach m adapter e).1.kind = o.kind ∧ (o.attach m adapter e).1.header = some e ∧
      (o.kind ≠ .static → (o.attach m adapter e).1.origCallback = m.updateCb e) := by
  unfold attach
  cases o.kind <;> simp

/-- Attaching an object changes at most the callback of its element. -/
theorem attach_frame (o : ElementObject η) (m : Panels η) (adapter : Callback) (e : η × ℕ) :
    ((o.attach m adapter e).2.gaugeCallback = m.gaugeCallback ∧
        (o.attach m adapter e).2.mouseFunctions = m.mouseFunctions ∧
        (o.attach m adapter e).2.string = m.string ∧
        (o.attach m adapter e).2.strdups = m.strdups) ∧
      ∀ e', e' ≠ e → (o.attach m adapter e).2.updateCb e' = m.updateCb e' := by
  unfold attach
  cases o.kind
  all_goals
    by_cases hnone : m.updateCb e = none
    · simp +contextual [hnone]
    · simp +contextual [hnone]

/-- The callback of the element stays, or the object owns it. -/
theorem attach_updateCb (o : ElementObject η) (m : Panels η) (adapter : Callback) (e : η × ℕ) :
    (o.attach m adapter e).2.updateCb e = m.updateCb e ∨ (o.attach m adapter e).1.Owns e := by
  obtain ⟨hkind, hheader, -⟩ := o.attach_object m adapter e
  by_cases hstatic : o.kind = .static
  · left
    unfold attach
    rw [hstatic]
  · exact .inr ⟨hkind ▸ hstatic, hheader⟩

/-- Strings stay counted. -/
theorem detach_counted (o : ElementObject η) (hm : m.Counted) : (o.detach m).2.Counted := by
  intro e k hk
  by_cases hstring : o.kind = .string ∧ o.header = some e
  · obtain ⟨htext, hless⟩ := (o.detach_string m e).1 hstring
    rw [htext] at hk
    cases hk
    exact hless
  · rw [(o.detach_string m e).2 hstring] at hk
    exact Nat.lt_of_lt_of_le (hm e k hk) (o.detach_frame m).2.2

/-- A detached object keeps its class; only a string keeps its header. -/
theorem detach_object (o : ElementObject η) (m : Panels η) :
    (o.detach m).1.kind = o.kind ∧
      (o.detach m).1.header = (if o.kind = .string then o.header else none) ∧
      (o.kind = .string → (o.detach m).1 = o) := by
  unfold detach
  cases hheader : o.header with
  | none => cases hkind : o.kind <;> simp [hheader, hkind]
  | some e' => cases hkind : o.kind <;> simp [hheader, hkind]

end ElementObject

namespace GaugeObject

variable {η : Type*} [DecidableEq η] {layout : η → HeaderLayout}
  {elements : List (Option (ElementObject η))} {m : Panels η} {e : η × ℕ}

/-- Detaching elements leaves the gauge callbacks, the mouse functions and what no object owns. -/
theorem detachElements_frame (elements : List (Option (ElementObject η))) (m : Panels η) :
    (detachElements elements m).2.gaugeCallback = m.gaugeCallback ∧
      (detachElements elements m).2.mouseFunctions = m.mouseFunctions ∧
      m.strdups ≤ (detachElements elements m).2.strdups := by
  induction elements generalizing m with
  | nil => exact ⟨rfl, rfl, Nat.le_refl _⟩
  | cons object rest ih =>
    cases object with
    | none => exact ih m
    | some o =>
      obtain ⟨hgauge, hmouse, hstrdups⟩ := o.detach_frame m
      obtain ⟨hgauge', hmouse', hstrdups'⟩ := ih (o.detach m).2
      exact ⟨hgauge'.trans hgauge, hmouse'.trans hmouse, Nat.le_trans hstrdups hstrdups'⟩

/-- A string stays that no object of a string keeps. -/
theorem detachElements_string_same
    (hfree : ∀ o, some o ∈ elements → ¬ (o.kind = .string ∧ o.header = some e)) :
    (detachElements elements m).2.string e = m.string e := by
  induction elements generalizing m with
  | nil => rfl
  | cons object rest ih =>
    have hrest : ∀ o, some o ∈ rest → ¬ (o.kind = .string ∧ o.header = some e) := fun o ho =>
      hfree o (List.mem_cons_of_mem _ ho)
    cases object with
    | none => exact ih hrest
    | some o => exact (ih hrest).trans ((o.detach_string m e).2 (hfree o (List.mem_cons_self ..)))

/-- A callback that is the original one, or owned by an object that keeps the original one, is the
original one afterwards. -/
theorem detachElements_restores {original : Option Callback}
    (hsaved : ∀ o, some o ∈ elements → o.Owns e → o.origCallback = original)
    (hcover : m.updateCb e = original ∨ ∃ o, some o ∈ elements ∧ o.Owns e) :
    (detachElements elements m).2.updateCb e = original := by
  induction elements generalizing m with
  | nil => simpa [detachElements] using hcover
  | cons object rest ih =>
    have hrest : ∀ o, some o ∈ rest → o.Owns e → o.origCallback = original := fun o ho =>
      hsaved o (List.mem_cons_of_mem _ ho)
    cases object with
    | none => exact ih hrest (by simpa using hcover)
    | some o =>
      refine ih hrest ?_
      by_cases ho : o.Owns e
      · exact .inl (((o.detach_updateCb m e).1 ho).trans (hsaved o (List.mem_cons_self ..) ho))
      · rw [(o.detach_updateCb m e).2 ho]
        refine hcover.imp_right fun hsome => ?_
        obtain ⟨o', ho', howns⟩ := hsome
        cases List.mem_cons.mp ho' with
        | inl heq =>
          obtain rfl := Option.some.inj heq
          exact absurd howns ho
        | inr hin => exact ⟨o', hin, howns⟩

/-- What no object owns stays. -/
theorem detachElements_same (hfree : ∀ o, some o ∈ elements → ¬ o.Owns e) :
    (detachElements elements m).2.updateCb e = m.updateCb e ∧
      (detachElements elements m).2.string e = m.string e :=
  ⟨detachElements_restores (fun o ho howns => absurd howns (hfree o ho)) (.inl rfl),
    detachElements_string_same fun o ho h => hfree o ho ⟨by simp [h.1], h.2⟩⟩

/-- A string that keeps an element gives it a new string. -/
theorem detachElements_string
    (hstring : ∃ o, some o ∈ elements ∧ o.kind = .string ∧ o.header = some e) :
    ∃ k, m.strdups ≤ k ∧ (detachElements elements m).2.string e = some (.strdup k) := by
  induction elements generalizing m with
  | nil => simp at hstring
  | cons object rest ih =>
    by_cases hrest : ∃ o, some o ∈ rest ∧ o.kind = .string ∧ o.header = some e
    · cases object with
      | none => exact ih hrest
      | some o =>
        obtain ⟨k, hk, htext⟩ := @ih (o.detach m).2 hrest
        exact ⟨k, Nat.le_trans (o.detach_frame m).2.2 hk, htext⟩
    · obtain ⟨o, ho, hkind, hheader⟩ := hstring
      cases List.mem_cons.mp ho with
      | inr hin => exact absurd ⟨o, hin, hkind, hheader⟩ hrest
      | inl heq =>
        obtain rfl := heq
        have htext : (detachElements rest (o.detach m).2).2.string e = (o.detach m).2.string e :=
          detachElements_string_same fun o ho h => hrest ⟨o, ho, h⟩
        exact ⟨m.strdups, Nat.le_refl _,
          htext.trans ((o.detach_string m e).1 ⟨hkind, hheader⟩).1⟩

/-- Strings stay counted. -/
theorem detachElements_counted (hm : m.Counted) : (detachElements elements m).2.Counted := by
  induction elements generalizing m with
  | nil => exact hm
  | cons object rest ih =>
    cases object with
    | none => exact ih hm
    | some o => exact ih (o.detach_counted hm)

/-- The objects after `detach`: their classes stay, and only strings keep a header. -/
theorem mem_detachElements {o' : ElementObject η} (h : some o' ∈ (detachElements elements m).1) :
    ∃ o, some o ∈ elements ∧ o'.kind = o.kind ∧ (o.kind = .string → o' = o) ∧
      (o.kind ≠ .string → o'.header = none) := by
  induction elements generalizing m with
  | nil => cases h
  | cons object rest ih =>
    cases object with
    | none =>
      have h : some o' ∈ none :: (detachElements rest m).1 := h
      obtain ⟨o, ho, hrest⟩ := ih (by simpa using h)
      exact ⟨o, List.mem_cons_of_mem _ ho, hrest⟩
    | some o =>
      have h : some o' ∈ some (o.detach m).1 :: (detachElements rest (o.detach m).2).1 := h
      cases List.mem_cons.mp h with
      | inl heq =>
        obtain rfl := Option.some.inj heq
        obtain ⟨hkind, hheader, hsame⟩ := o.detach_object m
        exact ⟨o, List.mem_cons_self .., hkind, hsame, fun hne => hheader.trans (if_neg hne)⟩
      | inr hin =>
        obtain ⟨o, ho, hrest⟩ := ih hin
        exact ⟨o, List.mem_cons_of_mem _ ho, hrest⟩

/-- A string is the same object afterwards. -/
theorem string_mem_detachElements {o : ElementObject η} (ho : some o ∈ elements)
    (hkind : o.kind = .string) : some o ∈ (detachElements elements m).1 := by
  induction elements generalizing m with
  | nil => cases ho
  | cons object rest ih =>
    cases object with
    | none => exact List.mem_cons_of_mem _ (ih (by simpa using ho))
    | some p =>
      cases List.mem_cons.mp ho with
      | inl heq =>
        obtain rfl := Option.some.inj heq
        have hsame := (o.detach_object m).2.2 hkind
        exact List.mem_cons.mpr (.inl (congrArg some hsame.symm))
      | inr hin => exact List.mem_cons_of_mem _ (ih hin)

/-- Whether the objects fit is a matter of their classes. -/
theorem fits_detachElements (layout : HeaderLayout) (labels : List ℕ) :
    Fits layout labels (detachElements elements m).1 ↔ Fits layout labels elements := by
  induction labels generalizing elements m with
  | nil => exact Iff.rfl
  | cons l rest ih =>
    cases elements with
    | nil => exact Iff.rfl
    | cons object objects =>
      cases object with
      | none => exact and_congr_right fun _ => ih
      | some o =>
        have hkind := (o.detach_object m).1
        simp only [Fits, detachElements, List.head?_cons, Option.join_some, Option.mem_def,
          Option.some.injEq, forall_eq', hkind, List.tail_cons]
        exact and_congr_right fun _ => ih

/-! ### Gauges -/

/-- An attached gauge has what was in its header before, `m₀`, and its element objects have what
they put their adapters over. -/
structure Hooked (layout : η → HeaderLayout) (m₀ m : Panels η) (d : GaugeObject η) (h : η) :
    Prop where
  before : d.before = some (m₀.callbacks h)
  gauge : d.originalGaugeCallback = m₀.gaugeCallback h
  rect : d.origMouseRect = (layout h).mouseRect
  mouse : d.HooksMouse layout h = true → d.originalMouseCallbacks = m₀.mouseFunctions h ∧
    (m.mouseFunctions h).length = (m₀.mouseFunctions h).length
  noMouse : d.HooksMouse layout h = false → m.mouseFunctions h = m₀.mouseFunctions h
  update : ∀ l, m.updateCb (h, l) = m₀.updateCb (h, l) ∨
    ∃ o, some o ∈ d.elements ∧ o.Owns (h, l)

/-- What a gauge keeps are original callbacks, and only its strings keep elements of other headers
than its own. -/
structure Sound (layout : η → HeaderLayout) (m₀ m : Panels η) (d : GaugeObject η) : Prop where
  saved : ∀ o, some o ∈ d.elements → ∀ e, o.Owns e → o.origCallback = m₀.updateCb e
  within : ∀ o, some o ∈ d.elements → o.kind ≠ .string → ∀ e, o.Owns e →
    d.gaugeHeader = some e.1
  idle : d.gaugeHeader = none → d.originalMouseCallbacks = []
  hooked : ∀ h, d.gaugeHeader = some h → d.Hooked layout m₀ m h

variable {m₀ m' : Panels η} {d : GaugeObject η} {h : η}

omit [DecidableEq η] in
/-- A gauge has nothing to do with other headers. -/
theorem Sound.frame (hd : d.Sound layout m₀ m)
    (hsame : ∀ h, d.gaugeHeader = some h → m'.mouseFunctions h = m.mouseFunctions h ∧
      ∀ l, m'.updateCb (h, l) = m.updateCb (h, l)) : d.Sound layout m₀ m' := by
  refine ⟨hd.saved, hd.within, hd.idle, fun h hh => ?_⟩
  obtain ⟨hmouse, hupdate⟩ := hsame h hh
  have hhooked := hd.hooked h hh
  exact ⟨hhooked.before, hhooked.gauge, hhooked.rect, fun hm => hmouse ▸ hhooked.mouse hm,
    fun hm => hmouse.trans (hhooked.noMouse hm), fun l => hupdate l ▸ hhooked.update l⟩

omit [DecidableEq η] in
/-- Once its strings keep no other header, a gauge owns elements of its own header only. -/
theorem Sound.owns_own (hd : d.Sound layout m₀ m) (hkeep : d.KeepsOwn) {o : ElementObject η}
    (ho : some o ∈ d.elements) {e : η × ℕ} (howns : o.Owns e) : d.gaugeHeader = some e.1 := by
  by_cases hkind : o.kind = .string
  · exact hkeep o ho hkind e howns.2
  · exact hd.within o ho hkind e howns

/-- Putting back as many callbacks as there are puts back all of them. -/
theorem mapIdx_getD {functions original : List (Option Callback)}
    (h : functions.length = original.length) :
    (functions.mapIdx fun num _ => original.getD num none) = original := by
  refine List.ext_getElem (by simpa using h) fun num hnum horiginal => ?_
  simp [horiginal]

/-- Detaching puts the callbacks of the header back. -/
theorem Sound.detach_callbacks (hd : d.Sound layout m₀ m) (hh : d.gaugeHeader = some h) :
    (d.detach layout m).2.callbacks h = m₀.callbacks h := by
  have hhooked := hd.hooked h hh
  simp only [Panels.callbacks, detach, hh, Callbacks.mk.injEq]
  refine ⟨?_, ?_, ?_⟩
  · rw [(detachElements_frame _ _).1]
    exact (Function.update_self ..).trans hhooked.gauge
  · rw [(detachElements_frame _ _).2.1]
    simp only [restore]
    cases hmouse : d.HooksMouse layout h with
    | true =>
      obtain ⟨horiginal, hlength⟩ := hhooked.mouse hmouse
      rw [if_pos ⟨hhooked.rect, rfl⟩, Function.update_self, horiginal, mapIdx_getD hlength]
    | false =>
      rw [if_neg (fun hand => absurd hand.2 (by decide))]
      exact hhooked.noMouse hmouse
  · funext l
    exact detachElements_restores (fun o ho => hd.saved o ho _) (hhooked.update l)

/-- Detaching leaves the other headers alone if the strings keep none of them. -/
theorem Sound.detach_same (hd : d.Sound layout m₀ m)
    (hkeep : d.gaugeHeader.isSome = true → d.KeepsOwn) (hne : d.gaugeHeader ≠ some h) :
    m.Same (d.detach layout m).2 h := by
  cases hh : d.gaugeHeader with
  | none =>
    simp only [detach, hh]
    exact ⟨rfl, rfl, fun _ => rfl, fun _ => rfl⟩
  | some h' =>
    have hneq : h ≠ h' := fun heq => hne (heq ▸ hh)
    have hfree : ∀ l o, some o ∈ d.elements → ¬ o.Owns (h, l) := fun l o ho howns =>
      hne (hd.owns_own (hkeep (by rw [hh]; rfl)) ho howns)
    simp only [detach, hh]
    refine ⟨?_, ?_, fun l => (detachElements_same (hfree l)).1,
      fun l => (detachElements_same (hfree l)).2⟩
    · rw [(detachElements_frame _ _).1]
      exact Function.update_of_ne hneq ..
    · rw [(detachElements_frame _ _).2.1]
      simp only [restore]
      split
      · rw [Function.update_of_ne hneq]
      · rfl

/-- A detached gauge is attached to nothing. -/
theorem detach_gaugeHeader (d : GaugeObject η) (m : Panels η) :
    (d.detach layout m).1.gaugeHeader = none := by
  cases hh : d.gaugeHeader <;> simp [detach, hh]

/-- The objects of a gauge after it is detached. -/
theorem Sound.mem_detach (hd : d.Sound layout m₀ m) {o' : ElementObject η}
    (ho' : some o' ∈ (d.detach layout m).1.elements) :
    ∃ o, some o ∈ d.elements ∧ o'.kind = o.kind ∧ (o.kind = .string → o' = o) ∧
      (o.kind ≠ .string → ∀ e, ¬ o'.Owns e) := by
  cases hh : d.gaugeHeader with
  | none =>
    simp only [detach, hh] at ho'
    refine ⟨o', ho', rfl, fun _ => rfl, fun hkind e howns => ?_⟩
    have hown := hd.within o' ho' hkind e howns
    rw [hh] at hown
    cases hown
  | some h' =>
    simp only [detach, hh] at ho'
    obtain ⟨o, ho, hkind, hsame, hheader⟩ := mem_detachElements ho'
    refine ⟨o, ho, hkind, hsame, fun hne e howns => ?_⟩
    have hnone := howns.2
    rw [hheader hne] at hnone
    cases hnone

/-- A detached gauge stays sound, whatever happens to the headers. -/
theorem Sound.detach (hd : d.Sound layout m₀ m) (m' : Panels η) :
    (d.detach layout m).1.Sound layout m₀ m' := by
  refine ⟨fun o' ho' e howns => ?_, fun o' ho' hkind e howns => ?_, fun _ => ?_, fun h hh => ?_⟩
  · obtain ⟨o, ho, -, hsame, hnone⟩ := hd.mem_detach ho'
    by_cases hstring : o.kind = .string
    · rw [hsame hstring] at howns ⊢
      exact hd.saved o ho e howns
    · exact absurd howns (hnone hstring e)
  · obtain ⟨o, ho, hsamekind, -, hnone⟩ := hd.mem_detach ho'
    exact absurd howns (hnone (hsamekind ▸ hkind) e)
  · cases hh : d.gaugeHeader with
    | none => simpa [GaugeObject.detach, hh] using hd.idle hh
    | some h => simp [GaugeObject.detach, hh]
  · rw [detach_gaugeHeader] at hh
    cases hh

/-- Strings stay counted. -/
theorem detach_counted (d : GaugeObject η) (hm : m.Counted) : (d.detach layout m).2.Counted := by
  cases hh : d.gaugeHeader with
  | none => simpa [detach, hh] using hm
  | some h =>
    simp only [detach, hh]
    exact detachElements_counted hm

/-- Detaching only makes new strings. -/
theorem strdups_detach (d : GaugeObject η) (m : Panels η) :
    m.strdups ≤ (d.detach layout m).2.strdups := by
  cases hh : d.gaugeHeader with
  | none => simp [detach, hh]
  | some h =>
    simp only [detach, hh]
    exact (detachElements_frame d.elements (d.restore layout m h)).2.2

omit [DecidableEq η] in
/-- A new string is none of those before. -/
theorem not_same_of_strdup (hm : m.Counted) {k : ℕ} (hk : m.strdups ≤ k)
    (hstring : m'.string e = some (.strdup k)) : ¬ m.Same m' e.1 := by
  intro hsame
  have hold : m.string e = some (.strdup k) := (hsame.string e.2).symm.trans hstring
  exact absurd (hm e k hold) (Nat.not_lt.mpr hk)

/-- Detaching undoes exactly the gauge's own hooks if and only if no string keeps another header. -/
theorem Sound.undoes_detach_iff (hd : d.Sound layout m₀ m) (hm : m.Counted) :
    d.Undoes m (d.detach layout m).2 ↔ (d.gaugeHeader.isSome = true → d.KeepsOwn) := by
  constructor
  · intro hundoes hattached o ho hkind e hheader
    obtain ⟨h, hh⟩ := Option.isSome_iff_exists.mp hattached
    by_contra hne
    refine absurd (hundoes.same e.1 hne) ?_
    simp only [GaugeObject.detach, hh]
    obtain ⟨k, hk, hstring⟩ := detachElements_string (m := d.restore layout m h)
      ⟨o, ho, hkind, hheader⟩
    exact not_same_of_strdup hm hk hstring
  · intro hkeep
    refine ⟨fun h hh => ?_, fun h hne => hd.detach_same hkeep hne⟩
    rw [(hd.hooked h hh).before, hd.detach_callbacks hh]

/-- The strings of a gauge are the same after it is detached. -/
theorem string_mem_detach {o : ElementObject η} (ho : some o ∈ d.elements)
    (hkind : o.kind = .string) (m : Panels η) : some o ∈ (d.detach layout m).1.elements := by
  cases hh : d.gaugeHeader with
  | none => simpa [detach, hh] using ho
  | some h =>
    simp only [detach, hh]
    exact string_mem_detachElements ho hkind

/-- Destroying undoes exactly the gauge's own hooks if and only if every string keeps no header but
the gauge's. -/
theorem Sound.undoes_destroy_iff (hd : d.Sound layout m₀ m) (hm : m.Counted) :
    d.Undoes m (d.destroy layout m) ↔ d.KeepsOwn := by
  constructor
  · intro hundoes o ho hkind e hheader
    by_contra hne
    refine absurd (hundoes.same e.1 hne) ?_
    obtain ⟨k, hk, hstring⟩ := detachElements_string (m := (d.detach layout m).2)
      ⟨o, d.string_mem_detach ho hkind m, hkind, hheader⟩
    exact not_same_of_strdup hm (Nat.le_trans (strdups_detach d m) hk) hstring
  · intro hkeep
    have hafter := hd.detach (d.detach layout m).2
    have hframe := detachElements_frame (d.detach layout m).1.elements (d.detach layout m).2
    -- what the destructors of the elements still own
    have howned : ∀ e o, some o ∈ (d.detach layout m).1.elements → o.Owns e →
        d.gaugeHeader = some e.1 := by
      intro e o' ho' howns
      obtain ⟨o, ho, -, hsame, hnone⟩ := hd.mem_detach ho'
      by_cases hstring : o.kind = .string
      · rw [hsame hstring] at howns
        exact hkeep o ho hstring e howns.2
      · exact absurd howns (hnone hstring e)
    refine ⟨fun h hh => ?_, fun h hne => ?_⟩
    · rw [(hd.hooked h hh).before, ← hd.detach_callbacks hh]
      simp only [Panels.callbacks, destroy, hframe.1, hframe.2.1, Option.some.injEq,
        Callbacks.mk.injEq, true_and]
      funext l
      have horiginal := congrArg (fun c => c.updateCb l) (hd.detach_callbacks hh)
      exact (horiginal.trans (detachElements_restores (fun o ho => hafter.saved o ho _)
        (.inl horiginal)).symm)
    · have hsame := hd.detach_same (fun _ => hkeep) hne
      have hfree : ∀ l o, some o ∈ (d.detach layout m).1.elements → ¬ o.Owns (h, l) :=
        fun l o ho howns => hne (howned (h, l) o ho howns)
      exact ⟨(congrFun hframe.1 h).trans hsame.gaugeCallback,
        (congrFun hframe.2.1 h).trans hsame.mouseFunctions,
        fun l => (detachElements_same (hfree l)).1.trans (hsame.updateCb l),
        fun l => (detachElements_same (hfree l)).2.trans (hsame.string l)⟩

/-! ### Attaching -/

/-- The elements are attached if and only if the objects that are there fit. -/
theorem createElements_isSome_iff (g : ℕ) (h : η) (num : ℕ) (labels : List ℕ)
    (elements : List (Option (ElementObject η))) (m : Panels η) :
    (createElements layout g h num labels elements m).isSome = true ↔
      Fits (layout h) labels elements := by
  induction labels generalizing num elements m with
  | nil => exact iff_of_true rfl trivial
  | cons l rest ih =>
    cases elements with
    | nil =>
      cases htype : (layout h).elementType l with
      | none => simp [createElements, createElement, htype, Fits, ih]
      | some kind => simp [createElements, createElement, htype, Fits, ih]
    | cons object objects =>
      cases object with
      | none => simp [createElements, Fits, ih]
      | some o =>
        by_cases hkind : (layout h).elementType l = some o.kind
        · simp [createElements, Fits, hkind, ih]
        · simp [createElements, Fits, hkind]

/-- What attaching the elements leaves behind, if nothing was attached to them: the objects that are
attached keep the original callbacks, and only callbacks they own are changed. -/
theorem createElements_spec {g : ℕ} {labels : List ℕ} {num : ℕ}
    {elements' : List (Option (ElementObject η))} (hdistinct : labels.Nodup)
    (horiginal : ∀ l ∈ labels, m.updateCb (h, l) = m₀.updateCb (h, l))
    (hcreate : createElements layout g h num labels elements m = some (elements', m')) :
    (m'.gaugeCallback = m.gaugeCallback ∧ m'.mouseFunctions = m.mouseFunctions ∧
        m'.string = m.string ∧ m'.strdups = m.strdups) ∧
      (∀ o, some o ∈ elements' → some o ∈ elements ∨ ∃ l, o.header = some (h, l) ∧
        (o.kind ≠ .static → o.origCallback = m₀.updateCb (h, l))) ∧
      ∀ e, m'.updateCb e = m.updateCb e ∨ e.1 = h ∧ ∃ o, some o ∈ elements' ∧ o.Owns e := by
  induction labels generalizing num elements m elements' with
  | nil =>
    cases hcreate
    exact ⟨⟨rfl, rfl, rfl, rfl⟩, fun o ho => .inl ho, fun e => .inl rfl⟩
  | cons l rest ih =>
    rw [List.nodup_cons] at hdistinct
    have hrest : ∀ l ∈ rest, m.updateCb (h, l) = m₀.updateCb (h, l) := fun l hl =>
      horiginal l (List.mem_cons_of_mem _ hl)
    simp only [createElements] at hcreate
    split at hcreate
    · obtain ⟨⟨objects, m''⟩, hnext, heq⟩ := Option.map_eq_some_iff.mp hcreate
      cases heq
      obtain ⟨hcolumns, hobjects, hupdate⟩ := ih hdistinct.2 hrest hnext
      refine ⟨hcolumns, fun o ho => ?_, fun e => ?_⟩
      · exact (hobjects o (by simpa using ho)).imp_left List.mem_of_mem_tail
      · refine (hupdate e).imp_right fun hnew => ?_
        obtain ⟨he, o, ho, howns⟩ := hnew
        exact ⟨he, o, List.mem_cons_of_mem _ ho, howns⟩
    · next o hobject =>
      split at hcreate
      · obtain ⟨⟨objects, m''⟩, hnext, heq⟩ := Option.map_eq_some_iff.mp hcreate
        cases heq
        obtain ⟨hkind, hheader, hsaved⟩ := o.attach_object m (.element g num) (h, l)
        obtain ⟨hcolumns, hother⟩ := o.attach_frame m (.element g num) (h, l)
        have hnotin : ∀ l' ∈ rest, (h, l') ≠ (h, l) := by
          intro l' hl' heq
          obtain rfl := (Prod.mk.inj heq).2
          exact hdistinct.1 hl'
        obtain ⟨⟨hgauge, hmouse, hstring, hstrdups⟩, hobjects, hupdate⟩ :=
          ih hdistinct.2 (fun l' hl' => (hother _ (hnotin l' hl')).trans (hrest l' hl')) hnext
        refine ⟨⟨hgauge.trans hcolumns.1, hmouse.trans hcolumns.2.1, hstring.trans hcolumns.2.2.1,
          hstrdups.trans hcolumns.2.2.2⟩, fun o' ho' => ?_, fun e => ?_⟩
        · cases List.mem_cons.mp ho' with
          | inl heq =>
            obtain rfl := Option.some.inj heq
            refine .inr ⟨l, hheader, fun hstatic => ?_⟩
            exact (hsaved (hkind ▸ hstatic)).trans (horiginal l (List.mem_cons_self ..))
          | inr hin => exact (hobjects o' hin).imp_left List.mem_of_mem_tail
        · cases hupdate e with
          | inr hnew =>
            obtain ⟨he, o', ho', howns⟩ := hnew
            exact .inr ⟨he, o', List.mem_cons_of_mem _ ho', howns⟩
          | inl hsame =>
            by_cases he : e = (h, l)
            · subst he
              cases o.attach_updateCb m (.element g num) (h, l) with
              | inl hkept => exact .inl (hsame.trans hkept)
              | inr howns => exact .inr ⟨rfl, _, List.mem_cons_self .., howns⟩
            · exact .inl (hsame.trans (hother e he))
      · cases hcreate

/-- What the second half of `attach` leaves alone. -/
theorem hook_frame (d : GaugeObject η) (m : Panels η) (g : ℕ) (h : η) (hookMouse : Bool) :
    (d.hook layout m g h hookMouse).2.updateCb = m.updateCb ∧
      (d.hook layout m g h hookMouse).2.string = m.string ∧
      (d.hook layout m g h hookMouse).2.strdups = m.strdups ∧
      (d.hook layout m g h hookMouse).1.elements = d.elements ∧
      (d.hook layout m g h hookMouse).1.gaugeHeader = some h ∧
      ∀ h', h' ≠ h →
        (d.hook layout m g h hookMouse).2.gaugeCallback h' = m.gaugeCallback h' ∧
          (d.hook layout m g h hookMouse).2.mouseFunctions h' = m.mouseFunctions h' := by
  unfold hook
  dsimp only
  split
  · exact ⟨rfl, rfl, rfl, rfl, rfl, fun h' hne =>
      ⟨Function.update_of_ne hne .., Function.update_of_ne hne ..⟩⟩
  · exact ⟨rfl, rfl, rfl, rfl, rfl, fun h' hne => ⟨Function.update_of_ne hne .., rfl⟩⟩

/-- The second half of `attach` keeps what was in the header before. -/
theorem hook_hooked (hbefore : d.before = some (m₀.callbacks h))
    (hidle : d.originalMouseCallbacks = []) (hgauge : m.gaugeCallback h = m₀.gaugeCallback h)
    (hmouse : m.mouseFunctions h = m₀.mouseFunctions h)
    (hupdate : ∀ l, m.updateCb (h, l) = m₀.updateCb (h, l) ∨
      ∃ o, some o ∈ d.elements ∧ o.Owns (h, l)) (g : ℕ) (hookMouse : Bool) :
    (d.hook layout m g h hookMouse).1.Hooked layout m₀ (d.hook layout m g h hookMouse).2 h := by
  unfold hook
  dsimp only
  split
  · next hhooks =>
    refine ⟨hbefore, hgauge, rfl, fun _ => ⟨?_, ?_⟩, fun hnot => ?_, hupdate⟩
    · simp only [hidle, List.nil_append, hmouse]
    · simp [hmouse]
    · exact absurd (hhooks.symm.trans hnot) (by decide)
  · next hhooks =>
    exact ⟨hbefore, hgauge, rfl, fun hnot => absurd hnot hhooks, fun _ => hmouse, hupdate⟩

/-- An attach succeeds if and only if the objects fit, where elements are hooked. -/
theorem attach_isSome_iff (d : GaugeObject η) (m : Panels η) (g : ℕ) (h : η)
    (hookElements hookMouse : Bool) :
    (d.attach layout m g h hookElements hookMouse).isSome = true ↔
      (hookElements = true → Fits (layout h) (layout h).order d.elements) := by
  have hfits : Fits (layout h) (layout h).order (d.detach layout m).1.elements ↔
      Fits (layout h) (layout h).order d.elements := by
    cases hh : d.gaugeHeader with
    | none => simp only [detach, hh]
    | some h' =>
      simp only [detach, hh]
      exact fits_detachElements _ _
  cases hookElements with
  | false => simp [attach]
  | true =>
    rw [← hfits, ← createElements_isSome_iff g h 0 _ _ (d.detach layout m).2]
    simp [attach]

/-- What hooking the elements of a header with its original callbacks leaves behind. -/
theorem hookElements_spec {g : ℕ} {hookElements : Bool}
    {elements' : List (Option (ElementObject η))}
    (horiginal : ∀ l, m.updateCb (h, l) = m₀.updateCb (h, l))
    (hhooked : (if hookElements then createElements layout g h 0 (layout h).order elements m
      else some (elements, m)) = some (elements', m')) :
    (m'.gaugeCallback = m.gaugeCallback ∧ m'.mouseFunctions = m.mouseFunctions ∧
        m'.string = m.string ∧ m'.strdups = m.strdups) ∧
      (∀ o, some o ∈ elements' → some o ∈ elements ∨ ∃ l, o.header = some (h, l) ∧
        (o.kind ≠ .static → o.origCallback = m₀.updateCb (h, l))) ∧
      ∀ e, m'.updateCb e = m.updateCb e ∨ e.1 = h ∧ ∃ o, some o ∈ elements' ∧ o.Owns e := by
  cases hookElements with
  | true => exact createElements_spec (layout h).order_nodup (fun l _ => horiginal l) hhooked
  | false =>
    cases hhooked
    exact ⟨⟨rfl, rfl, rfl, rfl⟩, fun o ho => .inl ho, fun e => .inl rfl⟩

/-- A gauge whose objects are those of a detached gauge or newly attached is sound once it is
hooked. -/
theorem Sound.hook (hd : d.Sound layout m₀ m) (hnone : d.gaugeHeader = none)
    {elements' : List (Option (ElementObject η))}
    (hobjects : ∀ o, some o ∈ elements' → some o ∈ d.elements ∨ ∃ l, o.header = some (h, l) ∧
      (o.kind ≠ .static → o.origCallback = m₀.updateCb (h, l)))
    (hcallbacks : m.callbacks h = m₀.callbacks h) (hgauge : m'.gaugeCallback = m.gaugeCallback)
    (hmouse : m'.mouseFunctions = m.mouseFunctions)
    (hupdate : ∀ e, m'.updateCb e = m.updateCb e ∨
      e.1 = h ∧ ∃ o, some o ∈ elements' ∧ o.Owns e) (g : ℕ) (hookMouse : Bool) :
    let r := GaugeObject.hook layout
      { d with elements := elements', before := some (m.callbacks h) } m' g h hookMouse
    r.1.Sound layout m₀ r.2 := by
  intro r
  obtain ⟨-, -, -, helements, hheader, -⟩ := @hook_frame η _ layout
    { d with elements := elements', before := some (m.callbacks h) } m' g h hookMouse
  refine ⟨fun o ho e howns => ?_, fun o ho hkind e howns => ?_, fun hidle => ?_, fun h' hh' => ?_⟩
  · rw [helements] at ho
    cases hobjects o ho with
    | inl hold => exact hd.saved o hold e howns
    | inr hnew =>
      obtain ⟨l, hl, hsaved⟩ := hnew
      obtain rfl := Option.some.inj (howns.2.symm.trans hl)
      exact hsaved howns.1
  · rw [helements] at ho
    cases hobjects o ho with
    | inl hold =>
      have hown := hd.within o hold hkind e howns
      rw [hnone] at hown
      cases hown
    | inr hnew =>
      obtain ⟨l, hl, -⟩ := hnew
      obtain rfl := Option.some.inj (howns.2.symm.trans hl)
      exact hheader
  · rw [hheader] at hidle
    cases hidle
  · obtain rfl := Option.some.inj (hheader.symm.trans hh')
    have hupdate' : ∀ l, m.updateCb (h, l) = m₀.updateCb (h, l) := fun l =>
      congrArg (fun c => c.updateCb l) hcallbacks
    refine hook_hooked (d := { d with
        elements := elements', before := some (m.callbacks h) }) (congrArg some hcallbacks)
      (hd.idle hnone)
      ((congrFun hgauge h).trans (congrArg Callbacks.gaugeCallback hcallbacks))
      ((congrFun hmouse h).trans (congrArg Callbacks.mouseFunctions hcallbacks))
      (fun l => ?_) g hookMouse
    exact (hupdate (h, l)).imp (fun hsame => hsame.trans (hupdate' l)) fun hnew => hnew.2

/-- A gauge that is attached to a header with its original callbacks is sound, and leaves the other
headers as they are after it is detached from its own. -/
theorem Sound.attach (hd : d.Sound layout m₀ m)
    (hclean : (d.detach layout m).2.callbacks h = m₀.callbacks h) {g : ℕ}
    {hookElements hookMouse : Bool} {d' : GaugeObject η}
    (hattach : d.attach layout m g h hookElements hookMouse = some (d', m')) :
    d'.gaugeHeader = some h ∧ d'.Sound layout m₀ m' ∧
      (m'.string = (d.detach layout m).2.string ∧ m'.strdups = (d.detach layout m).2.strdups) ∧
        ∀ h', h' ≠ h → (d.detach layout m).2.Same m' h' := by
  obtain ⟨⟨elements', m''⟩, hhooked, heq⟩ := Option.map_eq_some_iff.mp hattach
  obtain ⟨⟨hgauge, hmouse, hstring, hstrdups⟩, hobjects, hupdate⟩ :=
    hookElements_spec (fun l => congrArg (fun c => c.updateCb l) hclean) hhooked
  have hsound := (hd.detach (d.detach layout m).2).hook (d.detach_gaugeHeader m) hobjects hclean
    hgauge hmouse hupdate g hookMouse
  obtain ⟨hcb, hstring', hstrdups', -, hheader, hframe⟩ := @GaugeObject.hook_frame η _ layout
    { (d.detach layout m).1 with
      elements := elements', before := some ((d.detach layout m).2.callbacks h) }
    m'' g h hookMouse
  have hd' := congrArg Prod.fst heq
  have hm' := congrArg Prod.snd heq
  simp only at hd' hm'
  subst hd' hm'
  refine ⟨hheader, hsound, ⟨hstring'.trans hstring, hstrdups'.trans hstrdups⟩, fun h' hne => ?_⟩
  have hother : ∀ l, m''.updateCb (h', l) = (d.detach layout m).2.updateCb (h', l) := fun l =>
    (hupdate (h', l)).resolve_right fun hnew => hne hnew.1
  exact ⟨((hframe h' hne).1).trans (congrFun hgauge h'),
    ((hframe h' hne).2).trans (congrFun hmouse h'),
    fun l => (congrFun hcb (h', l)).trans (hother l),
    fun l => congrFun (hstring'.trans hstring) (h', l)⟩

end GaugeObject

namespace HookState

variable {η : Type*} [DecidableEq η] {layout : η → HeaderLayout} {m₀ : Panels η}
  {s t : HookState η}

/-- In every state before a slip: headers without a gauge have their original callbacks, those of
`m₀`, and all gauges are sound. -/
structure Sound (layout : η → HeaderLayout) (m₀ : Panels η) (s : HookState η) : Prop where
  counted : s.panels.Counted
  alive : ∀ h g, s.owner h = some g → ∃ d, s.gauges g = some d
  owned : ∀ g d, s.gauges g = some d → ∀ h, d.gaugeHeader = some h ↔ s.owner h = some g
  free : ∀ h, s.owner h = none → s.panels.callbacks h = m₀.callbacks h
  gauges : ∀ g d, s.gauges g = some d → d.Sound layout m₀ s.panels

omit [DecidableEq η] in
/-- The start is sound. -/
theorem sound_start (original : η → Callbacks) (string : η × ℕ → Option ℕ) :
    (start original string).Sound layout (start original string).panels := by
  refine ⟨fun e k hk => ?_, fun h g hg => ?_, fun g d hd => ?_, fun h _ => rfl, fun g d hd => ?_⟩
  · obtain ⟨n, -, hn⟩ := Option.map_eq_some_iff.mp hk
    cases hn
  · cases hg
  · cases hd
  · cases hd

/-- In a sound state a call undoes exactly the hooks it should if and only if the strings keep no
header they should not, and every object finds an element of its type. -/
theorem Sound.hooksUndone_iff (hs : s.Sound layout m₀) (a : HookAction η) :
    s.HooksUndone layout a ↔ s.StringsOwn layout a := by
  cases a with
  | construct g => exact Iff.rfl
  | attach g h hookElements hookMouse =>
    refine forall_congr' fun _ => forall_congr' fun d => forall_congr' fun hd => ?_
    exact and_congr ((hs.gauges g d hd).undoes_detach_iff hs.counted)
      (d.attach_isSome_iff s.panels g h hookElements hookMouse)
  | detach g =>
    exact forall_congr' fun d => forall_congr' fun hd =>
      (hs.gauges g d hd).undoes_detach_iff hs.counted
  | destroy g =>
    exact forall_congr' fun d => forall_congr' fun hd =>
      (hs.gauges g d hd).undoes_destroy_iff hs.counted

variable {g : ℕ} {h : η} {d d' : GaugeObject η} {m' : Panels η}

/-- A gauge that undoes its own hooks leaves a sound state, whether it goes or stays. -/
theorem Sound.release (hs : s.Sound layout m₀) (hd : s.gauges g = some d) (hcounted : m'.Counted)
    (hown : ∀ h, d.gaugeHeader = some h → m'.callbacks h = m₀.callbacks h)
    (hsame : ∀ h, d.gaugeHeader ≠ some h → s.panels.Same m' h) {after : Option (GaugeObject η)}
    (hafter : ∀ d', after = some d' → d'.gaugeHeader = none ∧ d'.Sound layout m₀ m') :
    Sound layout m₀
      { panels := m'
        owner := s.release d.gaugeHeader
        gauges := Function.update s.gauges g after } := by
  have howner : ∀ h, d.gaugeHeader = some h ↔ s.owner h = some g := hs.owned g d hd
  -- a gauge other than this one has another header
  have hother : ∀ g' d' h, g' ≠ g → s.gauges g' = some d' → d.gaugeHeader = some h →
      d'.gaugeHeader ≠ some h := fun g' d' h hgg hd' hh hh' =>
    hgg (Option.some.inj (((hs.owned g' d' hd' h).mp hh').symm.trans ((howner h).mp hh)))
  refine ⟨hcounted, fun h g' hg' => ?_, fun g' d' hd' h => ?_, fun h hfree => ?_,
    fun g' d' hd' => ?_⟩
  · simp only [HookState.release] at hg'
    split at hg'
    · cases hg'
    · next hne =>
      have hgg : g' ≠ g := fun heq => hne ((howner h).mpr (heq ▸ hg'))
      obtain ⟨d', hd'⟩ := hs.alive h g' hg'
      exact ⟨d', (Function.update_of_ne hgg ..).trans hd'⟩
  · simp only [HookState.release]
    rcases update_eq_some hd' with ⟨rfl, hnew⟩ | ⟨hgg, hold⟩
    · rw [(hafter d' hnew).1]
      by_cases hh : d.gaugeHeader = some h
      · simp [hh]
      · simpa [hh] using mt (howner h).mpr hh
    · by_cases hh : d.gaugeHeader = some h
      · simp [hh, hother g' d' h hgg hold hh]
      · simpa [hh] using hs.owned g' d' hold h
  · simp only [HookState.release] at hfree
    by_cases hh : d.gaugeHeader = some h
    · exact hown h hh
    · rw [if_neg hh] at hfree
      exact (hsame h hh).callbacks.trans (hs.free h hfree)
  · rcases update_eq_some hd' with ⟨rfl, hnew⟩ | ⟨hgg, hold⟩
    · exact (hafter d' hnew).2
    · refine (hs.gauges g' d' hold).frame fun h hh' => ?_
      have hh : d.gaugeHeader ≠ some h := fun hh => hother g' d' h hgg hold hh hh'
      exact ⟨(hsame h hh).mouseFunctions, (hsame h hh).updateCb⟩

/-- A gauge that takes a free header leaves a sound state. -/
theorem Sound.take (hs : s.Sound layout m₀) (hd : s.gauges g = some d)
    (hnone : d.gaugeHeader = none) (hfree : s.owner h = none) (hcounted : m'.Counted)
    (hheader : d'.gaugeHeader = some h) (hd' : d'.Sound layout m₀ m')
    (hsame : ∀ h', h' ≠ h → s.panels.Same m' h') :
    Sound layout m₀
      { panels := m'
        owner := Function.update s.owner h (some g)
        gauges := Function.update s.gauges g (some d') } := by
  refine ⟨hcounted, fun h' g' hg' => ?_, fun g' p hp h' => ?_, fun h' hfree' => ?_,
    fun g' p hp => ?_⟩
  · by_cases hgg : g' = g
    · subst hgg
      exact ⟨d', Function.update_self ..⟩
    · rcases update_eq_some hg' with ⟨-, hnew⟩ | ⟨-, hold⟩
      · exact absurd (Option.some.inj hnew).symm hgg
      · obtain ⟨p, hp⟩ := hs.alive h' g' hold
        exact ⟨p, (Function.update_of_ne hgg ..).trans hp⟩
  · dsimp only
    by_cases hh : h' = h
    · subst hh
      rw [Function.update_self]
      rcases update_eq_some hp with ⟨rfl, hnew⟩ | ⟨hgg, hold⟩
      · exact iff_of_true ((Option.some.inj hnew) ▸ hheader) rfl
      · refine iff_of_false (fun hh' => ?_) fun heq => hgg (Option.some.inj heq).symm
        rw [(hs.owned g' p hold h').mp hh'] at hfree
        cases hfree
    · rw [Function.update_of_ne hh]
      rcases update_eq_some hp with ⟨rfl, hnew⟩ | ⟨hgg, hold⟩
      · obtain rfl := Option.some.inj hnew
        refine iff_of_false (fun hh' => hh ?_) fun howner => ?_
        · exact Option.some.inj (hh'.symm.trans hheader)
        · rw [(hs.owned g' d hd h').mpr howner] at hnone
          cases hnone
      · exact hs.owned g' p hold h'
  · by_cases hh : h' = h
    · subst hh
      simp at hfree'
    · simp only [Function.update_of_ne hh] at hfree'
      exact (hsame h' hh).callbacks.trans (hs.free h' hfree')
  · rcases update_eq_some hp with ⟨rfl, hnew⟩ | ⟨hgg, hold⟩
    · exact (Option.some.inj hnew) ▸ hd'
    · refine (hs.gauges g' p hold).frame fun h' hh' => ?_
      have hh : h' ≠ h := by
        intro heq
        rw [heq] at hh'
        rw [(hs.owned g' p hold h).mp hh'] at hfree
        cases hfree
      exact ⟨(hsame h' hh).mouseFunctions, (hsame h' hh).updateCb⟩

omit [DecidableEq η] in
/-- A constructed gauge has nothing yet. -/
theorem Sound.construct (hs : s.Sound layout m₀) (hg : s.gauges g = none) :
    Sound layout m₀ { s with gauges := Function.update s.gauges g (some {}) } := by
  have hunowned : ∀ h, s.owner h ≠ some g := by
    intro h howner
    obtain ⟨d, hd⟩ := hs.alive h g howner
    cases hg.symm.trans hd
  refine ⟨hs.counted, fun h g' hg' => ?_, fun g' d hd h => ?_, hs.free, fun g' d hd => ?_⟩
  · obtain ⟨d, hd⟩ := hs.alive h g' hg'
    have hgg : g' ≠ g := fun heq => hunowned h (heq ▸ hg')
    exact ⟨d, (Function.update_of_ne hgg ..).trans hd⟩
  · rcases update_eq_some hd with ⟨rfl, hnew⟩ | ⟨-, hold⟩
    · obtain rfl := Option.some.inj hnew
      exact iff_of_false (by simp) (hunowned h)
    · exact hs.owned g' d hold h
  · rcases update_eq_some hd with ⟨rfl, hnew⟩ | ⟨-, hold⟩
    · obtain rfl := Option.some.inj hnew
      exact ⟨by simp, by simp, fun _ => rfl, by simp⟩
    · exact hs.gauges g' d hold

/-- Detaching a gauge leaves a sound state. -/
theorem Sound.detach (hs : s.Sound layout m₀) (hd : s.gauges g = some d)
    (hkeep : d.gaugeHeader.isSome = true → d.KeepsOwn) :
    Sound layout m₀
      { panels := (d.detach layout s.panels).2
        owner := s.release d.gaugeHeader
        gauges := Function.update s.gauges g (some (d.detach layout s.panels).1) } := by
  have hsound := hs.gauges g d hd
  refine hs.release hd (d.detach_counted hs.counted) (fun h hh => hsound.detach_callbacks hh)
    (fun h hne => hsound.detach_same hkeep hne) fun d' hd' => ?_
  obtain rfl := Option.some.inj hd'
  exact ⟨d.detach_gaugeHeader s.panels, hsound.detach _⟩

/-- Destroying a gauge leaves a sound state. -/
theorem Sound.destroy (hs : s.Sound layout m₀) (hd : s.gauges g = some d) (hkeep : d.KeepsOwn) :
    Sound layout m₀
      { panels := d.destroy layout s.panels
        owner := s.release d.gaugeHeader
        gauges := Function.update s.gauges g none } := by
  have hsound := hs.gauges g d hd
  have hundoes := (hsound.undoes_destroy_iff hs.counted).mpr hkeep
  refine hs.release hd (GaugeObject.detachElements_counted (d.detach_counted hs.counted))
    (fun h hh => ?_) hundoes.same fun d' hd' => by cases hd'
  exact Option.some.inj ((hundoes.restored h hh).symm.trans (hsound.hooked h hh).before)

/-- Attaching a gauge to a free header leaves a sound state. -/
theorem Sound.attach (hs : s.Sound layout m₀) (hd : s.gauges g = some d) (hfree : s.Free g h)
    (hkeep : d.gaugeHeader.isSome = true → d.KeepsOwn) {hookElements hookMouse : Bool}
    (hattach : d.attach layout s.panels g h hookElements hookMouse = some (d', m')) :
    Sound layout m₀
      { panels := m'
        owner := Function.update (s.release d.gaugeHeader) h (some g)
        gauges := Function.update s.gauges g (some d') } := by
  -- the gauge is detached from its own header first
  have hdetached := hs.detach hd hkeep
  have hnone : s.release d.gaugeHeader h = none := by
    cases hfree with
    | inl hfree => simp [HookState.release, hfree]
    | inr howner => simp [HookState.release, (hs.owned g d hd h).mpr howner]
  obtain ⟨hheader, hsound, ⟨hstring, hstrdups⟩, hsame⟩ :=
    (hs.gauges g d hd).attach (hdetached.free h hnone) hattach
  have hcounted : m'.Counted := by
    intro e k hk
    rw [hstring] at hk
    exact hstrdups ▸ hdetached.counted e k hk
  have htaken := hdetached.take (Function.update_self ..) (d.detach_gaugeHeader s.panels) hnone
    hcounted hheader hsound hsame
  simpa only [Function.update_idem] using htaken

/-- A call that meets the condition leaves a sound state. -/
theorem Sound.step (hs : s.Sound layout m₀) {a : HookAction η} (hok : s.StringsOwn layout a)
    (hstep : s.step layout a = some t) : t.Sound layout m₀ := by
  cases a with
  | construct g =>
    simp only [HookState.step] at hstep
    split at hstep
    · next hg =>
      obtain rfl := Option.some.inj hstep
      exact hs.construct hg
    · cases hstep
  | attach g h hookElements hookMouse =>
    simp only [HookState.step] at hstep
    split at hstep
    · next hfree =>
      obtain ⟨d, hd, hstep⟩ := Option.bind_eq_some_iff.mp hstep
      obtain ⟨⟨d', m'⟩, hattach, rfl⟩ := Option.map_eq_some_iff.mp hstep
      exact hs.attach hd hfree (hok hfree d hd).1 hattach
    · cases hstep
  | detach g =>
    obtain ⟨d, hd, rfl⟩ := Option.map_eq_some_iff.mp hstep
    exact hs.detach hd (hok d hd)
  | destroy g =>
    obtain ⟨d, hd, rfl⟩ := Option.map_eq_some_iff.mp hstep
    exact hs.destroy hd (hok d hd)

/-- In a run from the start every call undoes exactly the hooks it should if and only if the strings
keep no header they should not, and every object finds an element of its type. A static object that
finds another type counts as one that does not, although its cast does no harm. -/
theorem hooksUndone_iff_stringsOwn (layout : η → HeaderLayout) (original : η → Callbacks)
    (string : η × ℕ → Option ℕ) (as : List (HookAction η)) :
    (hookMachine layout).Along (HooksUndone layout) (start original string) as ↔
      (hookMachine layout).Along (StringsOwn layout) (start original string) as :=
  Machine.along_iff_along (I := Sound layout (start original string).panels)
    (fun _ a hs => hs.hooksUndone_iff a) (fun _ _ _ hs hok hstep => hs.step hok hstep)
    (sound_start original string) as

/-- A header with one string and no mouse rectangles. -/
def clockLayout : HeaderLayout where
  elementsList := some (.node 0 [])
  elementType _ := some .string
  mouseRect := none
  distinct root hroot := by
    obtain rfl := Option.some.inj hroot
    decide

/-- The callbacks of the header. -/
def clockCallbacks : Callbacks where
  gaugeCallback := some (.simulator 0)
  mouseFunctions := []
  updateCb _ := some (.simulator 1)

/-- The header passes from one gauge to another one. -/
def clockRun : List (HookAction Unit) :=
  [.construct 0, .construct 1, .attach 0 () true true, .detach 0, .attach 1 () true true]

/-- When the first gauge is destroyed, the second one loses the callback of the string. -/
theorem clockRun_not_undone :
    ∃ s, (hookMachine fun _ => clockLayout).run
        (start (fun _ => clockCallbacks) fun _ => none) clockRun = some s ∧
      s.panels.updateCb ((), 0) = some (.element 1 0) ∧
      ∃ d, s.gauges 0 = some d ∧ d.gaugeHeader = none ∧
        (d.destroy (fun _ => clockLayout) s.panels).updateCb ((), 0) = some (.simulator 1) ∧
          ¬ s.HooksUndone (fun _ => clockLayout) (.destroy 0) := by
  obtain ⟨s, hs⟩ := Option.isSome_iff_exists.mp (by decide :
    ((hookMachine fun _ => clockLayout).run
      (start (fun _ => clockCallbacks) fun _ => none) clockRun).isSome = true)
  have hfacts : ((hookMachine fun _ => clockLayout).run
      (start (fun _ => clockCallbacks) fun _ => none) clockRun).map (fun s =>
        (s.panels.updateCb ((), 0), (s.gauges 0).map fun d =>
          (d.gaugeHeader, (d.destroy (fun _ => clockLayout) s.panels).updateCb ((), 0)))) =
      some (some (.element 1 0), some (none, some (.simulator 1))) := by
    decide
  rw [hs, Option.map_some, Option.some.injEq] at hfacts
  obtain ⟨hcallback, hgauge⟩ := Prod.mk.inj hfacts
  obtain ⟨d, hd, hpair⟩ := Option.map_eq_some_iff.mp hgauge
  obtain ⟨hheader, hlost⟩ := Prod.mk.inj hpair
  refine ⟨s, hs, hcallback, d, hd, hheader, hlost, fun hundone => ?_⟩
  have hkept := ((hundone d hd).same () (by simp [hheader])).updateCb 0
  rw [hlost, hcallback] at hkept
  cases hkept

end HookState

end Multicrew.Gauge
