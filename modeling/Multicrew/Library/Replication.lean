import Mathlib.Data.List.Basic
import Mathlib.Data.Option.Basic

/-!
# A register replicated on change

A writer compares each observation with what it published last and publishes only a difference; a
reader holds what arrived last. The writer's baseline and the reader's copy may also be rewritten
without a message. Equality of states is a partial equivalence, so that a state may differ from
itself. Everything the pair promises comes down to one comparison: the baseline against what the
reader will hold once the link has run dry.
-/

namespace Multicrew.Library

/-- The writer's last published state, the updates under way, oldest first, and the reader's
copy. -/
structure Replica (S : Type*) where
  baseline : S
  link : List S
  held : S

namespace Replica

variable {S : Type*} (same : S → S → Prop) [DecidableRel same] (r : Replica S)

/-- What the reader holds once every update under way has arrived. -/
def incoming : S := r.link.getLast?.getD r.held

/-- All updates under way arrive. -/
def drain : Replica S := { r with link := [], held := r.incoming }

/-- The writer publishes a state. -/
def publish (x : S) : Replica S := { r with baseline := x, link := r.link ++ [x] }

/-- The writer sees a state and publishes it if it differs from the last published one. -/
def observe (x : S) : Replica S := if same x r.baseline then r else r.publish x

/-- The oldest update under way arrives. -/
def deliver : Option (Replica S) :=
  match r.link with
  | [] => none
  | x :: rest => some { r with link := rest, held := x }

/-- The baseline is rewritten without a message. -/
def rebase (x : S) : Replica S := { r with baseline := x }

/-- The reader's copy is rewritten without a message. -/
def overrule (x : S) : Replica S := { r with held := x }

/-- The reader holds the baseline, or will. -/
def Synced : Prop := same r.incoming r.baseline

/-- Once the link has run dry, one observation more brings the reader to the observed state. -/
def Settles : Prop := ∀ x, same x x → same ((r.drain.observe same x).drain).held x

/-- What was published last is what comes in. -/
@[simp] theorem incoming_publish (x : S) : (r.publish x).incoming = x := by
  simp [incoming, publish]

/-- An arrival does not change what the reader will hold in the end. -/
theorem incoming_deliver {r r' : Replica S} (h : r.deliver = some r') :
    r'.incoming = r.incoming := by
  unfold deliver at h
  cases hlink : r.link with
  | nil => simp [hlink] at h
  | cons x rest =>
    simp only [hlink, Option.some.injEq] at h
    subst h
    cases rest with
    | nil => simp [incoming, hlink]
    | cons y rest => simp [incoming, hlink, List.getLast?_eq_some_getLast]

/-- An arrival leaves the baseline. -/
theorem baseline_deliver {r r' : Replica S} (h : r.deliver = some r') :
    r'.baseline = r.baseline := by
  unfold deliver at h
  cases hlink : r.link with
  | nil => simp [hlink] at h
  | cons x rest =>
    simp only [hlink, Option.some.injEq] at h
    subst h
    rfl

/-- With updates under way the reader's own copy does not matter. -/
theorem incoming_overrule (x : S) :
    (r.overrule x).incoming = if r.link = [] then x else r.incoming := by
  unfold incoming overrule
  cases hlast : r.link.getLast? with
  | none => simp [List.getLast?_eq_none_iff.mp hlast]
  | some y =>
    have hne : r.link ≠ [] := by
      intro hnil
      simp [hnil] at hlast
    simp [hne]

section Partial

variable {same} (hsymm : ∀ x y, same x y → same y x)
  (htrans : ∀ x y z, same x y → same y z → same x z)

include hsymm htrans

omit [DecidableRel same] in
/-- Related states are related to themselves. -/
theorem refl_of_same {x y : S} (h : same x y) : same x x :=
  htrans x y x h (hsymm x y h)

/-- The register settles on every observation exactly when it is synced, or its baseline is a state
that no observation equals. -/
theorem settles_iff :
    r.Settles same ↔ (same r.baseline r.baseline → r.Synced same) := by
  constructor
  · intro hsettles hbase
    have hobserved := hsettles r.baseline hbase
    have hkeep : r.drain.observe same r.baseline = r.drain := if_pos hbase
    rw [hkeep] at hobserved
    exact hobserved
  · intro hsynced x hx
    by_cases hsame : same x r.baseline
    · have hkeep : r.drain.observe same x = r.drain := if_pos hsame
      have hbase : same r.baseline r.baseline := refl_of_same hsymm htrans (hsymm _ _ hsame)
      rw [hkeep]
      exact htrans _ _ _ (hsynced hbase) (hsymm _ _ hsame)
    · have hpublish : r.drain.observe same x = r.drain.publish x := if_neg hsame
      rw [hpublish]
      show same (r.drain.publish x).incoming x
      rw [incoming_publish]
      exact hx

end Partial

end Replica

/-- A replicated register whose two ends come and go. Nothing is promised before the writer has
answered the reader's first request. -/
structure Mirror (S : Type*) where
  replica : Replica S
  writing : Bool
  reading : Bool
  answered : Bool

/-- What the two ends and the link do; an end that appears rewrites its own side. -/
inductive MirrorAction (S : Type*)
  | observe (x : S)
  | answer
  | deliver
  | writer (x : S)
  | writerLeaves
  | reader (x : S)
  | readerLeaves
  | skip

namespace Mirror

variable {S : Type*} (same : S → S → Prop) [DecidableRel same] (m : Mirror S)

/-- One step; observations need a writer, arrivals an update under way. -/
def step : MirrorAction S → Option (Mirror S)
  | .observe x => if m.writing then some { m with replica := m.replica.observe same x } else none
  | .answer => some { m with replica := m.replica.publish m.replica.baseline, answered := true }
  | .deliver => m.replica.deliver.map fun r => { m with replica := r }
  | .writer x => some { m with replica := m.replica.rebase x, writing := true }
  | .writerLeaves => some { m with writing := false }
  | .reader x => some { m with replica := m.replica.overrule x, reading := true }
  | .readerLeaves => some { m with reading := false }
  | .skip => some m

/-- With both ends there and a request answered, the register is synced, or its baseline is a state
that no observation equals. -/
def Sound : Prop :=
  m.writing → m.reading → m.answered →
    same m.replica.baseline m.replica.baseline → m.replica.Synced same

/-- An end that appears brings the state the other side has. -/
def Fits : MirrorAction S → Prop
  | .writer x => m.reading → m.answered → same x x → same m.replica.incoming x
  | .reader x =>
    m.writing → m.answered → same m.replica.baseline m.replica.baseline →
      same (if m.replica.link = [] then x else m.replica.incoming) m.replica.baseline
  | _ => True

variable {same m}

/-- A step keeps a sound register sound exactly when an end that appears fits. -/
theorem sound_step_iff (hsymm : ∀ x y, same x y → same y x)
    (htrans : ∀ x y z, same x y → same y z → same x z) {a : MirrorAction S} {t : Mirror S}
    (hsound : m.Sound same) (h : m.step same a = some t) : t.Sound same ↔ m.Fits same a := by
  cases a with
  | observe x =>
    simp only [step, Option.ite_none_right_eq_some, Option.some.injEq] at h
    obtain ⟨-, rfl⟩ := h
    simp only [Fits, iff_true]
    intro hwriting hreading hanswered hbase
    by_cases hsame : same x m.replica.baseline
    · have hkeep : m.replica.observe same x = m.replica := if_pos hsame
      have hself : same m.replica.baseline m.replica.baseline :=
        Replica.refl_of_same hsymm htrans (hsymm _ _ hsame)
      simp only [hkeep]
      exact hsound hwriting hreading hanswered hself
    · have hpublish : m.replica.observe same x = m.replica.publish x := if_neg hsame
      simp only [hpublish] at hbase ⊢
      show same (m.replica.publish x).incoming x
      rw [Replica.incoming_publish]
      exact hbase
  | answer =>
    simp only [step, Option.some.injEq] at h
    subst h
    simp only [Fits, iff_true]
    intro _ _ _ hbase
    show same (m.replica.publish m.replica.baseline).incoming m.replica.baseline
    rw [Replica.incoming_publish]
    exact hbase
  | deliver =>
    obtain ⟨r, hr, rfl⟩ := Option.map_eq_some_iff.mp h
    simp only [Fits, iff_true]
    intro hwriting hreading hanswered hbase
    show same r.incoming r.baseline
    simp only [m.replica.baseline_deliver hr] at hbase ⊢
    rw [m.replica.incoming_deliver hr]
    exact hsound hwriting hreading hanswered hbase
  | writer x =>
    simp only [step, Option.some.injEq] at h
    subst h
    simp only [Sound, Fits, true_imp_iff]
    rfl
  | reader x =>
    simp only [step, Option.some.injEq] at h
    subst h
    simp only [Sound, Fits, true_imp_iff, Replica.Synced, Replica.incoming_overrule]
    rfl
  | writerLeaves =>
    simp only [step, Option.some.injEq] at h
    subst h
    simp [Sound, Fits]
  | readerLeaves =>
    simp only [step, Option.some.injEq] at h
    subst h
    simp [Sound, Fits]
  | skip =>
    simp only [step, Option.some.injEq] at h
    subst h
    simpa only [Fits, iff_true] using hsound

end Mirror

end Multicrew.Library
