import Multicrew.Gauge.Elements
import Multicrew.Library.Machine
import Multicrew.Library.Replication

/-!
# An icon on the host and its copy on a client

The two elements share an id, so their channels are connected: what the host's element sends
arrives at the client's in order. Both are constructed without a header; panels open and close on
either side at any time. What either side does is a step of a replicated register whose state is
the value and the masked flags.
-/

namespace Multicrew.Gauge

open Multicrew.Library

/-- A value and flags within a mask. -/
structure Shown (mask : FLAGS) where
  value : FLOAT64
  flags : FLAGS
  masked : flags &&& mask = flags

/-- Bits within a mask come from the right of a merge. -/
theorem merge_and_mask (flags stored mask : FLAGS) :
    ((flags &&& ~~~mask) ||| stored) &&& mask = stored &&& mask := by
  ext i hi
  simp only [BitVec.getElem_and, BitVec.getElem_or, BitVec.getElem_not]
  cases mask[i] <;> simp

/-- Bits outside a mask come from the left of a merge if the right lies within the mask. -/
theorem merge_and_not_mask {stored mask : FLAGS} (hmasked : stored &&& mask = stored)
    (flags : FLAGS) : ((flags &&& ~~~mask) ||| stored) &&& ~~~mask = flags &&& ~~~mask := by
  rw [← hmasked]
  ext i hi
  simp only [BitVec.getElem_and, BitVec.getElem_or, BitVec.getElem_not]
  cases mask[i] <;> simp

/-- What a client's callback may do to the flags of its header: nothing outside the mask, apart
from the simulator's own callback and `SET_OFF_SCREEN`. -/
def Frames (mask : FLAGS) (orig : FLAGS → FLAGS) (before after : FLAGS) : Prop :=
  ∃ applied, applied &&& ~~~mask = before &&& ~~~mask ∧
    (after = orig applied ∨ after = setOffScreen (orig applied))

namespace Shown

variable {mask : FLAGS}

/-- A value with the flags cut to the mask. -/
def of (mask : FLAGS) (value : FLOAT64) (flags : FLAGS) : Shown mask :=
  ⟨value, flags &&& mask, by rw [BitVec.and_assoc, BitVec.and_self]⟩

/-- The comparison of the host's callback. -/
def same (x y : Shown mask) : Prop := x.value.eq y.value ∧ x.flags = y.flags

instance : DecidableRel (@same mask) := fun _ _ => inferInstanceAs (Decidable (_ ∧ _))

/-- Showing the same goes both ways. -/
theorem same_symm (x y : Shown mask) (h : same x y) : same y x :=
  ⟨FLOAT64.eq_symm h.1, h.2.symm⟩

/-- What shows the same as a second shows the same as a third. -/
theorem same_trans (x y z : Shown mask) (hxy : same x y) (hyz : same y z) : same x z :=
  ⟨FLOAT64.eq_trans hxy.1 hyz.1, hxy.2.trans hyz.2⟩

/-- Only a NaN differs from itself. -/
theorem same_self_iff (x : Shown mask) : same x x ↔ x.value.isNaN = false := by
  simp [same, FLOAT64.eq_self]

/-- Every state within the mask is the cut of itself. -/
theorem of_self (x : Shown mask) : of mask x.value x.flags = x := by
  cases x with
  | mk value flags masked => simp [of, masked]

/-- If an end that appears does not touch the value, then after an answer the reader's value will be
the writer's, unless that is a NaN. -/
theorem tracks_step {m t : Mirror (Shown mask)} {a : MirrorAction (Shown mask)}
    (hwriter : ∀ x, a = .writer x → x.value = m.replica.baseline.value)
    (hreader : ∀ x, a = .reader x → x.value = m.replica.held.value)
    (h : m.step same a = some t)
    (htracks : m.answered → m.replica.baseline.value.isNaN = false →
      m.replica.incoming.value.eq m.replica.baseline.value) :
    t.answered → t.replica.baseline.value.isNaN = false →
      t.replica.incoming.value.eq t.replica.baseline.value := by
  cases a with
  | observe x =>
    simp only [Mirror.step, Option.ite_none_right_eq_some, Option.some.injEq] at h
    obtain ⟨-, rfl⟩ := h
    unfold Replica.observe
    split
    · exact htracks
    · intro _ hnan
      rw [Replica.incoming_publish]
      simpa [Replica.publish, FLOAT64.eq_self] using hnan
  | answer =>
    simp only [Mirror.step, Option.some.injEq] at h
    subst h
    intro _ hnan
    rw [Replica.incoming_publish]
    simpa [Replica.publish, FLOAT64.eq_self] using hnan
  | deliver =>
    obtain ⟨r, hr, rfl⟩ := Option.map_eq_some_iff.mp h
    simp only [m.replica.baseline_deliver hr, m.replica.incoming_deliver hr]
    exact htracks
  | writer x =>
    simp only [Mirror.step, Option.some.injEq] at h
    subst h
    show m.answered → x.value.isNaN = false → m.replica.incoming.value.eq x.value
    rw [hwriter x rfl]
    exact htracks
  | reader x =>
    simp only [Mirror.step, Option.some.injEq] at h
    subst h
    have hvalue : (m.replica.overrule x).incoming.value = m.replica.incoming.value := by
      rw [Replica.incoming_overrule]
      split
      · rename_i hlink
        simp [Replica.incoming, hlink, hreader x rfl]
      · rfl
    show m.answered → m.replica.baseline.value.isNaN = false →
      (m.replica.overrule x).incoming.value.eq m.replica.baseline.value
    rw [hvalue]
    exact htracks
  | writerLeaves | readerLeaves | skip =>
    simp only [Mirror.step, Option.some.injEq] at h
    subst h
    exact htracks

end Shown

/-- Two elements with one id, the host's and a client's, the packets between them, and whether the
host has answered a request for the full state. -/
structure IconPair where
  host : IconElement
  client : IconElement
  link : List IconStruct := []
  answered : Bool := false
  deriving DecidableEq, Repr

/-- What happens to an icon and its copy. A callback comes with what the simulator has written into
the header and with what its own callback does. -/
inductive IconAction
  | hostAttach (elementHeader : IconHeader)
  | hostDetach
  | hostCallback (imageFlags : FLAGS) (sourceVar : Option FLOAT64) (orig : OrigCallback)
  | sendFullState
  | deliver
  | clientAttach (elementHeader : IconHeader)
  | clientDetach
  | clientCallback (imageFlags : FLAGS) (sourceVar : Option FLOAT64) (orig : OrigCallback)

/-- The header as the simulator hands it to the update callback. -/
def IconHeader.drawn (header : IconHeader) (imageFlags : FLAGS) (sourceVar : Option FLOAT64) :
    IconHeader :=
  { header with imageFlags := imageFlags, sourceVar := sourceVar }

namespace IconPair

variable (s : IconPair)

/-- The host's callback runs on its header and sends what it sends. -/
def hostCallback (pelement : IconHeader) (orig : OrigCallback) : IconPair :=
  let update := s.host.callback .host pelement orig
  { s with host := update.element, link := s.link ++ update.sent }

/-- All packets under way arrive. -/
def drain : IconPair :=
  { s with client := s.link.foldl (fun d packet => d.receive .client packet) s.client, link := [] }

/-- One step of the host, the network or the client. -/
def step : IconAction → Option IconPair
  | .hostAttach header => some { s with host := s.host.attach header }
  | .hostDetach => some { s with host := s.host.detach.1 }
  | .hostCallback imageFlags sourceVar orig =>
    s.host.iconHeader.map fun header => s.hostCallback (header.drawn imageFlags sourceVar) orig
  | .sendFullState =>
    some { s with link := s.link ++ s.host.sendFullState .host, answered := true }
  | .deliver =>
    match s.link with
    | [] => none
    | packet :: rest => some { s with client := s.client.receive .client packet, link := rest }
  | .clientAttach header => some { s with client := s.client.attach header }
  | .clientDetach => some { s with client := s.client.detach.1 }
  | .clientCallback imageFlags sourceVar orig =>
    s.client.iconHeader.map fun header =>
      { s with
        client := (s.client.callback .client (header.drawn imageFlags sourceVar) orig).element }

/-- Both elements start as constructed. -/
def machine : Machine IconPair IconAction where
  initial s := ∃ host client, s = ⟨{ oldFlags := host }, { oldFlags := client }, [], false⟩
  step s := s.step

/-- With both elements attached after an answer: all packets arrive, the host's callback runs and
reads something other than a NaN, what it sends arrives, and the client's callback runs. Then the
client shows the value and the masked flags the host read. -/
def Settles : Prop :=
  ∀ hostHeader clientHeader, s.host.iconHeader = some hostHeader →
    s.client.iconHeader = some clientHeader → s.answered →
    ∀ imageFlags sourceVar orig image_flags' source_var' orig',
      let pelement := hostHeader.drawn imageFlags sourceVar
      let read := s.host.read pelement orig
      let client := (s.drain.hostCallback pelement orig).drain.client
      let update := client.callback .client (clientHeader.drawn image_flags' source_var') orig'
      read.1.isNaN = false →
        update.ret.eq read.1 ∧
          client.apply image_flags' &&& ICON_FLAGS_MASK = read.2 &&& ICON_FLAGS_MASK

/-- In masked flags, an element that is attached finds the state the other side has; nothing is
asked while the other side is detached or while the host last read a NaN. -/
def AttachFits : IconAction → Prop
  | .hostAttach header =>
    s.client.iconHeader.isSome → s.answered → s.host.oldValue.isNaN = false →
      s.drain.client.oldFlags &&& ICON_FLAGS_MASK = header.imageFlags &&& ICON_FLAGS_MASK
  | .clientAttach header =>
    s.host.iconHeader.isSome → s.answered → s.host.oldValue.isNaN = false →
      (if s.link = [] then header.imageFlags else s.drain.client.oldFlags) &&& ICON_FLAGS_MASK =
        s.host.oldFlags &&& ICON_FLAGS_MASK
  | _ => True

instance (a : IconAction) : Decidable (s.AttachFits a) :=
  match a with
  | .hostAttach _ => inferInstanceAs (Decidable (_ → _ → _ → _))
  | .clientAttach _ => inferInstanceAs (Decidable (_ → _ → _ → _))
  | .hostDetach | .hostCallback .. | .sendFullState | .deliver | .clientDetach
  | .clientCallback .. => .isTrue trivial

/-! ### The pair as a replicated register -/

/-- The state an element has stored. -/
def shown (d : IconElement) : Shown ICON_FLAGS_MASK := .of _ d.oldValue d.oldFlags

/-- The register the pair implements. -/
def mirror : Mirror (Shown ICON_FLAGS_MASK) where
  replica := ⟨shown s.host, s.link.map fun packet => .of _ packet.value packet.flags, shown s.client⟩
  writing := s.host.iconHeader.isSome
  reading := s.client.iconHeader.isSome
  answered := s.answered

/-- What a step does to the register. -/
def mirrorAction : IconAction → MirrorAction (Shown ICON_FLAGS_MASK)
  | .hostAttach header => .writer (.of _ s.host.oldValue header.imageFlags)
  | .hostDetach => .writerLeaves
  | .hostCallback imageFlags sourceVar orig =>
    match s.host.iconHeader with
    | none => .skip
    | some header =>
      let read := s.host.read (header.drawn imageFlags sourceVar) orig
      .observe (.of _ read.1 read.2)
  | .sendFullState => .answer
  | .deliver => .deliver
  | .clientAttach header => .reader (.of _ s.client.oldValue header.imageFlags)
  | .clientDetach => .readerLeaves
  | .clientCallback .. => .skip

/-- What both elements store once attached lies within the mask; the flags a client stores always
do once a packet has arrived. -/
structure Invariant : Prop where
  host : s.host.iconHeader.isSome → s.host.oldFlags &&& ICON_FLAGS_MASK = s.host.oldFlags
  client : s.client.iconHeader.isSome → s.client.oldFlags &&& ICON_FLAGS_MASK = s.client.oldFlags
  value : s.answered → s.host.oldValue.isNaN = false →
    s.mirror.replica.incoming.value.eq s.host.oldValue

variable {s}

/-- A delivery takes the packet that is first on the link. -/
theorem step_deliver {t : IconPair} (h : s.step .deliver = some t) :
    ∃ packet rest, s.link = packet :: rest ∧
      t = { s with client := s.client.receive .client packet, link := rest } := by
  cases hlink : s.link with
  | nil => simp [step, hlink] at h
  | cons packet rest =>
    simp only [step, hlink, Option.some.injEq] at h
    exact ⟨packet, rest, rfl, h.symm⟩

/-- Receiving a list of packets leaves the last one, if there is one. -/
theorem shown_foldl_receive (link : List IconStruct) (d : IconElement) :
    shown (link.foldl (fun d packet => d.receive .client packet) d) =
      ((link.map fun packet => Shown.of ICON_FLAGS_MASK packet.value packet.flags).getLast?).getD
        (shown d) := by
  induction link generalizing d with
  | nil => rfl
  | cons packet rest ih =>
    have hreceive : shown (d.receive .client packet) = .of _ packet.value packet.flags := by
      simp [shown, Shown.of, IconElement.receive, BitVec.and_assoc]
    rw [List.foldl_cons, ih, hreceive, List.map_cons, List.getLast?_cons]
    rfl

/-- Draining the pair drains the register. -/
theorem mirror_drain : s.drain.mirror.replica = s.mirror.replica.drain := by
  unfold mirror Replica.drain Replica.incoming
  simp only [drain, shown_foldl_receive, List.map_nil]

/-- The host's comparison is that of the register. -/
theorem differs_iff {d : IconElement} (hmasked : d.oldFlags &&& ICON_FLAGS_MASK = d.oldFlags)
    (value : FLOAT64) (flags : FLAGS) :
    (!value.eq d.oldValue || flags &&& ICON_FLAGS_MASK != d.oldFlags) = true ↔
      ¬ Shown.same (.of _ value flags) (shown d) := by
  simp only [Shown.same, shown, Shown.of, hmasked, Bool.or_eq_true, Bool.not_eq_true',
    bne_iff_ne, ne_eq, not_and_or, Bool.not_eq_true]

/-- The host's callback is one observation of the register. -/
theorem mirror_hostCallback
    (hmasked : s.host.oldFlags &&& ICON_FLAGS_MASK = s.host.oldFlags) (pelement : IconHeader)
    (orig : OrigCallback) :
    (s.hostCallback pelement orig).mirror =
      { s.mirror with
        replica := s.mirror.replica.observe Shown.same
          (.of _ (s.host.read pelement orig).1 (s.host.read pelement orig).2)
        writing := true } := by
  unfold hostCallback IconElement.callback
  generalize s.host.read pelement orig = read
  obtain ⟨value, flags⟩ := read
  by_cases hsame : Shown.same (.of _ value flags) (shown s.host)
  · have hkeep : ¬ (!value.eq s.host.oldValue ||
        flags &&& ICON_FLAGS_MASK != s.host.oldFlags) = true :=
      fun h => (differs_iff hmasked value flags).mp h hsame
    have hobserve : s.mirror.replica.observe Shown.same (.of _ value flags) = s.mirror.replica :=
      if_pos hsame
    simp only [if_neg hkeep, hobserve]
    simp [mirror, shown]
  · have hdiffers := (differs_iff hmasked value flags).mpr hsame
    have hobserve : s.mirror.replica.observe Shown.same (.of _ value flags) =
        s.mirror.replica.publish (.of _ value flags) := if_neg hsame
    simp only [if_pos hdiffers, hobserve]
    simp [mirror, shown, Shown.of, Replica.publish, IconElement.sendState, BitVec.and_assoc]

/-- Every step of the pair is a step of the register. -/
theorem mirror_step (hinv : s.Invariant) {a : IconAction} {t : IconPair} (h : s.step a = some t) :
    s.mirror.step Shown.same (s.mirrorAction a) = some t.mirror := by
  cases a with
  | hostAttach header =>
    simp only [step, Option.some.injEq] at h
    subst h
    simp [mirror, mirrorAction, Mirror.step, Replica.rebase, shown, Shown.of, IconElement.attach,
      BitVec.and_assoc]
  | hostDetach =>
    simp only [step, Option.some.injEq] at h
    subst h
    rfl
  | hostCallback imageFlags sourceVar orig =>
    obtain ⟨header, hheader, rfl⟩ := Option.map_eq_some_iff.mp h
    have hattached : s.host.iconHeader.isSome := by simp [hheader]
    rw [mirror_hostCallback (hinv.host hattached)]
    simp [mirrorAction, hheader, Mirror.step, mirror]
  | sendFullState =>
    simp only [step, Option.some.injEq] at h
    subst h
    simp [mirror, mirrorAction, Mirror.step, Replica.publish, shown, IconElement.sendFullState,
      IconElement.sendState]
  | deliver =>
    obtain ⟨packet, rest, hlink, rfl⟩ := step_deliver h
    simp [mirror, mirrorAction, Mirror.step, Replica.deliver, hlink, shown, Shown.of,
      IconElement.receive, BitVec.and_assoc]
  | clientAttach header =>
    simp only [step, Option.some.injEq] at h
    subst h
    simp [mirror, mirrorAction, Mirror.step, Replica.overrule, shown, Shown.of, IconElement.attach,
      BitVec.and_assoc]
  | clientDetach =>
    simp only [step, Option.some.injEq] at h
    subst h
    rfl
  | clientCallback imageFlags sourceVar orig =>
    obtain ⟨header, hheader, rfl⟩ := Option.map_eq_some_iff.mp h
    simp only [mirrorAction, Mirror.step, Option.some.injEq]
    unfold IconElement.callback
    cases hchanged : s.client.changed <;> simp [mirror, shown, hheader]

/-- Attaching an element does not touch its value. -/
theorem mirrorAction_keepsValue (a : IconAction) :
    (∀ x, s.mirrorAction a = .writer x → x.value = s.mirror.replica.baseline.value) ∧
      ∀ x, s.mirrorAction a = .reader x → x.value = s.mirror.replica.held.value := by
  cases a with
  | hostAttach header => simp [mirrorAction, mirror, shown, Shown.of]
  | clientAttach header => simp [mirrorAction, mirror, shown, Shown.of]
  | hostCallback imageFlags sourceVar orig =>
    cases hheader : s.host.iconHeader <;> simp [mirrorAction, hheader]
  | _ => simp [mirrorAction]

/-- The host's callback stores masked flags. -/
theorem masked_hostCallback (hmasked : s.host.oldFlags &&& ICON_FLAGS_MASK = s.host.oldFlags)
    (pelement : IconHeader) (orig : OrigCallback) :
    let d := (s.host.callback .host pelement orig).element
    d.oldFlags &&& ICON_FLAGS_MASK = d.oldFlags := by
  simp only [IconElement.callback]
  split
  · simp [BitVec.and_assoc]
  · exact hmasked

/-- A client's callback keeps what the element has stored. -/
theorem clientCallback_stored (d : IconElement) (pelement : IconHeader) (orig : OrigCallback) :
    (d.callback .client pelement orig).element.oldFlags = d.oldFlags ∧
      (d.callback .client pelement orig).element.oldValue = d.oldValue := by
  unfold IconElement.callback
  cases hchanged : d.changed <;> simp

/-- Elements that were never attached satisfy the invariant. -/
theorem invariant_initial (h : machine.initial s) : s.Invariant := by
  obtain ⟨host, client, rfl⟩ := h
  exact ⟨by simp, by simp, by simp⟩

/-- Every step keeps the invariant. -/
theorem invariant_step (hinv : s.Invariant) {a : IconAction} {t : IconPair}
    (h : s.step a = some t) : t.Invariant := by
  have hvalue := Shown.tracks_step (s.mirrorAction_keepsValue a).1 (s.mirrorAction_keepsValue a).2
    (mirror_step hinv h) hinv.value
  cases a with
  | hostAttach header =>
    simp only [step, Option.some.injEq] at h
    subst h
    exact ⟨by simp [IconElement.attach, BitVec.and_assoc], hinv.client, hvalue⟩
  | hostDetach =>
    simp only [step, Option.some.injEq] at h
    subst h
    exact ⟨by simp [IconElement.detach], hinv.client, hvalue⟩
  | hostCallback imageFlags sourceVar orig =>
    obtain ⟨header, hheader, rfl⟩ := Option.map_eq_some_iff.mp h
    have hattached : s.host.iconHeader.isSome := by simp [hheader]
    exact ⟨fun _ => masked_hostCallback (hinv.host hattached) _ _, hinv.client, hvalue⟩
  | sendFullState =>
    simp only [step, Option.some.injEq] at h
    subst h
    exact ⟨hinv.host, hinv.client, hvalue⟩
  | deliver =>
    obtain ⟨packet, rest, -, rfl⟩ := step_deliver h
    exact ⟨hinv.host, by simp [IconElement.receive, BitVec.and_assoc], hvalue⟩
  | clientAttach header =>
    simp only [step, Option.some.injEq] at h
    subst h
    exact ⟨hinv.host, by simp [IconElement.attach, BitVec.and_assoc], hvalue⟩
  | clientDetach =>
    simp only [step, Option.some.injEq] at h
    subst h
    exact ⟨hinv.host, by simp [IconElement.detach], hvalue⟩
  | clientCallback imageFlags sourceVar orig =>
    obtain ⟨header, hheader, rfl⟩ := Option.map_eq_some_iff.mp h
    have hattached : s.client.iconHeader.isSome := by simp [hheader]
    refine ⟨hinv.host, fun _ => ?_, hvalue⟩
    rw [(clientCallback_stored _ _ _).1]
    exact hinv.client hattached

/-- The invariant holds in every reachable state. -/
theorem invariant_reachable (hs : machine.Reachable s) : s.Invariant :=
  hs.invariant (fun _ h => invariant_initial h) fun _ _ _ _ hinv h => invariant_step hinv h

/-! ### What the pair promises, in terms of the register -/

/-- A client's callback returns the value the element has stored. -/
theorem clientCallback_ret (d : IconElement) (pelement : IconHeader) (orig : OrigCallback) :
    (d.callback .client pelement orig).ret = d.oldValue := by
  unfold IconElement.callback
  cases hchanged : d.changed <;> simp

/-- The simulator can report any state, whether or not it has a callback of its own. -/
theorem read_reported (d : IconElement) (header : IconHeader) (x : FLOAT64) (flags : FLAGS) :
    d.read (header.drawn flags (some x)) (fun flags => (x, flags)) = (x, flags) := by
  unfold IconElement.read IconHeader.drawn
  cases d.origCallback <;> rfl

/-- What the client has stored after all packets, the host's callback and its packets. -/
theorem shown_settled (hmasked : s.host.oldFlags &&& ICON_FLAGS_MASK = s.host.oldFlags)
    (pelement : IconHeader) (orig : OrigCallback) :
    shown (s.drain.hostCallback pelement orig).drain.client =
      ((s.mirror.replica.drain.observe Shown.same
        (.of _ (s.host.read pelement orig).1 (s.host.read pelement orig).2)).drain).held := by
  have hdrain := mirror_drain (s := s.drain.hostCallback pelement orig)
  have hcallback := mirror_hostCallback (s := s.drain) hmasked pelement orig
  calc shown (s.drain.hostCallback pelement orig).drain.client
      = ((s.drain.hostCallback pelement orig).mirror.replica.drain).held := by rw [← hdrain]; rfl
    _ = _ := by rw [hcallback, mirror_drain]; rfl

/-- What the client shows is the comparison of stored states. -/
theorem shows_iff (d : IconElement) (pelement : IconHeader) (orig : OrigCallback)
    (imageFlags : FLAGS) (value : FLOAT64) (flags : FLAGS) :
    ((d.callback .client pelement orig).ret.eq value ∧
      d.apply imageFlags &&& ICON_FLAGS_MASK = flags &&& ICON_FLAGS_MASK) ↔
      Shown.same (shown d) (.of _ value flags) := by
  rw [clientCallback_ret, IconElement.apply, merge_and_mask]
  rfl

/-- The pair settles exactly when its register is sound. -/
theorem settles_iff_sound (hinv : s.Invariant) : s.Settles ↔ s.mirror.Sound Shown.same := by
  constructor
  · intro hsettles hwriting hreading hanswered
    obtain ⟨hostHeader, hhost⟩ := Option.isSome_iff_exists.mp hwriting
    obtain ⟨clientHeader, hclient⟩ := Option.isSome_iff_exists.mp hreading
    apply (Replica.settles_iff _ Shown.same_symm Shown.same_trans).mp
    intro x hx
    have hshown := hsettles hostHeader clientHeader hhost hclient hanswered x.flags (some x.value)
      (fun flags => (x.value, flags)) 0 none (fun flags => (.zero, flags))
    simp only [read_reported, shows_iff, shown_settled (hinv.host hwriting), Shown.of_self]
      at hshown
    exact hshown ((Shown.same_self_iff x).mp hx)
  · intro hsound hostHeader clientHeader hhost hclient hanswered imageFlags sourceVar orig
      image_flags' source_var' orig' pelement read client update hnan
    have hwriting : s.host.iconHeader.isSome := by simp [hhost]
    have hreading : s.client.iconHeader.isSome := by simp [hclient]
    have hall := (Replica.settles_iff s.mirror.replica Shown.same_symm Shown.same_trans).mpr
      (hsound hwriting hreading hanswered)
    rw [shows_iff, shown_settled (hinv.host hwriting)]
    exact hall _ ((Shown.same_self_iff _).mpr hnan)

/-- What the client will have stored. -/
theorem incoming_eq : s.mirror.replica.incoming = shown s.drain.client := by
  have hdrain := mirror_drain (s := s)
  exact (congrArg Replica.held hdrain).symm

/-- An attached element fits exactly when the register's new end does. -/
theorem attachFits_iff_fits (hinv : s.Invariant) (a : IconAction) :
    s.AttachFits a ↔ s.mirror.Fits Shown.same (s.mirrorAction a) := by
  cases a with
  | hostAttach header =>
    simp only [AttachFits, mirrorAction, Mirror.Fits]
    refine forall_congr' fun _ => forall_congr' fun hanswered => ?_
    rw [Shown.same_self_iff]
    refine forall_congr' fun hnan => ?_
    have hvalue := hinv.value hanswered hnan
    rw [incoming_eq] at hvalue ⊢
    simp only [Shown.same, shown, Shown.of] at hvalue ⊢
    simp only [hvalue, true_and]
  | clientAttach header =>
    simp only [AttachFits, mirrorAction, Mirror.Fits]
    refine forall_congr' fun _ => forall_congr' fun hanswered => ?_
    rw [Shown.same_self_iff]
    refine forall_congr' fun hnan => ?_
    have hvalue := hinv.value hanswered hnan
    by_cases hlink : s.link = []
    · simp only [mirror, hlink, Replica.incoming, List.map_nil, List.getLast?_nil,
        Option.getD_none, shown, Shown.of] at hvalue
      simp [mirror, hlink, Shown.same, shown, Shown.of, hvalue]
    · have hlink' : s.mirror.replica.link ≠ [] := by simpa [mirror] using hlink
      rw [if_neg hlink, if_neg hlink', incoming_eq]
      rw [incoming_eq] at hvalue
      simp only [Shown.same, mirror, shown, Shown.of] at hvalue ⊢
      simp only [hvalue, true_and]
  | hostCallback imageFlags sourceVar orig =>
    cases hheader : s.host.iconHeader <;> simp [AttachFits, mirrorAction, hheader, Mirror.Fits]
  | _ => simp [AttachFits, mirrorAction, Mirror.Fits]

/-- A reachable step from a state that settles leads to one exactly when the attach fits. -/
theorem settles_step_iff {a : IconAction} {t : IconPair} (hs : machine.Reachable s)
    (hsettles : s.Settles) (h : machine.step s a = some t) : t.Settles ↔ s.AttachFits a := by
  have hinv := invariant_reachable hs
  have hinv' := invariant_step hinv h
  have hsound := (settles_iff_sound hinv).mp hsettles
  rw [settles_iff_sound hinv', attachFits_iff_fits hinv]
  exact Mirror.sound_step_iff Shown.same_symm Shown.same_trans hsound (mirror_step hinv h)

/-- Without an answer yet nothing is promised. -/
theorem settles_initial (h : machine.initial s) : s.Settles := by
  obtain ⟨host, client, rfl⟩ := h
  intro hostHeader clientHeader hhost
  simp at hhost

/-- In a run every state settles exactly when every attach fits. -/
theorem settles_throughout_iff {t : IconPair} {as : List IconAction} (hinit : machine.initial s)
    (h : machine.run s as = some t) :
    machine.Throughout Settles s as ↔ machine.Along AttachFits s as :=
  Machine.throughout_iff_along (fun _ _ _ hr hsettles hstep => settles_step_iff hr hsettles hstep)
    (.initial hinit) (settles_initial hinit) h

/-! ### The client's header -/

/-- What a step does to the flags of the client's header: an attach takes them as they are, a
callback changes nothing outside the mask, and nothing else touches them. -/
def FramesHeader : IconAction → IconPair → Prop
  | .clientAttach header, t => t.client.iconHeader.map IconHeader.imageFlags = header.imageFlags
  | .clientDetach, _ =>
    s.client.detach.2.map IconHeader.imageFlags = s.client.iconHeader.map IconHeader.imageFlags
  | .clientCallback imageFlags _ orig, t =>
    ∃ after, t.client.iconHeader.map IconHeader.imageFlags = some after ∧
      Frames ICON_FLAGS_MASK (if s.client.origCallback.isSome then fun flags => (orig flags).2 else id)
        imageFlags after
  | _, t => t.client.iconHeader = s.client.iconHeader

/-- Every step of a reachable state respects the client's header. -/
theorem framesHeader_of_step (hs : machine.Reachable s) {a : IconAction} {t : IconPair}
    (h : machine.step s a = some t) : s.FramesHeader a t := by
  have hinv := invariant_reachable hs
  replace h : s.step a = some t := h
  cases a with
  | clientAttach header =>
    simp only [step, Option.some.injEq] at h
    subst h
    rfl
  | clientDetach =>
    simp only [FramesHeader, IconElement.detach, Option.map_map]
    rfl
  | clientCallback imageFlags sourceVar orig =>
    obtain ⟨header, hheader, rfl⟩ := Option.map_eq_some_iff.mp h
    have hmasked := hinv.client (by simp [hheader])
    have houtside := merge_and_not_mask hmasked imageFlags
    simp only [FramesHeader, Frames, IconElement.callback]
    cases s.client.changed
    · refine ⟨_, rfl, _, houtside, .inl ?_⟩
      cases s.client.origCallback <;> rfl
    · refine ⟨_, rfl, _, houtside, .inr ?_⟩
      cases s.client.origCallback <;> rfl
  | deliver =>
    obtain ⟨packet, rest, -, rfl⟩ := step_deliver h
    rfl
  | hostCallback imageFlags sourceVar orig =>
    obtain ⟨header, hheader, rfl⟩ := Option.map_eq_some_iff.mp h
    rfl
  | hostAttach | hostDetach | sendFullState =>
    simp only [step, Option.some.injEq] at h
    subst h
    rfl

end IconPair

end Multicrew.Gauge
