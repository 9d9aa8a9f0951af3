import Multicrew.Gauge.IconReplication

/-!
# A static on the host and its copy on a client, and what survives re-attachment

A static has flags and no value, and the gauge calls it itself, so a call without a header is an
early return. The gauge decides whether its flags are watched, alike on both sides. Apart from that
the pair is the same replicated register as a pair of icons, with the masked flags as its state.
-/

namespace Multicrew.Gauge

open Multicrew.Library

/-- Flags within the mask of a static. -/
abbrev ShownFlags := { flags : FLAGS // flags &&& STATIC_FLAGS_MASK = flags }

/-- Flags cut to the mask. -/
def ShownFlags.of (flags : FLAGS) : ShownFlags :=
  ⟨flags &&& STATIC_FLAGS_MASK, by rw [BitVec.and_assoc, BitVec.and_self]⟩

/-- Flags within the mask are the cut of themselves. -/
theorem ShownFlags.of_self (x : ShownFlags) : ShownFlags.of x.1 = x :=
  Subtype.ext x.2

/-- Two elements with one id, the host's and a client's, the packets between them, and whether the
host has answered a request for the full state. -/
structure StaticPair where
  host : StaticElement
  client : StaticElement
  link : List StaticStruct := []
  answered : Bool := false
  deriving DecidableEq, Repr

/-- What happens to a static and its copy. A callback comes with the flags the simulator has written
into the header. -/
inductive StaticAction
  | hostAttach (elementHeader : StaticHeader)
  | hostDetach
  | hostCallback (imageFlags : FLAGS)
  | sendFullState
  | deliver
  | clientAttach (elementHeader : StaticHeader)
  | clientDetach
  | clientCallback (imageFlags : FLAGS)
  | clientRedraw
  deriving DecidableEq, Repr

namespace StaticPair

variable (s : StaticPair)

/-- The host's callback runs on its header and sends what it sends. -/
def hostCallback (imageFlags : FLAGS) : StaticPair :=
  let (host, sent) := (s.host.drawn imageFlags).callback .host
  { s with host := host, link := s.link ++ sent }

/-- All packets under way arrive. -/
def drain : StaticPair :=
  { s with client := s.link.foldl (fun d packet => d.receive .client packet) s.client, link := [] }

/-- One step of the host, the network or the client. -/
def step : StaticAction → Option StaticPair
  | .hostAttach header => some { s with host := s.host.attach header }
  | .hostDetach => some { s with host := s.host.detach }
  | .hostCallback imageFlags => some (s.hostCallback imageFlags)
  | .sendFullState =>
    some { s with link := s.link ++ s.host.sendFullState .host, answered := true }
  | .deliver =>
    match s.link with
    | [] => none
    | packet :: rest => some { s with client := s.client.receive .client packet, link := rest }
  | .clientAttach header => some { s with client := s.client.attach header }
  | .clientDetach => some { s with client := s.client.detach }
  | .clientCallback imageFlags =>
    some { s with client := ((s.client.drawn imageFlags).callback .client).1 }
  | .clientRedraw => (s.client.redraw .client).map fun client => { s with client := client }

/-- Both elements start as constructed, with the same answer of `watchStaticFlags`. -/
def machine : Machine StaticPair StaticAction where
  initial s := ∃ host client watchFlags, s = ⟨{ oldFlags := host, watchFlags := watchFlags },
    { oldFlags := client, watchFlags := watchFlags }, [], false⟩
  step s := s.step

/-- With both elements of a watched static attached after an answer: all packets arrive, the host's
callback runs, what it sends arrives, and the client's callback runs. Then the client's header has
the masked flags the host read. -/
def Settles : Prop :=
  s.host.staticHeader.isSome → s.client.staticHeader.isSome → s.answered → s.host.watchFlags →
    ∀ imageFlags image_flags',
      let client := (s.drain.hostCallback imageFlags).drain.client
      (((client.drawn image_flags').callback .client).1.staticHeader.map fun header =>
        header.imageFlags &&& STATIC_FLAGS_MASK) = some (imageFlags &&& STATIC_FLAGS_MASK)

/-- In masked flags, an element that is attached finds the state the other side has; nothing is
asked while the other side is detached or of a static that is not watched. -/
def AttachFits : StaticAction → Prop
  | .hostAttach header =>
    s.client.staticHeader.isSome → s.answered → s.host.watchFlags →
      s.drain.client.oldFlags &&& STATIC_FLAGS_MASK = header.imageFlags &&& STATIC_FLAGS_MASK
  | .clientAttach header =>
    s.host.staticHeader.isSome → s.answered → s.host.watchFlags →
      (if s.link = [] then header.imageFlags else s.drain.client.oldFlags) &&& STATIC_FLAGS_MASK =
        s.host.oldFlags &&& STATIC_FLAGS_MASK
  | _ => True

instance (a : StaticAction) : Decidable (s.AttachFits a) :=
  match a with
  | .hostAttach _ => inferInstanceAs (Decidable (_ → _ → _ → _))
  | .clientAttach _ => inferInstanceAs (Decidable (_ → _ → _ → _))
  | .hostDetach | .hostCallback _ | .sendFullState | .deliver | .clientDetach | .clientCallback _
  | .clientRedraw => .isTrue trivial

/-! ### The pair as a replicated register -/

/-- The flags an element has stored. -/
def shown (d : StaticElement) : ShownFlags := .of d.oldFlags

/-- The register the pair implements. -/
def mirror : Mirror ShownFlags where
  replica := ⟨shown s.host, s.link.map fun packet => .of packet.flags, shown s.client⟩
  writing := s.host.staticHeader.isSome
  reading := s.client.staticHeader.isSome
  answered := s.answered

/-- What a step does to the register. -/
def mirrorAction : StaticAction → MirrorAction ShownFlags
  | .hostAttach header => .writer (.of header.imageFlags)
  | .hostDetach => .writerLeaves
  | .hostCallback imageFlags =>
    if s.host.staticHeader.isSome && s.host.watchFlags then .observe (.of imageFlags) else .skip
  | .sendFullState => .answer
  | .deliver => .deliver
  | .clientAttach header => .reader (.of header.imageFlags)
  | .clientDetach => .readerLeaves
  | .clientCallback _ => .skip
  | .clientRedraw => .skip

/-- What both elements store once attached lies within the mask, and they are watched alike. -/
structure Invariant : Prop where
  host : s.host.staticHeader.isSome → s.host.oldFlags &&& STATIC_FLAGS_MASK = s.host.oldFlags
  client : s.client.staticHeader.isSome →
    s.client.oldFlags &&& STATIC_FLAGS_MASK = s.client.oldFlags
  watch : s.client.watchFlags = s.host.watchFlags

variable {s}

/-- A delivery takes the packet that is first on the link. -/
theorem step_deliver {t : StaticPair} (h : s.step .deliver = some t) :
    ∃ packet rest, s.link = packet :: rest ∧
      t = { s with client := s.client.receive .client packet, link := rest } := by
  cases hlink : s.link with
  | nil => simp [step, hlink] at h
  | cons packet rest =>
    simp only [step, hlink, Option.some.injEq] at h
    exact ⟨packet, rest, rfl, h.symm⟩

/-- Receiving a list of packets leaves the last one, if there is one. -/
theorem shown_foldl_receive (link : List StaticStruct) (d : StaticElement) :
    shown (link.foldl (fun d packet => d.receive .client packet) d) =
      ((link.map fun packet => ShownFlags.of packet.flags).getLast?).getD (shown d) := by
  induction link generalizing d with
  | nil => rfl
  | cons packet rest ih =>
    have hreceive : shown (d.receive .client packet) = .of packet.flags := by
      simp [shown, ShownFlags.of, StaticElement.receive, BitVec.and_assoc]
    rw [List.foldl_cons, ih, hreceive, List.map_cons, List.getLast?_cons]
    rfl

/-- Receiving packets touches neither the header nor whether the flags are watched. -/
theorem foldl_receive_keeps (link : List StaticStruct) (d : StaticElement) :
    (link.foldl (fun d packet => d.receive .client packet) d).staticHeader = d.staticHeader ∧
      (link.foldl (fun d packet => d.receive .client packet) d).watchFlags = d.watchFlags := by
  induction link generalizing d with
  | nil => exact ⟨rfl, rfl⟩
  | cons packet rest ih => exact ih (d.receive .client packet)

/-- Draining the pair drains the register. -/
theorem mirror_drain : s.drain.mirror.replica = s.mirror.replica.drain := by
  unfold mirror Replica.drain Replica.incoming
  simp only [drain, shown_foldl_receive, List.map_nil]

/-- What the client will have stored. -/
theorem incoming_eq : s.mirror.replica.incoming = shown s.drain.client := by
  have hdrain := mirror_drain (s := s)
  exact (congrArg Replica.held hdrain).symm

/-- A host callback that runs is one observation of the register. -/
theorem mirror_hostCallback (hattached : s.host.staticHeader.isSome) (hwatch : s.host.watchFlags)
    (hmasked : s.host.oldFlags &&& STATIC_FLAGS_MASK = s.host.oldFlags) (imageFlags : FLAGS) :
    (s.hostCallback imageFlags).mirror =
      { s.mirror with replica := s.mirror.replica.observe (· = ·) (.of imageFlags) } := by
  obtain ⟨header, hheader⟩ := Option.isSome_iff_exists.mp hattached
  have hsame : ShownFlags.of imageFlags = shown s.host ↔
      imageFlags &&& STATIC_FLAGS_MASK = s.host.oldFlags := by
    simp [ShownFlags.of, shown, hmasked]
  by_cases hchanged : imageFlags &&& STATIC_FLAGS_MASK = s.host.oldFlags
  · have hobserve : s.mirror.replica.observe (· = ·) (.of imageFlags) = s.mirror.replica :=
      if_pos (hsame.mpr hchanged)
    rw [hobserve]
    simp [hostCallback, StaticElement.callback, StaticElement.drawn, hheader, hwatch, hchanged,
      mirror, shown]
  · have hobserve : s.mirror.replica.observe (· = ·) (.of imageFlags) =
        s.mirror.replica.publish (.of imageFlags) := if_neg fun h => hchanged (hsame.mp h)
    rw [hobserve]
    simp [hostCallback, StaticElement.callback, StaticElement.drawn, hheader, hwatch, hchanged,
      mirror, shown, Replica.publish, StaticElement.sendState, ShownFlags.of, BitVec.and_assoc]

/-- A host callback that returns early changes nothing the register sees. -/
theorem mirror_hostCallback_skip (hskip : ¬ (s.host.staticHeader.isSome && s.host.watchFlags))
    (imageFlags : FLAGS) : (s.hostCallback imageFlags).mirror = s.mirror := by
  cases hheader : s.host.staticHeader with
  | none => simp [hostCallback, StaticElement.callback, StaticElement.drawn, hheader, mirror, shown]
  | some header =>
    have hwatch : s.host.watchFlags = false := by simpa [hheader] using hskip
    simp [hostCallback, StaticElement.callback, StaticElement.drawn, hheader, hwatch, mirror, shown]

/-- A client's callback keeps what the element has stored, and whether it has a header. -/
theorem clientCallback_keeps (d : StaticElement) :
    (d.callback .client).1.oldFlags = d.oldFlags ∧
      (d.callback .client).1.staticHeader.isSome = d.staticHeader.isSome ∧
      (d.callback .client).1.watchFlags = d.watchFlags := by
  unfold StaticElement.callback
  cases hheader : d.staticHeader with
  | none => simp [hheader]
  | some header => cases hwatch : d.watchFlags <;> simp [hheader, hwatch]

/-- Every step of the pair is a step of the register. -/
theorem mirror_step (hinv : s.Invariant) {a : StaticAction} {t : StaticPair}
    (h : s.step a = some t) : s.mirror.step (· = ·) (s.mirrorAction a) = some t.mirror := by
  cases a with
  | hostAttach header =>
    simp only [step, Option.some.injEq] at h
    subst h
    simp [mirror, mirrorAction, Mirror.step, Replica.rebase, shown, ShownFlags.of,
      StaticElement.attach, BitVec.and_assoc]
  | hostDetach =>
    simp only [step, Option.some.injEq] at h
    subst h
    rfl
  | hostCallback imageFlags =>
    simp only [step, Option.some.injEq] at h
    subst h
    by_cases hruns : s.host.staticHeader.isSome && s.host.watchFlags
    · have hboth := (Bool.and_eq_true _ _).mp hruns
      rw [mirror_hostCallback hboth.1 hboth.2 (hinv.host hboth.1)]
      simp only [mirrorAction, if_pos hruns, Mirror.step]
      exact if_pos hboth.1
    · rw [mirror_hostCallback_skip hruns]
      simp only [mirrorAction, if_neg hruns, Mirror.step]
  | sendFullState =>
    simp only [step, Option.some.injEq] at h
    subst h
    simp [mirror, mirrorAction, Mirror.step, Replica.publish, shown, StaticElement.sendFullState,
      StaticElement.sendState]
  | deliver =>
    obtain ⟨packet, rest, hlink, rfl⟩ := step_deliver h
    simp [mirror, mirrorAction, Mirror.step, Replica.deliver, hlink, shown, ShownFlags.of,
      StaticElement.receive, BitVec.and_assoc]
  | clientAttach header =>
    simp only [step, Option.some.injEq] at h
    subst h
    simp [mirror, mirrorAction, Mirror.step, Replica.overrule, shown, ShownFlags.of,
      StaticElement.attach, BitVec.and_assoc]
  | clientDetach =>
    simp only [step, Option.some.injEq] at h
    subst h
    rfl
  | clientCallback imageFlags =>
    simp only [step, Option.some.injEq] at h
    subst h
    have hkeeps := clientCallback_keeps (s.client.drawn imageFlags)
    simp only [mirrorAction, Mirror.step, mirror, shown, hkeeps]
    simp [StaticElement.drawn]
  | clientRedraw =>
    obtain ⟨client, hclient, rfl⟩ := Option.map_eq_some_iff.mp h
    obtain ⟨header, hheader, rfl⟩ := Option.map_eq_some_iff.mp hclient
    simp [mirrorAction, Mirror.step, mirror, shown, hheader]

/-- Elements that were never attached satisfy the invariant. -/
theorem invariant_initial (h : machine.initial s) : s.Invariant := by
  obtain ⟨host, client, watchFlags, rfl⟩ := h
  exact ⟨by simp, by simp, rfl⟩

/-- The host's callback stores masked flags, and touches neither whether there is a header nor
whether the flags are watched. -/
theorem hostCallback_keeps (d : StaticElement) :
    (d.oldFlags &&& STATIC_FLAGS_MASK = d.oldFlags →
        (d.callback .host).1.oldFlags &&& STATIC_FLAGS_MASK = (d.callback .host).1.oldFlags) ∧
      (d.callback .host).1.staticHeader.isSome = d.staticHeader.isSome ∧
      (d.callback .host).1.watchFlags = d.watchFlags := by
  unfold StaticElement.callback
  cases hheader : d.staticHeader with
  | none => simp [hheader]
  | some header =>
    cases hwatch : d.watchFlags with
    | false => simp [hheader, hwatch]
    | true =>
      by_cases hchanged : header.imageFlags &&& STATIC_FLAGS_MASK = d.oldFlags <;>
        simp [hheader, hwatch, hchanged, BitVec.and_assoc]

/-- Every step keeps the invariant. -/
theorem invariant_step (hinv : s.Invariant) {a : StaticAction} {t : StaticPair}
    (h : s.step a = some t) : t.Invariant := by
  cases a with
  | hostAttach header =>
    simp only [step, Option.some.injEq] at h
    subst h
    exact ⟨by simp [StaticElement.attach, BitVec.and_assoc], hinv.client, hinv.watch⟩
  | hostDetach =>
    simp only [step, Option.some.injEq] at h
    subst h
    exact ⟨by simp [StaticElement.detach], hinv.client, hinv.watch⟩
  | hostCallback imageFlags =>
    simp only [step, Option.some.injEq] at h
    subst h
    obtain ⟨hmasked, hattached, hwatch⟩ := hostCallback_keeps (s.host.drawn imageFlags)
    refine ⟨fun hsome => hmasked (hinv.host ?_), hinv.client, hinv.watch.trans hwatch.symm⟩
    have hdrawn := hattached.symm.trans hsome
    simpa [StaticElement.drawn] using hdrawn
  | sendFullState =>
    simp only [step, Option.some.injEq] at h
    subst h
    exact ⟨hinv.host, hinv.client, hinv.watch⟩
  | deliver =>
    obtain ⟨packet, rest, -, rfl⟩ := step_deliver h
    exact ⟨hinv.host, by simp [StaticElement.receive, BitVec.and_assoc], hinv.watch⟩
  | clientAttach header =>
    simp only [step, Option.some.injEq] at h
    subst h
    exact ⟨hinv.host, by simp [StaticElement.attach, BitVec.and_assoc], hinv.watch⟩
  | clientDetach =>
    simp only [step, Option.some.injEq] at h
    subst h
    exact ⟨hinv.host, by simp [StaticElement.detach], hinv.watch⟩
  | clientCallback imageFlags =>
    simp only [step, Option.some.injEq] at h
    subst h
    obtain ⟨hstored, hattached, hwatch⟩ := clientCallback_keeps (s.client.drawn imageFlags)
    refine ⟨hinv.host, fun hsome => ?_, hwatch.trans hinv.watch⟩
    have hdrawn := hattached.symm.trans hsome
    rw [hstored]
    exact hinv.client (by simpa [StaticElement.drawn] using hdrawn)
  | clientRedraw =>
    obtain ⟨client, hclient, rfl⟩ := Option.map_eq_some_iff.mp h
    obtain ⟨header, hheader, rfl⟩ := Option.map_eq_some_iff.mp hclient
    exact ⟨hinv.host, fun _ => hinv.client (by simp [hheader]), hinv.watch⟩

/-- The invariant holds in every reachable state. -/
theorem invariant_reachable (hs : machine.Reachable s) : s.Invariant :=
  hs.invariant (fun _ h => invariant_initial h) fun _ _ _ _ hinv h => invariant_step hinv h

/-! ### What the pair promises, in terms of the register -/

/-- What the client has stored after all packets, the host's callback and its packets. -/
theorem shown_settled (hattached : s.host.staticHeader.isSome) (hwatch : s.host.watchFlags)
    (hmasked : s.host.oldFlags &&& STATIC_FLAGS_MASK = s.host.oldFlags) (imageFlags : FLAGS) :
    shown (s.drain.hostCallback imageFlags).drain.client =
      ((s.mirror.replica.drain.observe (· = ·) (.of imageFlags)).drain).held := by
  have hdrain := mirror_drain (s := s.drain.hostCallback imageFlags)
  have hcallback := mirror_hostCallback (s := s.drain) hattached hwatch hmasked imageFlags
  calc shown (s.drain.hostCallback imageFlags).drain.client
      = ((s.drain.hostCallback imageFlags).mirror.replica.drain).held := by rw [← hdrain]; rfl
    _ = _ := by rw [hcallback, mirror_drain]

/-- Delivery and the host's callback keep the client's header and whether it watches. -/
theorem settled_client_keeps (imageFlags : FLAGS) :
    (s.drain.hostCallback imageFlags).drain.client.staticHeader = s.client.staticHeader ∧
      (s.drain.hostCallback imageFlags).drain.client.watchFlags = s.client.watchFlags := by
  have hfirst := foldl_receive_keeps s.link s.client
  have hsecond := foldl_receive_keeps (s.drain.hostCallback imageFlags).link s.drain.client
  exact ⟨hsecond.1.trans hfirst.1, hsecond.2.trans hfirst.2⟩

/-- What a watched client's header has is the comparison of stored states. -/
theorem shows_iff {d : StaticElement} (hattached : d.staticHeader.isSome) (hwatch : d.watchFlags)
    (imageFlags image_flags' : FLAGS) :
    (((d.drawn image_flags').callback .client).1.staticHeader.map fun header =>
        header.imageFlags &&& STATIC_FLAGS_MASK) = some (imageFlags &&& STATIC_FLAGS_MASK) ↔
      shown d = .of imageFlags := by
  obtain ⟨header, hheader⟩ := Option.isSome_iff_exists.mp hattached
  simp [StaticElement.callback, StaticElement.drawn, hheader, hwatch, StaticElement.apply,
    merge_and_mask, shown, ShownFlags.of]

/-- A watched pair settles exactly when its register is sound. -/
theorem settles_iff_sound (hinv : s.Invariant) :
    s.Settles ↔ (s.host.watchFlags → s.mirror.Sound (· = ·)) := by
  have hiff : ∀ (hhost : s.host.staticHeader.isSome) (hclient : s.client.staticHeader.isSome)
      (hwatch : s.host.watchFlags) (imageFlags image_flags' : FLAGS),
      ((((s.drain.hostCallback imageFlags).drain.client.drawn image_flags').callback
          .client).1.staticHeader.map fun header => header.imageFlags &&& STATIC_FLAGS_MASK) =
        some (imageFlags &&& STATIC_FLAGS_MASK) ↔
      ((s.mirror.replica.drain.observe (· = ·) (.of imageFlags)).drain).held =
        ShownFlags.of imageFlags := by
    intro hhost hclient hwatch imageFlags image_flags'
    obtain ⟨hheader, hwatch'⟩ := settled_client_keeps (s := s) imageFlags
    rw [shows_iff (hheader ▸ hclient) (hwatch'.trans (hinv.watch.trans hwatch)),
      shown_settled hhost hwatch (hinv.host hhost)]
  have hsettles := Replica.settles_iff s.mirror.replica
    (fun (x y : ShownFlags) (h : x = y) => h.symm) (fun _ _ _ hxy hyz => hxy.trans hyz)
  constructor
  · intro h hwatch hhost hclient hanswered
    apply hsettles.mp
    intro x _
    have hshown := (hiff hhost hclient hwatch x.1 0).mp (h hhost hclient hanswered hwatch x.1 0)
    rw [ShownFlags.of_self] at hshown
    exact hshown
  · intro h hhost hclient hanswered hwatch imageFlags image_flags'
    apply (hiff hhost hclient hwatch imageFlags image_flags').mpr
    exact hsettles.mpr (h hwatch hhost hclient hanswered) _ rfl

/-- An attached element fits exactly when the register's new end does. -/
theorem attachFits_iff_fits (a : StaticAction) :
    s.AttachFits a ↔ (s.host.watchFlags → s.mirror.Fits (· = ·) (s.mirrorAction a)) := by
  cases a with
  | hostAttach header =>
    simp only [AttachFits, mirrorAction, Mirror.Fits, incoming_eq]
    simp only [shown, ShownFlags.of, Subtype.mk.injEq, mirror]
    tauto
  | clientAttach header =>
    simp only [AttachFits, mirrorAction, Mirror.Fits, incoming_eq]
    by_cases hlink : s.link = []
    · simp only [mirror, hlink, List.map_nil, if_true, shown, ShownFlags.of, Subtype.mk.injEq]
      tauto
    · have hlink' : s.mirror.replica.link ≠ [] := by simpa [mirror] using hlink
      simp only [if_neg hlink, if_neg hlink']
      simp only [mirror, shown, ShownFlags.of, Subtype.mk.injEq]
      tauto
  | hostCallback imageFlags =>
    simp only [AttachFits, mirrorAction, true_iff]
    intro _
    split <;> trivial
  | _ => simp [AttachFits, mirrorAction, Mirror.Fits]

/-- Whether the flags are watched never changes. -/
theorem watchFlags_step {a : StaticAction} {t : StaticPair} (h : s.step a = some t) :
    t.host.watchFlags = s.host.watchFlags := by
  cases a with
  | hostCallback imageFlags =>
    simp only [step, Option.some.injEq] at h
    subst h
    exact (hostCallback_keeps (s.host.drawn imageFlags)).2.2
  | deliver =>
    obtain ⟨packet, rest, -, rfl⟩ := step_deliver h
    rfl
  | clientRedraw =>
    obtain ⟨client, -, rfl⟩ := Option.map_eq_some_iff.mp h
    rfl
  | _ =>
    simp only [step, Option.some.injEq] at h
    subst h
    rfl

/-- A reachable step from a state that settles leads to one exactly when the attach fits. -/
theorem settles_step_iff {a : StaticAction} {t : StaticPair} (hs : machine.Reachable s)
    (hsettles : s.Settles) (h : machine.step s a = some t) : t.Settles ↔ s.AttachFits a := by
  have hinv := invariant_reachable hs
  rw [settles_iff_sound (invariant_step hinv h), attachFits_iff_fits, watchFlags_step h]
  refine forall_congr' fun hwatch => ?_
  exact Mirror.sound_step_iff (fun _ _ h => h.symm) (fun _ _ _ hxy hyz => hxy.trans hyz)
    ((settles_iff_sound hinv).mp hsettles hwatch) (mirror_step hinv h)

/-- Without a header nothing is promised. -/
theorem settles_initial (h : machine.initial s) : s.Settles := by
  obtain ⟨host, client, watchFlags, rfl⟩ := h
  intro hhost
  simp at hhost

/-- In a run every state settles exactly when every attach fits. -/
theorem settles_throughout_iff {t : StaticPair} {as : List StaticAction}
    (hinit : machine.initial s) (h : machine.run s as = some t) :
    machine.Throughout Settles s as ↔ machine.Along AttachFits s as :=
  Machine.throughout_iff_along (fun _ _ _ hr hsettles hstep => settles_step_iff hr hsettles hstep)
    (.initial hinit) (settles_initial hinit) h

/-- What a step does to the flags of the client's header: an attach takes them as they are, a
callback changes nothing outside the mask, a redraw takes the image off the screen, and nothing
else touches them. -/
def FramesHeader (s : StaticPair) : StaticAction → StaticPair → Prop
  | .clientAttach header, t => t.client.staticHeader = some header
  | .clientDetach, t => t.client.staticHeader = none
  | .clientCallback imageFlags, t =>
    s.client.staticHeader.isSome → ∃ after, t.client.staticHeader = some ⟨after⟩ ∧
      Frames STATIC_FLAGS_MASK id imageFlags after
  | .clientRedraw, t =>
    t.client.staticHeader = s.client.staticHeader.map fun header =>
      ⟨setOffScreen header.imageFlags⟩
  | _, t => t.client.staticHeader = s.client.staticHeader

/-- Every step of a reachable state respects the client's header. -/
theorem framesHeader_of_step (hs : machine.Reachable s) {a : StaticAction} {t : StaticPair}
    (h : machine.step s a = some t) : s.FramesHeader a t := by
  have hinv := invariant_reachable hs
  replace h : s.step a = some t := h
  cases a with
  | clientCallback imageFlags =>
    simp only [step, Option.some.injEq] at h
    subst h
    intro hattached
    obtain ⟨header, hheader⟩ := Option.isSome_iff_exists.mp hattached
    have houtside := merge_and_not_mask (hinv.client hattached) imageFlags
    cases hwatch : s.client.watchFlags with
    | false =>
      refine ⟨imageFlags, ?_, imageFlags, rfl, .inl rfl⟩
      simp [StaticElement.callback, StaticElement.drawn, hheader, hwatch]
    | true =>
      refine ⟨s.client.apply imageFlags, ?_, s.client.apply imageFlags, houtside, .inl rfl⟩
      simp [StaticElement.callback, StaticElement.drawn, hheader, hwatch, StaticElement.apply]
  | clientRedraw =>
    simp only [step, StaticElement.redraw, Option.map_map, Option.map_eq_some_iff] at h
    obtain ⟨header, hheader, rfl⟩ := h
    show some (⟨setOffScreen header.imageFlags⟩ : StaticHeader) =
      s.client.staticHeader.map fun header => ⟨setOffScreen header.imageFlags⟩
    rw [hheader, Option.map_some]
  | deliver =>
    obtain ⟨packet, rest, -, rfl⟩ := step_deliver h
    rfl
  | _ =>
    simp only [step, Option.some.injEq] at h
    subst h
    rfl

end StaticPair

/-! ### Re-attachment -/

/-- In every run of a pair of icons, and in every run of a pair of statics, each state met settles
exactly when each attach of the run fits; and no step changes the client's header outside the
mask, other than by the simulator's own callback or by taking the image off the screen. -/
theorem replication_settles_iff {icons icons' : IconPair} {iconActions : List IconAction}
    {statics statics' : StaticPair} {staticActions : List StaticAction}
    (hicons : IconPair.machine.initial icons)
    (hiconRun : IconPair.machine.run icons iconActions = some icons')
    (hstatics : StaticPair.machine.initial statics)
    (hstaticRun : StaticPair.machine.run statics staticActions = some statics') :
    (IconPair.machine.Throughout IconPair.Settles icons iconActions ↔
      IconPair.machine.Along IconPair.AttachFits icons iconActions) ∧
    (StaticPair.machine.Throughout StaticPair.Settles statics staticActions ↔
      StaticPair.machine.Along StaticPair.AttachFits statics staticActions) ∧
    (∀ s a t, IconPair.machine.Reachable s → IconPair.machine.step s a = some t →
      s.FramesHeader a t) ∧
    (∀ s a t, StaticPair.machine.Reachable s → StaticPair.machine.step s a = some t →
      s.FramesHeader a t) :=
  ⟨IconPair.settles_throughout_iff hicons hiconRun,
    StaticPair.settles_throughout_iff hstatics hstaticRun,
    fun _ _ _ hs h => IconPair.framesHeader_of_step hs h,
    fun _ _ _ hs h => StaticPair.framesHeader_of_step hs h⟩

/-- Both panels are reopened with the flags they had: the runs keep the pairs in step. -/
theorem replication_settles_iff_reopened :
    IconPair.machine.Throughout IconPair.Settles ⟨{ oldFlags := 7 }, { oldFlags := 9 }, [], false⟩
      [.hostAttach ⟨1, some .simulator, none⟩, .clientAttach ⟨5, none, none⟩, .sendFullState,
        .deliver, .hostDetach, .hostAttach ⟨1, none, none⟩, .clientAttach ⟨1, none, none⟩] ∧
    StaticPair.machine.Throughout StaticPair.Settles
      ⟨{ oldFlags := 7, watchFlags := true }, { oldFlags := 9, watchFlags := true }, [], false⟩
      [.hostAttach ⟨1⟩, .clientAttach ⟨5⟩, .sendFullState, .deliver, .hostDetach, .hostAttach ⟨1⟩,
        .clientAttach ⟨1⟩] := by
  have hiconRun : IconPair.machine.run ⟨{ oldFlags := 7 }, { oldFlags := 9 }, [], false⟩
      [.hostAttach ⟨1, some .simulator, none⟩, .clientAttach ⟨5, none, none⟩, .sendFullState,
        .deliver, .hostDetach, .hostAttach ⟨1, none, none⟩, .clientAttach ⟨1, none, none⟩] =
      some _ := rfl
  have hstaticRun : StaticPair.machine.run
      ⟨{ oldFlags := 7, watchFlags := true }, { oldFlags := 9, watchFlags := true }, [], false⟩
      [.hostAttach ⟨1⟩, .clientAttach ⟨5⟩, .sendFullState, .deliver, .hostDetach, .hostAttach ⟨1⟩,
        .clientAttach ⟨1⟩] = some _ := rfl
  obtain ⟨hicons, hstatics, -⟩ :=
    replication_settles_iff ⟨7, 9, rfl⟩ hiconRun ⟨7, 9, true, rfl⟩ hstaticRun
  exact ⟨hicons.mpr (by decide), hstatics.mpr (by decide)⟩

/-- The host's panel is reopened with other flags after the answer has arrived: the host's callback
reads them, finds them in its baseline and sends nothing. -/
theorem replication_breaks_on_attach :
    ∃ s as t, IconPair.machine.initial s ∧ IconPair.machine.run s as = some t ∧
      t.host.iconHeader.isSome ∧ t.client.iconHeader.isSome ∧ t.answered ∧ ¬ t.Settles := by
  have hrun : IconPair.machine.run ⟨{ oldFlags := 0 }, { oldFlags := 0 }, [], false⟩
      [.hostAttach ⟨0, some .simulator, none⟩, .clientAttach ⟨0, some .simulator, none⟩,
        .sendFullState, .deliver, .hostDetach,
        .hostAttach ⟨IMAGE_USE_TRANSPARENCY, some .simulator, none⟩] = some _ := rfl
  refine ⟨_, _, _, ⟨0, 0, rfl⟩, hrun, rfl, rfl, rfl, ?_⟩
  intro hsettles
  have hshown := hsettles _ _ rfl rfl rfl IMAGE_USE_TRANSPARENCY none (fun flags => (.zero, flags))
    0 none (fun flags => (.zero, flags)) (by decide)
  exact absurd hshown.2 (by decide)

end Multicrew.Gauge
