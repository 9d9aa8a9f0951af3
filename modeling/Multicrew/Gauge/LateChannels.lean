import Mathlib.Data.List.Induction
import Multicrew.Gauge.ElementSession

/-!
# Elements constructed late

A packet for an id under which a client has registered nothing is dropped, and the client has asked
for the full state already. An element constructed after that shows what it was constructed with
until the host's element changes again. If the construction is in time, the element follows.
-/

namespace Multicrew.Gauge

open Std (TreeMap TreeSet)
open Multicrew.Core Multicrew.Library

namespace ElementSession

variable {ι Q : Type*} [DecidableEq ι] {kind : Str → Option ElementKind} {members : List ι}
variable {s t : ElementSession ι Q} {a : ElementAction ι Q}

/-- An element holds the last packet that was handed over on client `c` for its id. -/
def UpToDate (s : ElementSession ι Q) (c : ι) (id : ChannelId) (el : Element) : Prop :=
  ∀ load, (s.session.handedOn everyLoad (.down c) id.string).getLast? = some load →
    ∃ packet : ElementPacket, load.packet = .inl packet ∧ el.Holds packet

/-- A client's element is constructed, and put onto a header, before anything was handed over for its
id, or it shows the last of it anyway, or something more is coming. -/
def Timely (s : ElementSession ι Q) : ElementAction ι Q → Prop
  | .construct (.client c) _ id el => s.UpToDate c id el ∨ s.session.Coming c id.string
  | .attach (.client c) channel elementHeader =>
    ∀ id el el', s.elements (.client c) channel = some (id, el) →
      el.attach elementHeader = some el' → s.UpToDate c id el' ∨ s.session.Coming c id.string
  | _ => True

/-- What a list of packets makes of an element that is registered for its id. -/
theorem handOver_holds (hs : List (Handover (Load (ElementPacket ⊕ Q))))
    {elements : ℕ → Option (ChannelId × Element)} {channel : ℕ} {id : ChannelId} {el : Element}
    (hel : elements channel = some (id, el))
    (hreceivers : ∀ h ∈ hs, channel ∈ h.receivers ↔ h.id = id.string)
    (hkind : ∀ h ∈ hs, h.id = id.string →
      ∃ packet : ElementPacket, h.packet.packet = .inl packet ∧ packet.kind = el.kind) :
    ∃ el', (hs.foldl (handOver .client) elements) channel = some (id, el') ∧
      ((hs.filterMap fun h => selectFor everyLoad id.string (h.id, h.packet)) = [] ∧ el' = el ∨
        ∃ load, (hs.filterMap fun h => selectFor everyLoad id.string (h.id, h.packet)).getLast? =
          some load ∧ ∃ packet : ElementPacket, load.packet = .inl packet ∧ el'.Holds packet) := by
  induction hs using List.reverseRecOn with
  | nil => exact ⟨el, hel, .inl ⟨rfl, rfl⟩⟩
  | append_singleton hs h ih =>
    obtain ⟨el₁, hel₁, hold⟩ := ih (fun h' hh' => hreceivers h' (List.mem_append_left _ hh'))
      fun h' hh' => hkind h' (List.mem_append_left _ hh')
    have hlast : h ∈ hs ++ [h] := List.mem_append_right _ (List.mem_singleton_self h)
    simp only [List.foldl_append, List.foldl_cons, List.foldl_nil, List.filterMap_append]
    by_cases hid : h.id = id.string
    · -- the last packet is for this element
      obtain ⟨packet, hpacket, hpk⟩ := hkind h hlast hid
      have hmem := (hreceivers h hlast).mpr hid
      have hel₁kind : el₁.kind = el.kind := by
        have hshape := handOver_foldl .client hs elements channel
        rw [hel₁, hel] at hshape
        exact (Prod.mk.inj (Option.some.inj hshape)).2
      refine ⟨el₁.receive .client packet, ?_, .inr ⟨h.packet, ?_, packet, hpacket, ?_⟩⟩
      · simp [handOver, hmem, hel₁, hpacket]
      · simp [selectFor, everyLoad, hid]
      · exact Element.holds_receive (hpk.trans hel₁kind.symm)
    · have hmem := fun hchannel => hid ((hreceivers h hlast).mp hchannel)
      have hnone : selectFor everyLoad id.string (h.id, h.packet) = none := by
        simp [selectFor, hid]
      refine ⟨el₁, ?_, ?_⟩
      · simp only [handOver, if_neg hmem, hel₁]
      · simpa [hnone] using hold

/-- A packet delivered for an element's id is one of its kind, sent by the host. -/
theorem kind_of_handed (hr : (elementMachine Q kind members).Reachable t) {c : ι}
    {h : Handover (Load (ElementPacket ⊕ Q))}
    (hhanded : (.host, h) ∈ t.session.handed (.client c)) {k : ElementKind}
    (hk : kind h.id = some k) :
    ∃ packet : ElementPacket, h.packet.packet = .inl packet ∧ packet.kind = k := by
  obtain ⟨hsession, hlayout, -⟩ := reachable_session hr
  have hsubmitted := (Session.Agreement.reachable hsession).handed _ _ hhanded
  exact hlayout.sent _ (List.mem_of_getElem? hsubmitted) k hk

/-- A client's element after a delivery. -/
theorem element_of_delivery (hr : (elementMachine Q kind members).Reachable s) {index : ℕ}
    {e : Envelope ι (ElementPacket ⊕ Q)} {u : Session ι (ElementPacket ⊕ Q)}
    (h : s.step kind a = some (s.delivered e u)) (he : s.session.network[index]? = some e)
    (hu : s.session.step inOrder (.deliver index) = some u) {c : ι}
    (hmode : (s.session.protocol (.client c)).mode = .client) {channel : ℕ} {id : ChannelId}
    {el : Element} (hel : (s.delivered e u).elements (.client c) channel = some (id, el)) :
    s.elements (.client c) channel = some (id, el) ∧
        (s.delivered e u).session.handedOn everyLoad (.down c) id.string =
          s.session.handedOn everyLoad (.down c) id.string ∨
      (s.delivered e u).UpToDate c id el := by
  obtain ⟨hsession, hlayout, -⟩ := reachable_session hr
  have hu' := s.session.step_deliver he hu
  by_cases hdst : e.dst = .client c
  · have hsrc : e.src = .host := by
      rcases (Session.Agreement.reachable hsession).routed e (List.mem_of_getElem? he) with
        ⟨hsrc, -⟩ | ⟨-, hhost⟩
      · exact hsrc
      · rw [hdst] at hhost
        cases hhost
    simp only [delivered, hdst, Function.update_self, hmode] at hel
    have hshape := handOver_foldl .client
      ((s.session.protocol (.client c)).receive e.out.message).handed
      (s.elements (.client c)) channel
    rw [hel, Option.map_some, eq_comm, Option.map_eq_some_iff] at hshape
    obtain ⟨⟨id', el₀⟩, hel₀, hshape⟩ := hshape
    obtain ⟨rfl, -⟩ := Prod.mk.inj hshape
    obtain ⟨hid, hregistered⟩ := hlayout.element _ _ _ _ hel₀
    have hhanded : u.handed (.client c) = s.session.handed (.client c) ++
        ((s.session.protocol (.client c)).receive e.out.message).handed.map fun h' =>
          (.host, h') := by
      rw [hu', ← hdst, Session.receive_handed_self, hsrc]
    have hon : u.handedOn everyLoad (.down c) id'.string = s.session.handedOn everyLoad (.down c)
        id'.string ++ ((s.session.protocol (.client c)).receive e.out.message).handed.filterMap
          fun h' => selectFor everyLoad id'.string (h'.id, h'.packet) := by
      rw [hu', Session.handedOn_receive, if_pos ⟨hsrc, hdst⟩, hdst]
    obtain ⟨el', hel', hholds⟩ := handOver_holds
      ((s.session.protocol (.client c)).receive e.out.message).handed hel₀
      (fun h' hh' => by
        rw [ChannelProtocol.receive_handed_receivers _ e.out.message h' hh', hregistered])
      (fun h' hh' hid' => by
        have hmem : (.host, h') ∈ u.handed (.client c) := by
          rw [hhanded]
          exact List.mem_append_right _ (List.mem_map_of_mem hh')
        exact kind_of_handed (hr.step h) hmem (by rw [hid', hid]))
    rw [hel] at hel'
    cases hel'
    rcases hholds with ⟨hnil, rfl⟩ | ⟨load, hlast, hpacket⟩
    · rw [hnil, List.append_nil] at hon
      exact .inl ⟨hel₀, hon⟩
    · refine .inr fun load' hload' => ?_
      have hload' : (u.handedOn everyLoad (.down c) id'.string).getLast? = some load' := hload'
      rw [hon, List.getLast?_append, hlast, Option.some_or, Option.some.injEq] at hload'
      exact hload' ▸ hpacket
  · simp only [delivered, Function.update_of_ne (Ne.symm hdst)] at hel
    refine .inl ⟨hel, ?_⟩
    show u.handedOn everyLoad (.down c) id.string = _
    rw [hu', Session.handedOn_receive, if_neg fun hlink => hdst hlink.2, List.append_nil]

/-- A client's element after a step is new or newly attached, or shows what it showed before while
nothing was handed over for its id, or holds the last packet handed over. -/
theorem element_of_step (hr : (elementMachine Q kind members).Reachable s)
    (h : s.step kind a = some t) {c : ι} (hmode : (s.session.protocol (.client c)).mode = .client)
    {channel : ℕ} {id : ChannelId} {el : Element}
    (hel : t.elements (.client c) channel = some (id, el)) :
    (s.Timely a → s.UpToDate c id el ∨ s.session.Coming c id.string) ∧
        t.session.handedOn everyLoad (.down c) id.string =
          s.session.handedOn everyLoad (.down c) id.string ∨
      (∃ el₀, s.elements (.client c) channel = some (id, el₀) ∧
        ∀ packet, el₀.Holds packet → el.Holds packet) ∧
        t.session.handedOn everyLoad (.down c) id.string =
          s.session.handedOn everyLoad (.down c) id.string ∨
      t.UpToDate c id el := by
  have hsame : ∀ {b u}, s.session.step inOrder b = some u → (∀ index, b ≠ .deliver index) →
      u.handedOn everyLoad (.down c) id.string =
        s.session.handedOn everyLoad (.down c) id.string := by
    intro b u hu hother
    simp only [Session.handedOn, Session.handed_eq_of_step hu hother]
  rcases step_cases kind s h with ⟨p, channel', id', el', u, rfl, -, -, hu, rfl⟩ |
    ⟨c', channel', id', el', u, -, hu, rfl⟩ | ⟨p, channel', id', el', el'', u, hel', -, hhow, hu, rfl⟩ |
    ⟨index, e, u, he, hu, rfl⟩ | ⟨b, u, haside, hu, rfl⟩
  · by_cases hnew : Party.client c = p ∧ channel = channel'
    · obtain ⟨rfl, rfl⟩ := hnew
      rw [set_elements_self] at hel
      cases hel
      exact .inl ⟨fun htimely => htimely, hsame hu (by simp)⟩
    · rw [set_elements_of_ne _ hnew] at hel
      exact .inr (.inl ⟨⟨el, hel, fun _ h => h⟩, hsame hu (by simp)⟩)
  · by_cases hgone : Party.client c = .client c' ∧ channel = channel'
    · obtain ⟨hc, rfl⟩ := hgone
      rw [hc, set_elements_self] at hel
      cases hel
    · rw [set_elements_of_ne _ hgone] at hel
      exact .inr (.inl ⟨⟨el, hel, fun _ h => h⟩, hsame hu (by simp)⟩)
  · have hon : u.handedOn everyLoad (.down c) id.string =
        s.session.handedOn everyLoad (.down c) id.string := by
      rcases hu with rfl | ⟨packet, -, hu⟩
      · rfl
      · exact hsame hu (by simp)
    by_cases hnew : Party.client c = p ∧ channel = channel'
    · obtain ⟨rfl, rfl⟩ := hnew
      rw [set_elements_self] at hel
      cases hel
      rcases hhow with ⟨elementHeader, rfl, hattach⟩ | hholds
      · exact .inl ⟨fun htimely => htimely _ _ _ hel' hattach, hon⟩
      · exact .inr (.inl ⟨⟨el', hel', fun packet => (hholds hmode packet).mpr⟩, hon⟩)
    · rw [set_elements_of_ne _ hnew] at hel
      exact .inr (.inl ⟨⟨el, hel, fun _ h => h⟩, hon⟩)
  · rcases element_of_delivery hr h he hu hmode hel with ⟨hel₀, hon⟩ | hup
    · exact .inr (.inl ⟨⟨el, hel₀, fun _ h => h⟩, hon⟩)
    · exact .inr (.inr hup)
  · refine .inr (.inl ⟨⟨el, hel, fun _ h => h⟩, hsame hu ?_⟩)
    rintro index rfl
    exact haside

/-- Before anything is handed over for its id, an element is up to date. -/
theorem upToDate_of_nil {c : ι} {id : ChannelId}
    (h : s.session.handedOn everyLoad (.down c) id.string = []) (el : Element) :
    s.UpToDate c id el := by
  intro load hload
  rw [h] at hload
  cases hload

/-- An element stays up to date while nothing is handed over and it holds what it held. -/
theorem UpToDate.of_same {c : ι} {id : ChannelId} {el el' : Element} (h : s.UpToDate c id el)
    (hholds : ∀ packet, el.Holds packet → el'.Holds packet)
    (hsame : t.session.handedOn everyLoad (.down c) id.string =
      s.session.handedOn everyLoad (.down c) id.string) : t.UpToDate c id el' := by
  intro load hload
  rw [hsame] at hload
  obtain ⟨packet, hpacket, hel⟩ := h load hload
  exact ⟨packet, hpacket, hholds packet hel⟩

/-- What is coming for an element keeps coming while nothing is handed over for its id. -/
theorem coming_of_step (hr : (elementMachine Q kind members).Reachable s)
    (h : s.step kind a = some t) {c : ι} (hmode : (s.session.protocol (.client c)).mode = .client)
    {id : ChannelId} (hE : kind id.string ≠ none) (el : Element)
    (hsame : t.session.handedOn everyLoad (.down c) id.string =
      s.session.handedOn everyLoad (.down c) id.string)
    (hcoming : s.session.Coming c id.string) :
    t.UpToDate c id el ∨ t.session.Coming c id.string := by
  obtain ⟨hsession, hlayout, hfull⟩ := reachable_session hr
  by_cases hhanded : s.session.handedOn everyLoad (.down c) id.string = []
  · exact .inl (upToDate_of_nil (hsame.trans hhanded) el)
  · right
    -- the host has sent for the id, so it has a channel for it
    have hsent : s.session.sentOn everyLoad (.down c) id.string ≠ [] := by
      obtain ⟨before, hbefore⟩ := (Session.Trailing.reachable hsession).suffix c id.string
      rw [← hbefore, Session.queueOn_eq]
      simp [hhanded]
    obtain ⟨load, hload⟩ := Session.mem_submitted_of_sentOn hsent
    have hregistered := hfull.sent _ hE load hload
    rcases hlayout.session_of_step h with heq | ⟨b, hb, hanswers, -⟩
    · rw [heq]
      exact hcoming
    · exact Session.coming_of_step hsession hanswers hb hmode hE hregistered hcoming hsame

/-- While elements are constructed in time, every one of them is up to date or gets something
more. -/
theorem upToDate_or_coming (hr : (elementMachine Q kind members).ReachableVia Timely s) :
    ∀ c channel id el, s.elements (.client c) channel = some (id, el) →
      s.UpToDate c id el ∨ s.session.Coming c id.string := by
  apply hr.invariant
  · rintro s ⟨hbegins, -⟩ c channel id el -
    left
    apply upToDate_of_nil
    simp only [Session.handedOn, hbegins.handed, List.filterMap_nil]
  · intro s a t hvia htracked htimely hstep c channel id el hel
    have hr := hvia.reachable
    have hstep : s.step kind a = some t := hstep
    cases hidle : (s.session.protocol (.client c)).mode with
    | host =>
      have hagree := Session.Agreement.reachable (reachable_session hr).1
      exact absurd hidle (hagree.client_mode c)
    | idle =>
      -- an idle client hands nothing over, also in the step that starts it
      left
      apply upToDate_of_nil
      have hnil := (Session.Trailing.reachable (reachable_session hr).1).unstarted c hidle
      have hhanded : t.session.handed (.client c) = s.session.handed (.client c) := by
        rcases (reachable_session hr).2.1.session_of_step hstep with heq | ⟨b, hb, -, -⟩
        · rw [heq]
        · exact Session.handed_of_step hb hidle
      have hhanded : t.session.handed (Link.down c).dst = [] := hhanded.trans hnil
      simp only [Session.handedOn, hhanded, List.filterMap_nil]
    | client =>
      have hE : kind id.string ≠ none := by
        rw [((reachable_session (hr.step hstep)).2.1.element _ _ _ _ hel).1]
        simp
      rcases element_of_step hr hstep hidle hel with
        ⟨hfresh, hsame⟩ | ⟨⟨el₀, hel₀, hholds⟩, hsame⟩ | hnew
      · rcases hfresh htimely with hup | hcoming
        · exact .inl (hup.of_same (fun _ h => h) hsame)
        · exact coming_of_step hr hstep hidle hE el hsame hcoming
      · rcases htracked c channel id el₀ hel₀ with hup | hcoming
        · exact .inl (hup.of_same hholds hsame)
        · exact coming_of_step hr hstep hidle hE el hsame hcoming
      · exact .inl hnew

/-- With elements constructed in time, a client's element holds the packet that the host sent last
for its id whenever nothing is in flight. -/
theorem late_elements_converge (hr : (elementMachine Q kind members).ReachableVia Timely s)
    (hnet : s.session.network = []) (howed : s.session.owed .host = []) {c : ι}
    (hmode : (s.session.protocol (.client c)).mode = .client) {channel : ℕ} {id : ChannelId}
    {el : Element} (hel : s.elements (.client c) channel = some (id, el))
    {load : Load (ElementPacket ⊕ Q)}
    (hlast : (s.session.sentOn everyLoad (.down c) id.string).getLast? = some load) :
    ∃ packet : ElementPacket, load.packet = .inl packet ∧ el.Holds packet := by
  obtain ⟨hsession, hlayout, hfull⟩ := reachable_session hr.reachable
  have hE : kind id.string ≠ none := by
    rw [(hlayout.element _ _ _ _ hel).1]
    simp
  rcases upToDate_or_coming hr c channel id el hel with hup | hcoming
  · apply hup
    rw [hfull.last_handed hsession hmode hnet howed hE]
    exact hlast
  · exact absurd hcoming (Session.not_coming hsession hmode hnet howed id.string)

/-- A needle is the only element. -/
def dial : ChannelId := ⟨[65], by simp⟩

/-- The layout with the one needle. -/
def dialKind (X : Str) : Option ElementKind := if X = dial.string then some .needle else none

/-- The simulator's callback reports the given value. -/
def dialReading (bits : BitVec 64) : Reading := .needle ⟨0, some .simulator⟩ fun flags => (⟨bits⟩, flags)

/-- No element has been constructed, and no client has joined. -/
def dialOpening : ElementSession Unit Empty where
  session := Session.opening Unit _ []
  elements _ _ := none

/-- The beginning without elements is one. -/
theorem initial_dialOpening : (elementMachine Empty dialKind []).initial dialOpening := by
  refine ⟨Session.begins_opening _ List.nodup_nil, ?_⟩
  constructor
  · intro p channel id el hel
    cases hel
  · intro channel X hmem
    simp [dialOpening, Session.opening, ChannelProtocol.receivers] at hmem
  · intro call hcall
    cases hcall
  · intro entry hentry
    cases hentry

/-- A needle constructed while the client's request is on its way gets the value that was there
before the client. -/
theorem late_elements_converge_requested : ∃ s : ElementSession Unit Empty, ∃ el load,
    (elementMachine Empty dialKind []).Reachable s ∧
      s.elements (.client ()) 1 = some (dial, el) ∧
      (s.session.sentOn everyLoad (.down ()) dial.string).getLast? = some load ∧
      ∃ packet : ElementPacket, load.packet = .inl packet ∧ el.Holds packet := by
  have hrun : (elementMachine Empty dialKind []).run dialOpening
    [.construct .host 0 dial (.needle {}), .callback .host 0 (dialReading 1), .connect (),
      .start (), .construct (.client ()) 1 dial (.needle {}), .deliver 0, .sendFullState none,
      .deliver 0, .deliver 0, .deliver 0] = some _ := rfl
  have htimely : (elementMachine Empty dialKind []).Along Timely dialOpening
    [.construct .host 0 dial (.needle {}), .callback .host 0 (dialReading 1), .connect (),
      .start (), .construct (.client ()) 1 dial (.needle {}), .deliver 0, .sendFullState none,
      .deliver 0, .deliver 0, .deliver 0] :=
    .intro trivial (.intro trivial (.intro trivial (.intro trivial
      (.intro (.inl (upToDate_of_nil rfl _)) (Machine.along_of_forall (by simp [Timely]) _)))))
  have hlate := Machine.ReachableVia.run (.initial initial_dialOpening) htimely hrun
  refine ⟨_, .needle ⟨none, none, ⟨1⟩, true⟩, ⟨.inl (.needle ⟨⟨1⟩⟩), false, 1⟩, hlate.reachable, rfl,
    ?_, @late_elements_converge _ _ _ _ _ _ hlate rfl rfl () rfl 1 dial _ rfl _ ?_⟩
  · decide
  · decide

/-- A needle constructed after the answer to the client's request has come keeps the value it was
constructed with. -/
theorem late_element_stale : ¬ ∀ s : ElementSession Unit Empty,
    (elementMachine Empty dialKind []).Reachable s → s.session.network = [] →
      s.session.owed .host = [] → (s.session.protocol (.client ())).mode = .client →
      ∀ channel id el load, s.elements (.client ()) channel = some (id, el) →
        (s.session.sentOn everyLoad (.down ()) id.string).getLast? = some load →
        ∃ packet : ElementPacket, load.packet = .inl packet ∧ el.Holds packet := by
  intro h
  have hrun : (elementMachine Empty dialKind []).run dialOpening
    [.construct .host 0 dial (.needle {}), .connect (), .start (), .deliver 0,
      .callback .host 0 (dialReading 1), .sendFullState none, .deliver 0, .deliver 0,
      .construct (.client ()) 1 dial (.needle {})] = some _ := rfl
  obtain ⟨packet, hpacket, hholds⟩ := h _ (Machine.Reachable.run (.initial initial_dialOpening) hrun)
    rfl rfl rfl 1 dial _ _ rfl rfl
  cases hpacket
  have hvalue : FLOAT64.zero = ⟨1⟩ := hholds
  exact absurd hvalue (by decide)

end ElementSession

end Multicrew.Gauge
