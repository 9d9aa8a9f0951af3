import Mathlib.Data.List.Nodup
import Mathlib.Logic.Function.Basic
import Multicrew.Library.Machine

/-!
# Posting to several mailboxes

A message is posted to some recipients and numbered; each of them takes it into its queue at a time
of its own. From time to time a recipient drains its queue and logs its answers, which may differ
from drain to drain.

A message taken is answered by the next drain and never again, and a recipient logs its answers in
the order of the posts.
-/

namespace Multicrew.Library

/-- The queues of the recipients, who still has to take the last message, what was posted, and what
was answered. -/
structure Mailboxes (κ ε ω : Type*) where
  queues : κ → List (ℕ × ε) := fun _ => []
  waiting : List (κ × ℕ × ε) := []
  posted : List ε := []
  log : List (κ × ℕ × ω) := []

/-- A message is posted or taken, or a queue is drained. -/
inductive MailboxAction (κ ε ω : Type*)
  | post (e : ε) (recipients : List κ)
  | take (k : κ) (p : ℕ) (e : ε)
  | drain (k : κ) (answer : ε → List ω)

namespace Mailboxes

variable {κ ε ω : Type*} [DecidableEq κ] [DecidableEq ε] (s : Mailboxes κ ε ω)

/-- One step; the next message is posted when all have taken the last. -/
def step : MailboxAction κ ε ω → Option (Mailboxes κ ε ω)
  | .post e recipients =>
    if s.waiting = [] ∧ recipients.Nodup then
      some { s with
        posted := s.posted ++ [e]
        waiting := recipients.map (·, s.posted.length, e) }
    else none
  | .take k p e =>
    if (k, p, e) ∈ s.waiting then
      some { s with
        waiting := s.waiting.erase (k, p, e)
        queues := Function.update s.queues k (s.queues k ++ [(p, e)]) }
    else none
  | .drain k answer =>
    some { s with
      queues := Function.update s.queues k []
      log := s.log ++ (s.queues k).flatMap fun x => (answer x.2).map (k, x.1, ·) }

/-- Nothing is posted at first. -/
def machine (κ ε ω : Type*) [DecidableEq κ] [DecidableEq ε] :
    Machine (Mailboxes κ ε ω) (MailboxAction κ ε ω) where
  initial s := s = {}
  step := step

/-- The answers of a recipient to a message. -/
def answered (k : κ) (p : ℕ) : List ω :=
  s.log.filterMap fun entry => if entry.1 = k ∧ entry.2.1 = p then some entry.2.2 else none

/-- Queues, waiting recipients and the log agree on what was posted, in the order of the posts. -/
structure Sound : Prop where
  waiting_last : ∀ y ∈ s.waiting, y.2.1 + 1 = s.posted.length ∧ s.posted[y.2.1]? = some y.2.2
  waiting_nodup : (s.waiting.map (·.1)).Nodup
  queued_posted : ∀ k, ∀ x ∈ s.queues k, s.posted[x.1]? = some x.2
  queued_sorted : ∀ k, (s.queues k).Pairwise (·.1 < ·.1)
  queued_before : ∀ k, ∀ x ∈ s.queues k, ∀ y ∈ s.waiting, y.1 = k → x.1 < y.2.1
  logged_posted : ∀ entry ∈ s.log, entry.2.1 < s.posted.length
  logged_before : ∀ entry ∈ s.log, ∀ x ∈ s.queues entry.1, entry.2.1 < x.1
  logged_waiting : ∀ entry ∈ s.log, ∀ y ∈ s.waiting, y.1 = entry.1 → entry.2.1 < y.2.1
  logged_sorted : s.log.Pairwise fun a b => a.1 = b.1 → a.2.1 ≤ b.2.1

variable {s t : Mailboxes κ ε ω}

omit [DecidableEq κ] [DecidableEq ε] in
/-- A queued message was posted. -/
theorem Sound.queued_lt (h : s.Sound) {k : κ} {x : ℕ × ε} (hx : x ∈ s.queues k) :
    x.1 < s.posted.length :=
  (List.getElem?_eq_some_iff.mp (h.queued_posted k x hx)).1

omit [DecidableEq κ] [DecidableEq ε] in
/-- Posting keeps the order. -/
theorem Sound.post (h : s.Sound) {e : ε} {recipients : List κ} (hnodup : recipients.Nodup) :
    Sound { s with
      posted := s.posted ++ [e]
      waiting := recipients.map (·, s.posted.length, e) } where
  waiting_last y hy := by
    obtain ⟨k, -, rfl⟩ := List.mem_map.mp hy
    simp
  waiting_nodup := by simpa [Function.comp_def] using hnodup
  queued_posted k x hx :=
    (List.getElem?_append_left (h.queued_lt hx)).trans (h.queued_posted k x hx)
  queued_sorted := h.queued_sorted
  queued_before k x hx y hy _ := by
    obtain ⟨k, -, rfl⟩ := List.mem_map.mp hy
    exact h.queued_lt hx
  logged_posted entry hentry := by
    have hlt := h.logged_posted entry hentry
    simp only [List.length_append, List.length_singleton]
    omega
  logged_before := h.logged_before
  logged_waiting entry hentry y hy _ := by
    obtain ⟨k, -, rfl⟩ := List.mem_map.mp hy
    exact h.logged_posted entry hentry
  logged_sorted := h.logged_sorted

/-- Taking a message keeps the order. -/
theorem Sound.take (h : s.Sound) {k : κ} {p : ℕ} {e : ε} (hwaiting : (k, p, e) ∈ s.waiting) :
    Sound { s with
      waiting := s.waiting.erase (k, p, e)
      queues := Function.update s.queues k (s.queues k ++ [(p, e)]) } := by
  have hrest : ∀ y ∈ s.waiting.erase (k, p, e), y ∈ s.waiting := fun y hy =>
    List.mem_of_mem_erase hy
  have hqueue : ∀ k' x, x ∈ Function.update s.queues k (s.queues k ++ [(p, e)]) k' →
      x ∈ s.queues k' ∨ (k' = k ∧ x = (p, e)) := by
    intro k' x hx
    by_cases hk : k' = k
    · subst hk
      simpa using hx
    · rw [Function.update_of_ne hk] at hx
      exact .inl hx
  -- the recipient does not wait any more
  have hgone : ∀ y ∈ s.waiting.erase (k, p, e), y.1 ≠ k := by
    intro y hy hyk
    obtain ⟨hne, hin⟩ := (List.Nodup.of_map _ h.waiting_nodup).mem_erase_iff.mp hy
    exact hne (List.inj_on_of_nodup_map h.waiting_nodup hin hwaiting hyk)
  refine ⟨fun y hy => h.waiting_last y (hrest y hy), ?_, fun k' x hx => ?_, fun k' => ?_,
    fun k' x hx y hy hyk => ?_, h.logged_posted, fun entry hentry x hx => ?_,
    fun entry hentry y hy => h.logged_waiting entry hentry y (hrest y hy), h.logged_sorted⟩
  · exact h.waiting_nodup.sublist (List.erase_sublist.map _)
  · rcases hqueue k' x hx with hold | ⟨rfl, rfl⟩
    · exact h.queued_posted k' x hold
    · exact (h.waiting_last _ hwaiting).2
  · by_cases hk : k' = k
    · subst hk
      simp only [Function.update_self, List.pairwise_append, List.pairwise_singleton, true_and]
      refine ⟨h.queued_sorted k', fun x hx y hy => ?_⟩
      rw [List.mem_singleton.mp hy]
      exact h.queued_before k' x hx _ hwaiting rfl
    · simp only [Function.update_of_ne hk]
      exact h.queued_sorted k'
  · rcases hqueue k' x hx with hold | ⟨rfl, rfl⟩
    · exact h.queued_before k' x hold y (hrest y hy) hyk
    · exact absurd hyk (hgone y hy)
  · rcases hqueue entry.1 x hx with hold | ⟨hk, rfl⟩
    · exact h.logged_before entry hentry x hold
    · exact h.logged_waiting entry hentry _ hwaiting hk.symm

omit [DecidableEq ε] in
/-- Draining keeps the order. -/
theorem Sound.drain (h : s.Sound) {k : κ} (answer : ε → List ω) :
    Sound { s with
      queues := Function.update s.queues k []
      log := s.log ++ (s.queues k).flatMap fun x => (answer x.2).map (k, x.1, ·) } := by
  have hqueue : ∀ k' x, x ∈ Function.update s.queues k [] k' → x ∈ s.queues k' ∧ k' ≠ k := by
    intro k' x hx
    by_cases hk : k' = k
    · subst hk
      simp at hx
    · rw [Function.update_of_ne hk] at hx
      exact ⟨hx, hk⟩
  have hlog : ∀ entry ∈ s.log ++ (s.queues k).flatMap fun x => (answer x.2).map (k, x.1, ·),
      entry ∈ s.log ∨ (entry.1 = k ∧ ∃ x ∈ s.queues k, x.1 = entry.2.1) := by
    intro entry hentry
    rcases List.mem_append.mp hentry with hold | hnew
    · exact .inl hold
    · obtain ⟨x, hx, hmap⟩ := List.mem_flatMap.mp hnew
      obtain ⟨w, -, rfl⟩ := List.mem_map.mp hmap
      exact .inr ⟨rfl, x, hx, rfl⟩
  refine ⟨h.waiting_last, h.waiting_nodup, fun k' x hx => h.queued_posted k' x (hqueue k' x hx).1,
    fun k' => ?_, fun k' x hx => h.queued_before k' x (hqueue k' x hx).1,
    fun entry hentry => ?_, fun entry hentry x hx => ?_, fun entry hentry y hy hyk => ?_, ?_⟩
  · by_cases hk : k' = k
    · subst hk
      simp
    · simp only [Function.update_of_ne hk]
      exact h.queued_sorted k'
  · rcases hlog entry hentry with hold | ⟨-, x, hx, hxp⟩
    · exact h.logged_posted entry hold
    · exact hxp ▸ h.queued_lt hx
  · obtain ⟨hold, hk⟩ := hqueue entry.1 x hx
    rcases hlog entry hentry with hentry | ⟨heq, -⟩
    · exact h.logged_before entry hentry x hold
    · exact absurd heq hk
  · rcases hlog entry hentry with hentry | ⟨heq, x, hx, hxp⟩
    · exact h.logged_waiting entry hentry y hy hyk
    · exact hxp ▸ h.queued_before k x hx y hy (hyk.trans heq)
  · refine List.pairwise_append.mpr ⟨h.logged_sorted, ?_, fun a ha b hb hab => ?_⟩
    · refine List.pairwise_flatMap.mpr ⟨fun x _ => ?_, (h.queued_sorted k).imp fun hxy => ?_⟩
      · exact List.pairwise_map.mpr (List.pairwise_of_forall fun _ _ _ => Nat.le_refl x.1)
      · intro a ha b hb _
        obtain ⟨_, -, rfl⟩ := List.mem_map.mp ha
        obtain ⟨_, -, rfl⟩ := List.mem_map.mp hb
        exact Nat.le_of_lt hxy
    · obtain ⟨x, hx, hmap⟩ := List.mem_flatMap.mp hb
      obtain ⟨w, -, rfl⟩ := List.mem_map.mp hmap
      exact Nat.le_of_lt (h.logged_before a ha x (hab ▸ hx))

/-- What a step can be. -/
theorem step_cases {a : MailboxAction κ ε ω} (h : s.step a = some t) :
    (∃ e recipients, a = .post e recipients ∧ s.waiting = [] ∧ recipients.Nodup ∧
      t = { s with
        posted := s.posted ++ [e]
        waiting := recipients.map (·, s.posted.length, e) }) ∨
    (∃ k p e, a = .take k p e ∧ (k, p, e) ∈ s.waiting ∧
      t = { s with
        waiting := s.waiting.erase (k, p, e)
        queues := Function.update s.queues k (s.queues k ++ [(p, e)]) }) ∨
    ∃ k answer, a = .drain k answer ∧
      t = { s with
        queues := Function.update s.queues k []
        log := s.log ++ (s.queues k).flatMap fun x => (answer x.2).map (k, x.1, ·) } := by
  cases a with
  | post e recipients =>
    simp only [step] at h
    split at h
    · exact .inl ⟨e, recipients, rfl, ‹_ ∧ _›.1, ‹_ ∧ _›.2, (Option.some.inj h).symm⟩
    · cases h
  | take k p e =>
    simp only [step] at h
    split at h
    · exact .inr (.inl ⟨k, p, e, rfl, ‹_›, (Option.some.inj h).symm⟩)
    · cases h
  | drain k answer => exact .inr (.inr ⟨k, answer, rfl, (Option.some.inj h).symm⟩)

/-- A step keeps the order. -/
theorem Sound.step (h : s.Sound) {a : MailboxAction κ ε ω} (hstep : s.step a = some t) :
    t.Sound := by
  rcases step_cases hstep with ⟨e, recipients, -, -, hnodup, rfl⟩ | ⟨k, p, e, -, hwaiting, rfl⟩ |
    ⟨k, answer, -, rfl⟩
  · exact h.post hnodup
  · exact h.take hwaiting
  · exact h.drain answer

/-- The order holds in every reachable state. -/
theorem sound (hs : (machine κ ε ω).Reachable s) : s.Sound := by
  refine hs.invariant (fun s hinit => ?_) fun s a t _ hI h => hI.step h
  obtain rfl : s = {} := hinit
  constructor <;> simp

/-! ### A message is answered once -/

/-- A recipient has nothing more to do about a message. -/
def Settled (s : Mailboxes κ ε ω) (k : κ) (p : ℕ) : Prop :=
  p < s.posted.length ∧ (∀ x ∈ s.queues k, x.1 ≠ p) ∧ ∀ y ∈ s.waiting, y.1 = k → y.2.1 ≠ p

omit [DecidableEq ε] in
/-- The answers to a message are added by draining a queue that holds it. -/
theorem answered_drain (k k' : κ) (p : ℕ) (answer : ε → List ω) :
    answered { s with
      queues := Function.update s.queues k []
      log := s.log ++ (s.queues k).flatMap fun x => (answer x.2).map (k, x.1, ·) } k' p =
    s.answered k' p ++ if k = k' then
      ((s.queues k).filter (·.1 = p)).flatMap fun x => answer x.2 else [] := by
  simp only [answered, List.filterMap_append, List.append_cancel_left_eq]
  induction s.queues k with
  | nil => simp
  | cons x rest ih =>
    rw [List.flatMap_cons, List.filterMap_append, ih, List.filterMap_map]
    by_cases hk : k = k'
    · by_cases hp : x.1 = p
      · simp [hk, hp]
      · simp [hk, hp]
    · simp [hk]

/-- What is settled stays so, without another answer. -/
theorem Settled.step {k : κ} {p : ℕ} (h : s.Settled k p) {a : MailboxAction κ ε ω}
    (hstep : s.step a = some t) : t.Settled k p ∧ t.answered k p = s.answered k p := by
  obtain ⟨hposted, hqueue, hwaiting⟩ := h
  rcases step_cases hstep with ⟨e, recipients, -, -, -, rfl⟩ | ⟨k', p', e, -, hmem, rfl⟩ |
    ⟨k', answer, -, rfl⟩
  · refine ⟨⟨?_, hqueue, fun y hy _ => ?_⟩, rfl⟩
    · simp only [List.length_append, List.length_singleton]
      omega
    · obtain ⟨_, -, rfl⟩ := List.mem_map.mp hy
      exact (Nat.ne_of_lt hposted).symm
  · refine ⟨⟨hposted, fun x hx => ?_, fun y hy => hwaiting y (List.mem_of_mem_erase hy)⟩, rfl⟩
    by_cases hk : k = k'
    · subst hk
      simp only [Function.update_self, List.mem_append, List.mem_singleton] at hx
      rcases hx with hold | rfl
      · exact hqueue x hold
      · exact hwaiting _ hmem rfl
    · simp only [Function.update_of_ne hk] at hx
      exact hqueue x hx
  · refine ⟨⟨hposted, fun x hx => ?_, hwaiting⟩, ?_⟩
    · by_cases hk : k = k'
      · subst hk
        simp at hx
      · simp only [Function.update_of_ne hk] at hx
        exact hqueue x hx
    · rw [answered_drain]
      split
      · rename_i hk
        subst hk
        have hnone : (s.queues k').filter (·.1 = p) = [] :=
          List.filter_eq_nil_iff.mpr fun x hx => by simpa using hqueue x hx
        simp [hnone]
      · simp

/-- What is settled stays so along a run. -/
theorem Settled.run {k : κ} {p : ℕ} (h : s.Settled k p) {as : List (MailboxAction κ ε ω)}
    (hrun : (machine κ ε ω).run s as = some t) : t.answered k p = s.answered k p := by
  induction as generalizing s with
  | nil => exact congrArg (answered · k p) (Option.some.inj hrun).symm
  | cons a rest ih =>
    obtain ⟨u, hu, hrest⟩ := Option.bind_eq_some_iff.mp hrun
    obtain ⟨hsettled, hanswered⟩ := h.step hu
    exact (ih hsettled hrest).trans hanswered

/-- A queued message stays queued until its recipient drains. -/
theorem queued_run {k : κ} {x : ℕ × ε} (hx : x ∈ s.queues k) {as : List (MailboxAction κ ε ω)}
    (hdrain : ∀ answer, .drain k answer ∉ as) (hrun : (machine κ ε ω).run s as = some t) :
    x ∈ t.queues k := by
  induction as generalizing s with
  | nil => exact Option.some.inj hrun ▸ hx
  | cons a rest ih =>
    obtain ⟨u, hu, hrest⟩ := Option.bind_eq_some_iff.mp hrun
    refine ih ?_ (fun answer hin => hdrain answer (List.mem_cons_of_mem a hin)) hrest
    rcases step_cases hu with ⟨e, recipients, -, -, -, rfl⟩ | ⟨k', p', e, -, hmem, rfl⟩ |
      ⟨k', answer, rfl, rfl⟩
    · exact hx
    · by_cases hk : k = k'
      · subst hk
        simp [hx]
      · simpa only [Function.update_of_ne hk] using hx
    · by_cases hk : k = k'
      · subst hk
        exact absurd List.mem_cons_self (hdrain answer)
      · simpa only [Function.update_of_ne hk] using hx

omit [DecidableEq κ] [DecidableEq ε] in
/-- A queue holds a message once. -/
theorem Sound.filter_queue (h : s.Sound) {k : κ} {x : ℕ × ε} (hx : x ∈ s.queues k) :
    (s.queues k).filter (·.1 = x.1) = [x] := by
  have hsorted := h.queued_sorted k
  generalize s.queues k = queue at hx hsorted
  induction queue with
  | nil => exact (List.not_mem_nil hx).elim
  | cons y rest ih =>
    obtain ⟨hy, hrest⟩ := List.pairwise_cons.mp hsorted
    cases List.mem_cons.mp hx with
    | inl heq =>
      have hnone : rest.filter (·.1 = x.1) = [] := by
        refine List.filter_eq_nil_iff.mpr fun z hz => ?_
        have hlt := hy z hz
        simp only [decide_eq_true_eq, heq]
        omega
      simp [heq ▸ hnone, heq]
    | inr hin =>
      have hlt := hy x hin
      have hne : ¬ y.1 = x.1 := by omega
      simp [hne, ih hin hrest]

omit [DecidableEq ε] in
/-- A queued message has no answer of its recipient yet. -/
theorem Sound.answered_of_queued (h : s.Sound) {k : κ} {x : ℕ × ε} (hx : x ∈ s.queues k) :
    s.answered k x.1 = [] := by
  refine List.filterMap_eq_nil_iff.mpr fun entry hentry => if_neg fun hkp => ?_
  have hlt := h.logged_before entry hentry x (hkp.1 ▸ hx)
  omega

/-- Draining a queue answers a message in it and settles it. -/
theorem Sound.drain_queued (h : s.Sound) {k : κ} {x : ℕ × ε} (hx : x ∈ s.queues k)
    {answer : ε → List ω} (hdrain : s.step (.drain k answer) = some t) :
    t.Settled k x.1 ∧ t.answered k x.1 = answer x.2 := by
  obtain rfl := Option.some.inj hdrain
  refine ⟨⟨h.queued_lt hx, fun y hy => ?_, fun y hy hyk => ?_⟩, ?_⟩
  · simp at hy
  · exact (Nat.ne_of_lt (h.queued_before k x hx y hy hyk)).symm
  · rw [answered_drain, h.answered_of_queued hx, if_pos rfl, h.filter_queue hx]
    simp

/-- A message taken is answered by the next drain of its recipient, and by no other. -/
theorem answered_once {s s' t u v : Mailboxes κ ε ω} {k : κ} {p : ℕ} {e : ε}
    {answer : ε → List ω} {between later : List (MailboxAction κ ε ω)}
    (hs : (machine κ ε ω).Reachable s) (htake : (machine κ ε ω).step s (.take k p e) = some s')
    (hbetween : (machine κ ε ω).run s' between = some t)
    (hdrain : ∀ answer, .drain k answer ∉ between)
    (hu : (machine κ ε ω).step t (.drain k answer) = some u)
    (hlater : (machine κ ε ω).run u later = some v) : v.answered k p = answer e := by
  have hqueued : (p, e) ∈ s'.queues k := by
    have htake : s.step (.take k p e) = some s' := htake
    rcases step_cases htake with ⟨_, _, h, -⟩ | ⟨k, p, e, h, -, rfl⟩ | ⟨_, _, h, -⟩
    · cases h
    · cases h
      simp
    · cases h
  have ht : t.Sound := sound ((hs.step htake).run hbetween)
  obtain ⟨hsettled, hanswered⟩ := ht.drain_queued (queued_run hqueued hdrain hbetween) hu
  exact (hsettled.run hlater).trans hanswered

/-- Drains answer as a relation allows. -/
def AnswersWith (Q : κ → ε → ω → Prop) : MailboxAction κ ε ω → Prop
  | .drain k answer => ∀ e, ∀ w ∈ answer e, Q k e w
  | _ => True

/-- If the drains answer as a relation allows, so does the log. -/
theorem logged_of_answers {Q : κ → ε → ω → Prop}
    (hs : (machine κ ε ω).ReachableVia (fun _ a => AnswersWith Q a) s) :
    ∀ entry ∈ s.log, ∃ e, s.posted[entry.2.1]? = some e ∧ Q entry.1 e entry.2.2 := by
  refine Machine.ReachableVia.invariant (I := fun s => ∀ entry ∈ s.log, ∃ e,
    s.posted[entry.2.1]? = some e ∧ Q entry.1 e entry.2.2) (fun s hinit => ?_)
    (fun s a t hr hI hok h => ?_) hs
  · obtain rfl : s = {} := hinit
    exact fun entry hentry => (List.not_mem_nil hentry).elim
  · have hsound := sound hr.reachable
    rcases step_cases h with ⟨e, recipients, -, -, -, rfl⟩ | ⟨k, p, e, -, -, rfl⟩ |
      ⟨k, answer, rfl, rfl⟩
    · intro entry hentry
      obtain ⟨e', he', hQ⟩ := hI entry hentry
      exact ⟨e', (List.getElem?_append_left (hsound.logged_posted entry hentry)).trans he', hQ⟩
    · exact hI
    · intro entry hentry
      cases List.mem_append.mp hentry with
      | inl hold => exact hI entry hold
      | inr hnew =>
        obtain ⟨x, hx, hmap⟩ := List.mem_flatMap.mp hnew
        obtain ⟨w, hw, rfl⟩ := List.mem_map.mp hmap
        exact ⟨x.2, hsound.queued_posted k x hx, hok x.2 w hw⟩

end Mailboxes

end Multicrew.Library
