import Mathlib.Data.List.Nodup
import Mathlib.Data.List.TakeWhile
import Multicrew.Library.Machine
import Multicrew.Core.Signals

/-!
# Emitting a signal while its callbacks change it

`Signal::emit` walks over the list of callbacks with an iterator that moves on before each call, so a
callback may connect, disconnect and emit again, which starts a walk inside the one that called it.
An iterator of `std::list` stays valid until its own node is erased. Nodes are numbered in the order in
which they are created; using the iterator of an erased node is undefined.
-/

namespace Multicrew.Core

open Multicrew.Library

/-- A running `Signal::emit`. `it` is the node of its iterator, or none for `callbacks.end()`. Beside
it stand the nodes called so far, the nodes of the list when it began, and those when it last moved. -/
structure Emission where
  it : Option ℕ
  called : List ℕ := []
  begun : List ℕ
  seen : List ℕ
  deriving DecidableEq, Repr

/-- The nodes of `callbacks` with what they hold, how many were ever created, and the emissions that
run, innermost first. -/
structure Emitter where
  nodes : List (ℕ × ℕ) := []
  created : ℕ := 0
  running : List Emission := []
  deriving DecidableEq, Repr

/-- What the program, or the callback that is being called, does next. `advance` returns from it to
the loop of the innermost emission. -/
inductive EmitAction
  | connect (callback : ℕ)
  | disconnect (callback : ℕ)
  | emit
  | advance
  deriving DecidableEq, Repr

namespace Emitter

variable (s : Emitter)

/-- The numbers of the nodes in the list. -/
def ids : List ℕ := s.nodes.map Prod.fst

/-- `callbacks.push_back` of `Signal::connect`; an iterator at the end stays there. -/
def connect (callback : ℕ) : Emitter where
  nodes := s.nodes ++ [(s.created, callback)]
  created := s.created + 1
  running := s.running

/-- `callbacks.remove` of `Signal::disconnect` -/
def disconnect (callback : ℕ) : Emitter :=
  { s with nodes := s.nodes.filter fun node => node.2 ≠ callback }

/-- `Signal::emit` before its loop. -/
def begin : Emitter :=
  { s with running := { it := s.ids.head?, begun := s.ids, seen := s.ids } :: s.running }

/-- The loop of `Signal::emit`, up to the next call or to its end. -/
def advance : Option Emitter :=
  match s.running with
  | [] => some s
  | e :: outer =>
    match e.it with
    | none => some { s with running := outer }
    | some i =>
      match s.ids.dropWhile (· ≠ i) with
      | [] => none
      | node :: rest =>
        let e := { e with it := rest.head?, called := e.called ++ [node], seen := s.ids }
        some { s with running := e :: outer }

/-- One action. -/
def step : EmitAction → Option Emitter
  | .connect callback => some (s.connect callback)
  | .disconnect callback => some (s.disconnect callback)
  | .emit => s.begin.advance
  | .advance => s.advance

/-- No callback at which an iterator stands is disconnected. -/
def Spares : EmitAction → Prop
  | .disconnect callback => ∀ e ∈ s.running, ∀ i ∈ e.it, (i, callback) ∉ s.nodes
  | _ => True

instance : DecidablePred s.Spares
  | .disconnect callback =>
    inferInstanceAs (Decidable (∀ e ∈ s.running, ∀ i ∈ e.it, (i, callback) ∉ s.nodes))
  | .connect _ | .emit | .advance => inferInstanceAs (Decidable True)

end Emitter

/-- A signal from its construction on. -/
def emitter : Machine Emitter EmitAction where
  initial s := s = {}
  step := Emitter.step

/-- Where an emission stands in the list and what it has called, with `created` nodes ever made. -/
structure Emission.InOrder (e : Emission) (ids : List ℕ) (created : ℕ) : Prop where
  ordered : e.called.Pairwise (· < ·)
  known : ∀ n, n ∈ e.called ∨ n ∈ e.begun ∨ n ∈ e.seen → n < created
  standing : ∀ i ∈ e.it, i < created ∧ (∀ n ∈ e.called, n < i) ∧ ∀ n ∈ ids, n ∈ e.called ↔ n < i
  ended : e.it = none → ∀ n ∈ ids, n ∈ e.called ↔ n ∈ e.seen
  kept : ∀ n ∈ ids, n ∈ e.begun → n ∈ e.seen

namespace Emitter

variable {s t : Emitter}

/-- The nodes of the list stand in the order of their creation, and every emission is in order. -/
structure InOrder (s : Emitter) : Prop where
  sorted : s.ids.Pairwise (· < ·)
  fresh : ∀ i ∈ s.ids, i < s.created
  emissions : ∀ e ∈ s.running, e.InOrder s.ids s.created

/-- Every iterator stands at a node of the list or at its end. -/
def Valid (s : Emitter) : Prop := ∀ e ∈ s.running, ∀ i ∈ e.it, i ∈ s.ids

/-- An iterator of a node that was erased. -/
def Dangling (s : Emitter) : Prop := ∃ e ∈ s.running, ∃ i ∈ e.it, i ∉ s.ids

/-! ## What the steps do to the list of nodes -/

/-- A connected callback gets a new node at the end. -/
@[simp] theorem ids_connect (callback : ℕ) : (s.connect callback).ids = s.ids ++ [s.created] := by
  simp [ids, connect]

/-- Disconnecting keeps the order of the nodes that stay. -/
theorem ids_disconnect_sublist (callback : ℕ) : (s.disconnect callback).ids.Sublist s.ids :=
  List.filter_sublist.map Prod.fst

/-- A loop step that is defined finds nothing to do, ends an emission, or calls the node of an iterator
that is valid. -/
theorem advance_cases (h : s.advance = some t) :
    (s.running = [] ∧ t = s) ∨
    (∃ e outer, s.running = e :: outer ∧ e.it = none ∧ t = { s with running := outer }) ∨
    ∃ e outer i before after, s.running = e :: outer ∧ e.it = some i ∧
      s.ids = before ++ i :: after ∧
      t = { s with running := { e with it := after.head?, called := e.called ++ [i], seen := s.ids } ::
        outer } := by
  unfold advance at h
  split at h
  · exact .inl ⟨by assumption, (Option.some.inj h).symm⟩
  · rename_i e outer hrunning
    split at h
    · exact .inr (.inl ⟨e, outer, hrunning, by assumption, (Option.some.inj h).symm⟩)
    · rename_i i hit
      split at h
      · cases h
      · rename_i node rest hdrop
        have hsplit := List.takeWhile_append_dropWhile (p := (· ≠ i)) (l := s.ids)
        rw [hdrop] at hsplit
        have hhead := List.head?_dropWhile_not (fun n => decide (n ≠ i)) s.ids
        rw [hdrop] at hhead
        have hnode : node = i := not_not.mp (of_decide_eq_false hhead)
        exact .inr (.inr ⟨e, outer, i, _, rest, hrunning, hit, by rw [← hnode]; exact hsplit.symm,
          by rw [← hnode]; exact (Option.some.inj h).symm⟩)

/-- The iterator of the innermost emission moves on to the next node of the list. -/
theorem advance_of_split {e : Emission} {outer : List Emission} {i : ℕ} {before after : List ℕ}
    (hrunning : s.running = e :: outer) (hit : e.it = some i) (hids : s.ids = before ++ i :: after)
    (hbefore : i ∉ before) : s.advance = some { s with
      running := { e with it := after.head?, called := e.called ++ [i], seen := s.ids } :: outer } := by
  have hpass : ∀ a ∈ before, decide (a ≠ i) = true :=
    fun a ha => decide_eq_true fun hai => hbefore (hai ▸ ha)
  have hdrop : s.ids.dropWhile (· ≠ i) = i :: after := by
    rw [hids, List.dropWhile_append_of_pos hpass, List.dropWhile_cons_of_neg (by simp)]
  simp only [advance, hrunning, hit, hdrop]

/-- A loop step through the iterator of an erased node is undefined. -/
theorem advance_of_notMem {e : Emission} {outer : List Emission} {i : ℕ}
    (hrunning : s.running = e :: outer) (hit : e.it = some i) (hi : i ∉ s.ids) :
    s.advance = none := by
  have hdrop : s.ids.dropWhile (· ≠ i) = [] :=
    List.dropWhile_eq_nil_iff.mpr fun n hn => decide_eq_true fun hni => hi (hni ▸ hn)
  simp only [advance, hrunning, hit, hdrop]

/-! ## Every emission stays in order -/

end Emitter

namespace Emission.InOrder

variable {e : Emission} {ids : List ℕ} {created : ℕ}

/-- Erasing nodes keeps an emission in order. -/
theorem mono (he : e.InOrder ids created) {ids' : List ℕ} (h : ids' ⊆ ids) :
    e.InOrder ids' created where
  ordered := he.ordered
  known := he.known
  standing i hi :=
    have ⟨hcreated, hcalled, hiff⟩ := he.standing i hi
    ⟨hcreated, hcalled, fun n hn => hiff n (h hn)⟩
  ended hit n hn := he.ended hit n (h hn)
  kept n hn := he.kept n (h hn)

/-- A new node stands behind all iterators, and before those that are at the end already. -/
theorem push (he : e.InOrder ids created) : e.InOrder (ids ++ [created]) (created + 1) where
  ordered := he.ordered
  known n hn := Nat.lt_succ_of_lt (he.known n hn)
  standing i hi := by
    obtain ⟨hcreated, hcalled, hiff⟩ := he.standing i hi
    refine ⟨Nat.lt_succ_of_lt hcreated, hcalled, fun n hn => ?_⟩
    rcases List.mem_append.mp hn with hn | hn
    · exact hiff n hn
    · obtain rfl := List.mem_singleton.mp hn
      exact ⟨fun hc => absurd (he.known n (.inl hc)) (by omega), fun hlt => by omega⟩
  ended hit n hn := by
    rcases List.mem_append.mp hn with hn | hn
    · exact he.ended hit n hn
    · obtain rfl := List.mem_singleton.mp hn
      exact ⟨fun hc => absurd (he.known n (.inl hc)) (by omega),
        fun hseen => absurd (he.known n (.inr (.inr hseen))) (by omega)⟩
  kept n hn hbegun := by
    rcases List.mem_append.mp hn with hn | hn
    · exact he.kept n hn hbegun
    · obtain rfl := List.mem_singleton.mp hn
      exact absurd (he.known n (.inr (.inl hbegun))) (by omega)

/-- An emission begins at the first node. -/
theorem start (hsorted : ids.Pairwise (· < ·)) (hfresh : ∀ i ∈ ids, i < created) :
    Emission.InOrder { it := ids.head?, begun := ids, seen := ids } ids created where
  ordered := .nil
  known n hn := by
    rcases hn with hn | hn | hn
    · cases hn
    · exact hfresh n hn
    · exact hfresh n hn
  standing i hi := by
    refine ⟨hfresh i (List.mem_of_mem_head? hi), fun n hn => absurd hn List.not_mem_nil, fun n hn => ?_⟩
    have hle : i ≤ n := by
      cases ids with
      | nil => cases hn
      | cons j rest =>
        obtain rfl : j = i := by simpa using hi
        rcases List.mem_cons.mp hn with rfl | hn
        · exact Nat.le_refl n
        · exact Nat.le_of_lt (List.rel_of_pairwise_cons hsorted hn)
    exact ⟨fun hc => absurd hc List.not_mem_nil, fun hlt => by omega⟩
  ended hit n hn := by
    obtain rfl := List.head?_eq_none_iff.mp hit
    cases hn
  kept n hn _ := hn

/-- Calling the node of the iterator and moving on keeps an emission in order. -/
theorem move (he : e.InOrder ids created) {i : ℕ} {before after : List ℕ} (hit : e.it = some i)
    (hids : ids = before ++ i :: after) (hsorted : ids.Pairwise (· < ·))
    (hfresh : ∀ n ∈ ids, n < created) :
    Emission.InOrder { e with it := after.head?, called := e.called ++ [i], seen := ids } ids
      created := by
  obtain ⟨-, hcalled, hiff⟩ := he.standing i hit
  obtain ⟨-, hafter, hacross⟩ := List.pairwise_append.mp (hids ▸ hsorted)
  have hbefore : ∀ n ∈ before, n < i := fun n hn => hacross n hn i List.mem_cons_self
  have hbehind : ∀ n ∈ after, i < n := fun n hn => List.rel_of_pairwise_cons hafter hn
  have hmem : ∀ n ∈ ids, n ∈ e.called ++ [i] ↔ n ∉ after := by
    intro n hn
    have hin : n ∈ before ++ i :: after := hids ▸ hn
    rw [List.mem_append, List.mem_singleton, hiff n hn]
    constructor
    · intro hle hna
      have := hbehind n hna
      omega
    · intro hna
      rcases List.mem_append.mp hin with hb | hb
      · exact .inl (hbefore n hb)
      · exact .inr ((List.mem_cons.mp hb).resolve_right hna)
  exact {
    ordered := List.pairwise_append.mpr ⟨he.ordered, List.pairwise_singleton _ _,
      fun n hn m hm => by rw [List.mem_singleton.mp hm]; exact hcalled n hn⟩
    known := by
      rintro n (hn | hn | hn)
      · rcases List.mem_append.mp hn with hn | hn
        · exact he.known n (.inl hn)
        · exact hfresh n (by rw [List.mem_singleton.mp hn, hids]; simp)
      · exact he.known n (.inr (.inl hn))
      · exact hfresh n hn
    standing := by
      intro j hj
      obtain ⟨rest, rfl⟩ : ∃ rest, after = j :: rest := List.head?_eq_some_iff.mp hj
      have hij : i < j := hbehind j List.mem_cons_self
      refine ⟨hfresh j (by simp [hids]), fun n hn => ?_, fun n hn => ?_⟩
      · rcases List.mem_append.mp hn with hn | hn
        · exact Nat.lt_trans (hcalled n hn) hij
        · rw [List.mem_singleton.mp hn]; exact hij
      · rw [hmem n hn]
        constructor
        · intro hna
          have hin : n ∈ before ++ i :: j :: rest := hids ▸ hn
          rcases List.mem_append.mp hin with hb | hb
          · exact Nat.lt_trans (hbefore n hb) hij
          · rw [(List.mem_cons.mp hb).resolve_right hna]; exact hij
        · intro hlt hna
          rcases List.mem_cons.mp hna with rfl | hna
          · omega
          · have := List.rel_of_pairwise_cons (List.Pairwise.of_cons hafter) hna
            omega
    ended := by
      intro hnone n hn
      obtain rfl := List.head?_eq_none_iff.mp hnone
      exact ⟨fun _ => hn, fun _ => (hmem n hn).mpr List.not_mem_nil⟩
    kept := fun n hn _ => hn }

end Emission.InOrder

namespace Emitter

variable {s t : Emitter}

/-- A new node is the last one. -/
theorem InOrder.connect (hs : s.InOrder) (callback : ℕ) : (s.connect callback).InOrder where
  sorted := by
    rw [ids_connect]
    exact List.pairwise_append.mpr ⟨hs.sorted, List.pairwise_singleton _ _,
      fun n hn m hm => by rw [List.mem_singleton.mp hm]; exact hs.fresh n hn⟩
  fresh i hi := by
    rw [ids_connect] at hi
    change i < s.created + 1
    rcases List.mem_append.mp hi with hi | hi
    · exact Nat.lt_succ_of_lt (hs.fresh i hi)
    · rw [List.mem_singleton.mp hi]; exact Nat.lt_succ_self _
  emissions e he := by
    rw [ids_connect]
    exact (hs.emissions e he).push

/-- Erasing callbacks keeps the order of the others. -/
theorem InOrder.disconnect (hs : s.InOrder) (callback : ℕ) : (s.disconnect callback).InOrder where
  sorted := hs.sorted.sublist (ids_disconnect_sublist callback)
  fresh i hi := hs.fresh i ((ids_disconnect_sublist callback).subset hi)
  emissions e he := (hs.emissions e he).mono (ids_disconnect_sublist callback).subset

/-- A new emission has called nothing. -/
theorem InOrder.begin (hs : s.InOrder) : s.begin.InOrder where
  sorted := hs.sorted
  fresh := hs.fresh
  emissions e he := by
    rcases List.mem_cons.mp he with rfl | he
    · exact .start hs.sorted hs.fresh
    · exact hs.emissions e he

/-- A loop step calls what comes next. -/
theorem InOrder.advance (hs : s.InOrder) (h : s.advance = some t) : t.InOrder := by
  rcases advance_cases h with ⟨-, rfl⟩ | ⟨e, outer, hrunning, -, rfl⟩ |
    ⟨e, outer, i, before, after, hrunning, hit, hids, rfl⟩
  · exact hs
  · exact ⟨hs.sorted, hs.fresh, fun e' he' => hs.emissions e' (hrunning ▸ List.mem_cons_of_mem e he')⟩
  · refine ⟨hs.sorted, hs.fresh, fun e' he' => ?_⟩
    rcases List.mem_cons.mp he' with rfl | he'
    · exact (hs.emissions e (hrunning ▸ List.mem_cons_self)).move hit hids hs.sorted hs.fresh
    · exact hs.emissions e' (hrunning ▸ List.mem_cons_of_mem e he')

/-- Every action keeps the nodes and the emissions in order. -/
theorem InOrder.step (hs : s.InOrder) {a : EmitAction} (h : s.step a = some t) : t.InOrder := by
  cases a with
  | connect callback => exact Option.some.inj h ▸ hs.connect callback
  | disconnect callback => exact Option.some.inj h ▸ hs.disconnect callback
  | emit => exact hs.begin.advance h
  | advance => exact hs.advance h

/-- At the start there is nothing to call. -/
theorem inOrder_initial : ({} : Emitter).InOrder :=
  ⟨.nil, fun _ hi => absurd hi List.not_mem_nil, fun _ he => absurd he List.not_mem_nil⟩

/-- So all emissions call in order in every run. -/
theorem inOrder_of_reachable (hs : emitter.Reachable s) : s.InOrder :=
  hs.invariant (fun _ h => h ▸ inOrder_initial) fun _ _ _ _ h ht => h.step ht

/-- In every state of every run, however the callbacks connect, disconnect and emit: each emission,
those that wait for an inner one too, has called callbacks in the order in which they were connected,
none twice. Once it is at the end, those of the callbacks still connected which it called are those
that were in the list when the last call began, with them all that were there when it began itself. -/
theorem emission_complete (hs : emitter.Reachable s) {e : Emission} (he : e ∈ s.running) :
    e.called.Pairwise (· < ·) ∧
      (e.it = none → ∀ n ∈ s.ids, (n ∈ e.called ↔ n ∈ e.seen) ∧ (n ∈ e.begun → n ∈ e.called)) := by
  have hin := (inOrder_of_reachable hs).emissions e he
  refine ⟨hin.ordered, fun hit n hn => ⟨hin.ended hit n hn, fun hbegun => ?_⟩⟩
  exact (hin.ended hit n hn).mpr (hin.kept n hn hbegun)

/-- A callback connects another one, disconnects itself and emits; the inner emission has come to its
end inside the new callback, the outer one waits before the second. -/
def nestedRun : List EmitAction :=
  [.connect 1, .connect 2, .emit, .connect 3, .disconnect 1, .emit, .advance]

/-- A run with an emission in an emission. -/
theorem emission_complete_nestedRun :
    ∃ s, emitter.run {} nestedRun = some s ∧ ∃ e ∈ s.running, e.it = none ∧
      e.called.Pairwise (· < ·) ∧
      (e.it = none → ∀ n ∈ s.ids, (n ∈ e.called ↔ n ∈ e.seen) ∧ (n ∈ e.begun → n ∈ e.called)) :=
  ⟨_, rfl, ⟨none, [1, 2], [1, 2], [1, 2]⟩, by decide, rfl,
    emission_complete (s := ⟨[(1, 2), (2, 3)], 3, _⟩)
      (Machine.Reachable.run (Machine.ReachableVia.initial rfl)
        (rfl : emitter.run {} nestedRun = some _)) (by decide)⟩

/-! ## Iterators of erased nodes -/

/-- A node stands once in the list. -/
theorem InOrder.notMem_before (hs : s.InOrder) {before after : List ℕ} {i : ℕ}
    (hids : s.ids = before ++ i :: after) : i ∉ before := fun hi =>
  Nat.lt_irrefl i ((List.pairwise_append.mp (hids ▸ hs.sorted)).2.2 i hi i List.mem_cons_self)

/-- Either all iterators are valid or one is not. -/
theorem not_valid_iff : ¬ s.Valid ↔ s.Dangling := by
  simp only [Valid, Dangling, not_forall, exists_prop]

/-- A node that holds a callback is erased with it. -/
theorem InOrder.notMem_disconnect (hs : s.InOrder) {i callback : ℕ} (h : (i, callback) ∈ s.nodes) :
    i ∉ (s.disconnect callback).ids := by
  intro hi
  obtain ⟨⟨j, other⟩, hother, rfl⟩ := List.mem_map.mp hi
  obtain ⟨hmem, hne⟩ := List.mem_filter.mp hother
  have hnodup : s.ids.Nodup := hs.sorted.imp Nat.ne_of_lt
  have heq : (j, other) = (j, callback) := List.inj_on_of_nodup_map hnodup hmem h rfl
  simp only [Prod.mk.injEq, true_and] at heq
  simp [heq] at hne

/-- Iterators stay valid exactly if the callbacks at which they stand are spared. -/
theorem InOrder.valid_disconnect_iff (hs : s.InOrder) (hvalid : s.Valid) (callback : ℕ) :
    (s.disconnect callback).Valid ↔ s.Spares (.disconnect callback) := by
  constructor
  · intro hkept e he i hi hmem
    exact hs.notMem_disconnect hmem (hkept e he i hi)
  · intro hspares e he i hi
    obtain ⟨⟨j, other⟩, hnode, rfl⟩ := List.mem_map.mp (hvalid e he i hi)
    refine List.mem_map.mpr ⟨(j, other), List.mem_filter.mpr ⟨hnode, ?_⟩, rfl⟩
    have hne : other ≠ callback := fun heq => hspares e he j hi (heq ▸ hnode)
    simpa using hne

/-- Connecting leaves iterators valid. -/
theorem Valid.connect (hvalid : s.Valid) (callback : ℕ) : (s.connect callback).Valid := by
  intro e he i hi
  rw [ids_connect]
  exact List.mem_append_left _ (hvalid e he i hi)

/-- A new emission starts at a node of the list. -/
theorem Valid.begin (hvalid : s.Valid) : s.begin.Valid := by
  intro e he i hi
  rcases List.mem_cons.mp he with rfl | he
  · exact List.mem_of_mem_head? hi
  · exact hvalid e he i hi

/-- With valid iterators the loop goes on, and they stay valid. -/
theorem InOrder.valid_advance (hs : s.InOrder) (hvalid : s.Valid) :
    ∃ t, s.advance = some t ∧ t.Valid := by
  have hdefined : ∃ t, s.advance = some t := by
    cases hrunning : s.running with
    | nil => exact ⟨s, by simp only [Emitter.advance, hrunning]⟩
    | cons e outer =>
      cases hit : e.it with
      | none => exact ⟨_, by simp only [Emitter.advance, hrunning, hit]; rfl⟩
      | some i =>
        have hi : i ∈ s.ids := hvalid e (hrunning ▸ List.mem_cons_self) i hit
        obtain ⟨before, after, hids⟩ := List.append_of_mem hi
        exact ⟨_, advance_of_split hrunning hit hids (hs.notMem_before hids)⟩
  obtain ⟨t, ht⟩ := hdefined
  refine ⟨t, ht, ?_⟩
  rcases advance_cases ht with ⟨-, rfl⟩ | ⟨e, outer, hrunning, -, rfl⟩ |
    ⟨e, outer, i, before, after, hrunning, -, hids, rfl⟩
  · exact hvalid
  · exact fun e' he' => hvalid e' (hrunning ▸ List.mem_cons_of_mem e he')
  · intro e' he' j hj
    rcases List.mem_cons.mp he' with rfl | he'
    · have hafter : j ∈ after := List.mem_of_mem_head? hj
      change j ∈ s.ids
      rw [hids]
      exact List.mem_append_right _ (List.mem_cons_of_mem i hafter)
    · exact hvalid e' (hrunning ▸ List.mem_cons_of_mem e he') j hj

/-- An action that spares the iterators is defined and keeps them valid. -/
theorem InOrder.valid_step (hs : s.InOrder) (hvalid : s.Valid) {a : EmitAction} (ha : s.Spares a) :
    ∃ t, s.step a = some t ∧ t.Valid := by
  cases a with
  | connect callback => exact ⟨_, rfl, hvalid.connect callback⟩
  | disconnect callback => exact ⟨_, rfl, (hs.valid_disconnect_iff hvalid callback).mpr ha⟩
  | emit => exact hs.begin.valid_advance hvalid.begin
  | advance => exact hs.valid_advance hvalid

/-- The iterator of an erased node is never mended: numbers are not used again. -/
theorem InOrder.dangling_step (hs : s.InOrder) (hdangling : s.Dangling) {a : EmitAction}
    (h : s.step a = some t) : t.Dangling := by
  have hloop : ∀ u : Emitter, u.Dangling → u.advance = some t → t.Dangling := by
    rintro u ⟨e, he, i, hi, hnot⟩ hu
    rcases advance_cases hu with ⟨-, rfl⟩ | ⟨top, outer, hrunning, hit, rfl⟩ |
      ⟨top, outer, j, before, after, hrunning, hit, hids, rfl⟩
    · exact ⟨e, he, i, hi, hnot⟩
    · rcases List.mem_cons.mp (hrunning ▸ he) with rfl | he
      · rw [hit] at hi
        cases hi
      · exact ⟨e, he, i, hi, hnot⟩
    · rcases List.mem_cons.mp (hrunning ▸ he) with rfl | he
      · obtain rfl := Option.some.inj (hit.symm.trans hi)
        exact absurd (by rw [hids]; simp) hnot
      · exact ⟨e, List.mem_cons_of_mem _ he, i, hi, hnot⟩
  obtain ⟨e, he, i, hi, hnot⟩ := hdangling
  cases a with
  | connect callback =>
    have hlt := ((hs.emissions e he).standing i hi).1
    obtain rfl := Option.some.inj h
    refine ⟨e, he, i, hi, ?_⟩
    rw [ids_connect, List.mem_append, List.mem_singleton]
    rintro (hin | rfl)
    · exact hnot hin
    · exact Nat.lt_irrefl _ hlt
  | disconnect callback =>
    obtain rfl := Option.some.inj h
    exact ⟨e, he, i, hi, fun hin => hnot ((ids_disconnect_sublist callback).subset hin)⟩
  | emit => exact hloop s.begin ⟨e, List.mem_cons_of_mem _ he, i, hi, hnot⟩ h
  | advance => exact hloop s ⟨e, he, i, hi, hnot⟩ h

/-- Loop steps follow one another. -/
theorem run_advance (s : Emitter) (n : ℕ) : emitter.run s (List.replicate (n + 1) .advance) =
    s.advance.bind fun t => emitter.run t (List.replicate n .advance) := rfl

/-- If no callback does anything, an emission with a valid iterator returns. The induction is on the
part of the list behind the iterator. -/
theorem InOrder.advance_returns {before after : List ℕ} {i : ℕ} {e : Emission}
    {outer : List Emission} (hs : s.InOrder) (hrunning : s.running = e :: outer)
    (hit : e.it = some i) (hids : s.ids = before ++ i :: after) : ∃ n,
    emitter.run s (List.replicate n .advance) = some { s with running := outer } := by
  have hfirst := advance_of_split hrunning hit hids (hs.notMem_before hids)
  induction after generalizing s e i before with
  | nil =>
    refine ⟨2, ?_⟩
    rw [run_advance, hfirst]
    rfl
  | cons j rest ih =>
    have hnext := hs.advance hfirst
    have hids' : s.ids = (before ++ [i]) ++ j :: rest := by rw [List.append_assoc]; exact hids
    obtain ⟨n, hn⟩ := ih hnext rfl rfl hids'
      (advance_of_split rfl rfl hids' (hnext.notMem_before hids'))
    refine ⟨n + 1, ?_⟩
    rw [run_advance, hfirst]
    exact hn

/-- If no callback does anything from now on, the iterator of an erased node is used. -/
theorem InOrder.dangling_used (hs : s.InOrder) (hdangling : s.Dangling) :
    ∃ n, emitter.run s (List.replicate n .advance) = none := by
  obtain ⟨e, he, i, hi, hnot⟩ := hdangling
  generalize hrunning : s.running = running at he
  induction running generalizing s with
  | nil => cases he
  | cons top outer ih =>
    -- the emissions inside return first
    have hreturn : (∃ n, emitter.run s (List.replicate n .advance) = none) ∨
        ∃ n, emitter.run s (List.replicate n .advance) = some { s with running := outer } := by
      cases hit : top.it with
      | none =>
        refine .inr ⟨1, ?_⟩
        simp only [run_advance, Emitter.advance, hrunning, hit, Option.bind_some]
        rfl
      | some j =>
        by_cases hj : j ∈ s.ids
        · obtain ⟨before, after, hids⟩ := List.append_of_mem hj
          exact .inr (hs.advance_returns hrunning hit hids)
        · refine .inl ⟨1, ?_⟩
          rw [run_advance, advance_of_notMem hrunning hit hj, Option.bind_none]
    rcases List.mem_cons.mp he with rfl | he
    · refine ⟨1, ?_⟩
      rw [run_advance, advance_of_notMem hrunning hi hnot, Option.bind_none]
    · obtain hused | ⟨n, hn⟩ := hreturn
      · exact hused
      · have hnext : InOrder { s with running := outer } := ⟨hs.sorted, hs.fresh,
          fun e' he' => hs.emissions e' (hrunning ▸ List.mem_cons_of_mem top he')⟩
        obtain ⟨m, hm⟩ := ih hnext hnot rfl he
        exact ⟨n + m, by rw [List.replicate_add, Machine.run_append, hn]; exact hm⟩

/-- Exactly the runs that disconnect no callback at which the iterator of a running emission stands
are defined, together with all the calls that are left when the callbacks do nothing more. In them a
callback may disconnect itself while it is called, unless an outer emission stands at it. -/
theorem emission_defined_iff (as : List EmitAction) :
    (∀ n, (emitter.run {} (as ++ List.replicate n .advance)).isSome) ↔ emitter.Along Spares {} as := by
  have hlater : ∀ n s, emitter.Along Spares s (List.replicate n .advance) := fun n s =>
    Machine.along_of_forall (fun a ha _ => by rw [List.eq_of_mem_replicate ha]; trivial) s
  have hfail : ∀ s, s.InOrder ∧ s.Dangling → ∃ n,
      ¬ emitter.Along (fun s a => (s.step a).isSome) s (List.replicate n .advance) := by
    rintro s ⟨hs, hdangling⟩
    obtain ⟨n, hn⟩ := hs.dangling_used hdangling
    exact ⟨n, fun hall => by simpa [hn] using Machine.along_isSome_iff.mp hall⟩
  have hexact := Machine.along_continued_iff (M := emitter) (fun s => s.InOrder ∧ s.Valid)
    (fun s => s.InOrder ∧ s.Dangling) hlater
    (fun s a hs ha => by
      obtain ⟨t, ht, -⟩ := hs.1.valid_step hs.2 ha
      exact ht ▸ rfl)
    (fun s a hs ha => by
      obtain ⟨t, ht, hvalid⟩ := hs.1.valid_step hs.2 ha
      exact ⟨t, ht, hs.1.step ht, hvalid⟩)
    (fun s a hs ha => by
      cases a with
      | disconnect callback =>
        have hnot := mt (hs.1.valid_disconnect_iff hs.2 callback).mp ha
        exact ⟨_, rfl, hs.1.disconnect callback, not_valid_iff.mp hnot⟩
      | connect | emit | advance => exact absurd trivial ha)
    (fun s a hs ha => by
      obtain ⟨t, ht⟩ := Option.isSome_iff_exists.mp ha
      exact ⟨t, ht, hs.1.step ht, hs.1.dangling_step hs.2 ht⟩)
    hfail ⟨inOrder_initial, fun _ he => absurd he List.not_mem_nil⟩ as
  rw [← hexact]
  exact forall_congr' fun n => Machine.along_isSome_iff.symm

/-- A callback that is called may disconnect itself, but not the one behind it. -/
example : emitter.Along Spares {} [.connect 1, .connect 2, .emit, .disconnect 1, .advance] ∧
    ¬ emitter.Along Spares {} [.connect 1, .connect 2, .emit, .disconnect 2, .advance] := by
  decide

end Emitter

end Multicrew.Core
