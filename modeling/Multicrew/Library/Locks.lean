import Mathlib.Data.Fintype.Basic
import Multicrew.Library.Machine

/-!
# Recursive locks and deadlock

Threads run functions; what matters of a function is the sequence of locks it enters and leaves.
A lock may be entered again by the thread that holds it. Two threads are deadlocked when each is
about to enter a lock the other one holds.

A function nests a lock in another when it may enter the one while it holds the other. A deadlock
needs two functions that nest the same two locks in opposite ways.
-/

namespace Multicrew.Library

/-- One `EnterCriticalSection` or `LeaveCriticalSection`. -/
inductive LockOp (κ : Type*)
  | enter (lock : κ)
  | leave (lock : κ)
  deriving DecidableEq, Repr

namespace LockOp

variable {κ : Type*} [DecidableEq κ]

/-- The operations of a block that runs inside a lock. -/
def within (lock : κ) (ops : List (LockOp κ)) : List (LockOp κ) :=
  enter lock :: (ops ++ [leave lock])

/-- The locks held after some operations, one entry for each time a lock was entered. -/
def after (held : List κ) : List (LockOp κ) → List κ
  | [] => held
  | enter lock :: rest => after (lock :: held) rest
  | leave lock :: rest => after (held.erase lock) rest

/-- Every lock is entered again, or is nested in each lock held, as a relation allows. -/
def Nested (nests : κ → κ → Prop) (held : List κ) : List (LockOp κ) → Prop
  | [] => True
  | enter lock :: rest =>
    (lock ∈ held ∨ ∀ outer ∈ held, nests outer lock) ∧ Nested nests (lock :: held) rest
  | leave lock :: rest => Nested nests (held.erase lock) rest

/-- Operations that leave what they enter. -/
def Balanced (ops : List (LockOp κ)) : Prop := ∀ held : List κ, after held ops = held

/-- The held locks after two stretches of operations. -/
theorem after_append (held : List κ) (a b : List (LockOp κ)) :
    after held (a ++ b) = after (after held a) b := by
  induction a generalizing held with
  | nil => rfl
  | cons op rest ih => cases op with
    | enter lock => exact ih (lock :: held)
    | leave lock => exact ih (held.erase lock)

/-- Nothing is balanced. -/
theorem balanced_nil : Balanced ([] : List (LockOp κ)) := fun _ => rfl

/-- One balanced part after another. -/
theorem Balanced.append {a b : List (LockOp κ)} (ha : Balanced a) (hb : Balanced b) :
    Balanced (a ++ b) := by
  intro held
  rw [after_append, ha, hb]

/-- A block inside a lock is balanced if its body is. -/
theorem Balanced.within {ops : List (LockOp κ)} (h : Balanced ops) (lock : κ) :
    Balanced (LockOp.within lock ops) := by
  intro held
  simp only [LockOp.within, after, after_append, h (lock :: held), List.erase_cons_head]

/-- One for every element. -/
theorem Balanced.flatMap {α : Type*} {l : List α} {f : α → List (LockOp κ)}
    (h : ∀ a ∈ l, Balanced (f a)) : Balanced (l.flatMap f) := by
  induction l with
  | nil => exact balanced_nil
  | cons a rest ih =>
    rw [List.flatMap_cons]
    exact (h a List.mem_cons_self).append (ih fun b hb => h b (List.mem_cons_of_mem a hb))

/-- One or another. -/
theorem Balanced.ite {c : Prop} [Decidable c] {a b : List (LockOp κ)} (ha : Balanced a)
    (hb : Balanced b) : Balanced (if c then a else b) := by
  split
  · exact ha
  · exact hb

omit [DecidableEq κ] in
/-- What a block inside a lock enters. -/
theorem enter_mem_within {ops : List (LockOp κ)} {lock l : κ} (h : enter l ∈ within lock ops) :
    l = lock ∨ enter l ∈ ops := by
  simpa [within] using h

omit [DecidableEq κ] in
/-- What runs over a list up to its first member with a property. -/
theorem flatMap_first {α : Type*} {P : α → Prop} {l : List α} (f : α → List (LockOp κ))
    (h : ∃ a ∈ l, P a) :
    ∃ (a : α) (before after : List α),
      l.flatMap f = before.flatMap f ++ (f a ++ after.flatMap f) ∧ P a ∧ ∀ b ∈ before, ¬ P b := by
  classical
  have hfind : (l.find? (P ·)).isSome := by simpa using h
  obtain ⟨a, ha⟩ := Option.isSome_iff_exists.mp hfind
  obtain ⟨hP, before, after, rfl, hbefore⟩ := List.find?_eq_some_iff_append.mp ha
  refine ⟨a, before, after, ?_, by simpa using hP, fun b hb => by simpa using hbefore b hb⟩
  rw [List.flatMap_append, List.flatMap_cons]

variable {nests : κ → κ → Prop} {held : List κ}

/-- Nothing is nested. -/
theorem nested_nil : Nested nests held [] := trivial

/-- One nested part after another that leaves every lock. -/
theorem Nested.append {a b : List (LockOp κ)} (hbalanced : Balanced a)
    (ha : Nested nests held a) (hb : Nested nests held b) : Nested nests held (a ++ b) := by
  have hgoal : ∀ held', after held' a = held → Nested nests held' a →
      Nested nests held' (a ++ b) := by
    clear ha hbalanced
    induction a with
    | nil =>
      intro held' hafter _
      exact (show held' = held from hafter) ▸ hb
    | cons op rest ih =>
      intro held' hafter hnested
      cases op with
      | enter lock => exact ⟨hnested.1, ih (lock :: held') hafter hnested.2⟩
      | leave lock => exact ih (held'.erase lock) hafter hnested
  exact hgoal held (hbalanced held) ha

/-- A block inside a lock that may be entered here. -/
theorem Nested.within {ops : List (LockOp κ)} {lock : κ} (hbalanced : Balanced ops)
    (hlock : lock ∈ held ∨ ∀ outer ∈ held, nests outer lock)
    (hops : Nested nests (lock :: held) ops) : Nested nests held (LockOp.within lock ops) :=
  ⟨hlock, hops.append hbalanced trivial⟩

/-- One for every element. -/
theorem Nested.flatMap {α : Type*} {l : List α} {f : α → List (LockOp κ)}
    (hbalanced : ∀ a ∈ l, Balanced (f a)) (h : ∀ a ∈ l, Nested nests held (f a)) :
    Nested nests held (l.flatMap f) := by
  induction l with
  | nil => exact nested_nil
  | cons a rest ih =>
    rw [List.flatMap_cons]
    exact (h a List.mem_cons_self).append (hbalanced a List.mem_cons_self)
      (ih (fun b hb => hbalanced b (List.mem_cons_of_mem a hb))
        fun b hb => h b (List.mem_cons_of_mem a hb))

/-- One or another. -/
theorem Nested.ite {c : Prop} [Decidable c] {a b : List (LockOp κ)} (ha : Nested nests held a)
    (hb : Nested nests held b) : Nested nests held (if c then a else b) := by
  split
  · exact ha
  · exact hb

end LockOp

/-- What a program of threads offers: the functions a thread may call and their operations. -/
structure Locking (τ κ φ : Type*) where
  offers : τ → φ → Bool
  body : φ → List (LockOp κ)

/-- The function a thread is in, with what is left of it, and the locks it holds. -/
structure LockState (τ κ φ : Type*) where
  running : τ → Option (φ × List (LockOp κ)) := fun _ => none
  held : τ → List κ := fun _ => []

/-- A thread calls a function, or goes on in the one it is in. -/
inductive LockAction (τ φ : Type*)
  | call (thread : τ) (function : φ)
  | go (thread : τ)

namespace LockState

variable {τ κ φ : Type*}

/-- A thread is about to enter a lock. -/
def Waits (s : LockState τ κ φ) (t : τ) (lock : κ) : Prop :=
  ∃ f rest, s.running t = some (f, .enter lock :: rest)

/-- A thread is in a function. -/
def Inside (s : LockState τ κ φ) (t : τ) (f : φ) : Prop := ∃ ops, s.running t = some (f, ops)

/-- Two threads each wait for a lock the other one holds. -/
def Deadlock (s : LockState τ κ φ) : Prop :=
  ∃ t u lock lock', t ≠ u ∧ s.Waits t lock ∧ lock ∈ s.held u ∧ s.Waits u lock' ∧ lock' ∈ s.held t

variable [DecidableEq τ] (s : LockState τ κ φ) {t u : τ}

/-- The state with another place and other locks for one thread. -/
def put (t : τ) (place : Option (φ × List (LockOp κ))) (locks : List κ) : LockState τ κ φ where
  running := Function.update s.running t place
  held := Function.update s.held t locks

variable (place : Option (φ × List (LockOp κ))) (locks : List κ)

/-- The thread is at its new place. -/
@[simp] theorem put_running_self : (s.put t place locks).running t = place :=
  Function.update_self ..

/-- It holds the new locks. -/
@[simp] theorem put_held_self : (s.put t place locks).held t = locks :=
  Function.update_self ..

/-- The last place and locks of a thread count. -/
theorem put_put (place' : Option (φ × List (LockOp κ))) (locks' : List κ) :
    (s.put t place locks).put t place' locks' = s.put t place' locks' := by
  simp only [put, Function.update_idem]

/-- The other threads stay where they are. -/
theorem put_running_of_ne (h : u ≠ t) : (s.put t place locks).running u = s.running u :=
  Function.update_of_ne h ..

/-- And hold what they held. -/
theorem put_held_of_ne (h : u ≠ t) : (s.put t place locks).held u = s.held u :=
  Function.update_of_ne h ..

end LockState

namespace Locking

variable {τ κ φ : Type*} [DecidableEq τ] [Fintype τ] [DecidableEq κ] (L : Locking τ κ φ)

/-- One step of one thread. Entering waits while another thread holds the lock. -/
def step (s : LockState τ κ φ) : LockAction τ φ → Option (LockState τ κ φ)
  | .call t f =>
    match s.running t with
    | none => if L.offers t f then some (s.put t (some (f, L.body f)) (s.held t)) else none
    | some _ => none
  | .go t =>
    match s.running t with
    | none => none
    | some (_, []) => some (s.put t none (s.held t))
    | some (f, .enter lock :: rest) =>
      if ∀ u, u ≠ t → lock ∉ s.held u then some (s.put t (some (f, rest)) (lock :: s.held t))
      else none
    | some (f, .leave lock :: rest) =>
      some (s.put t (some (f, rest)) ((s.held t).erase lock))

/-- Every thread is between two functions at first. -/
def machine : Machine (LockState τ κ φ) (LockAction τ φ) where
  initial s := s = {}
  step := L.step

variable {L} {s s' : LockState τ κ φ} {a : LockAction τ φ}

/-- What a step can be: a call, a return, an enter that is not blocked, or a leave. -/
theorem step_cases (h : L.step s a = some s') :
    (∃ t f, a = .call t f ∧ s.running t = none ∧ L.offers t f = true ∧
      s' = s.put t (some (f, L.body f)) (s.held t)) ∨
    (∃ t f, a = .go t ∧ s.running t = some (f, []) ∧ s' = s.put t none (s.held t)) ∨
    (∃ t f lock rest, a = .go t ∧ s.running t = some (f, .enter lock :: rest) ∧
      (∀ u, u ≠ t → lock ∉ s.held u) ∧ s' = s.put t (some (f, rest)) (lock :: s.held t)) ∨
    (∃ t f lock rest, a = .go t ∧ s.running t = some (f, .leave lock :: rest) ∧
      s' = s.put t (some (f, rest)) ((s.held t).erase lock)) := by
  cases a with
  | call t f =>
    simp only [step] at h
    split at h
    · split at h
      · exact .inl ⟨t, f, rfl, ‹_›, ‹_›, (Option.some.inj h).symm⟩
      · cases h
    · cases h
  | go t =>
    simp only [step] at h
    split at h
    · cases h
    · exact .inr (.inl ⟨t, _, rfl, ‹_›, (Option.some.inj h).symm⟩)
    · split at h
      · exact .inr (.inr (.inl ⟨t, _, _, _, rfl, ‹_›, ‹_›, (Option.some.inj h).symm⟩))
      · cases h
    · exact .inr (.inr (.inr ⟨t, _, _, _, rfl, ‹_›, (Option.some.inj h).symm⟩))

variable (L) in
/-- Every function leaves the locks it enters and nests locks only as a relation of its own
allows. -/
def Disciplined (nests : φ → κ → κ → Prop) : Prop :=
  ∀ t f, L.offers t f = true → LockOp.Balanced (L.body f) ∧ LockOp.Nested (nests f) [] (L.body f)

variable (L) in
/-- At most one thread holds a lock, and a thread holds what its function has entered so far. -/
structure Sound (nests : φ → κ → κ → Prop) (s : LockState τ κ φ) : Prop where
  exclusive : ∀ t u lock, lock ∈ s.held t → lock ∈ s.held u → t = u
  inside : ∀ t f ops, s.running t = some (f, ops) →
    L.offers t f = true ∧ LockOp.Nested (nests f) (s.held t) ops ∧
      LockOp.after (s.held t) ops = []
  outside : ∀ t, s.running t = none → s.held t = []

variable {nests : φ → κ → κ → Prop}

omit [Fintype τ] in
/-- Moving one thread keeps the locks sound if its new place fits its new locks, none of which
another thread holds. -/
theorem Sound.put (hs : L.Sound nests s) {t : τ} {place : Option (φ × List (LockOp κ))}
    {locks : List κ} (hlocks : ∀ lock ∈ locks, ∀ u, u ≠ t → lock ∉ s.held u)
    (hinside : ∀ f ops, place = some (f, ops) →
      L.offers t f = true ∧ LockOp.Nested (nests f) locks ops ∧ LockOp.after locks ops = [])
    (houtside : place = none → locks = []) : L.Sound nests (s.put t place locks) := by
  refine ⟨fun u v lock hu hv => ?_, fun u f ops hu => ?_, fun u hu => ?_⟩
  · by_cases hut : u = t
    · by_cases hvt : v = t
      · exact hut.trans hvt.symm
      · rw [hut, s.put_held_self] at hu
        rw [s.put_held_of_ne _ _ hvt] at hv
        exact absurd hv (hlocks lock hu v hvt)
    · rw [s.put_held_of_ne _ _ hut] at hu
      by_cases hvt : v = t
      · rw [hvt, s.put_held_self] at hv
        exact absurd hu (hlocks lock hv u hut)
      · rw [s.put_held_of_ne _ _ hvt] at hv
        exact hs.exclusive u v lock hu hv
  · by_cases hut : u = t
    · subst hut
      rw [s.put_running_self] at hu
      rw [s.put_held_self]
      exact hinside f ops hu
    · rw [s.put_running_of_ne _ _ hut] at hu
      rw [s.put_held_of_ne _ _ hut]
      exact hs.inside u f ops hu
  · by_cases hut : u = t
    · subst hut
      rw [s.put_running_self] at hu
      rw [s.put_held_self]
      exact houtside hu
    · rw [s.put_running_of_ne _ _ hut] at hu
      rw [s.put_held_of_ne _ _ hut]
      exact hs.outside u hu

omit [DecidableEq τ] [Fintype τ] in
/-- The locks a thread holds are held by no other. -/
theorem Sound.own (hs : L.Sound nests s) {t : τ} {lock : κ} (h : lock ∈ s.held t) :
    ∀ u, u ≠ t → lock ∉ s.held u :=
  fun u hut hu => hut (hs.exclusive u t lock hu h)

/-- A step keeps the locks sound. -/
theorem Sound.step (hL : L.Disciplined nests) (hs : L.Sound nests s) (h : L.step s a = some s') :
    L.Sound nests s' := by
  rcases step_cases h with ⟨t, f, -, hnone, hoffers, rfl⟩ | ⟨t, f, -, hrunning, rfl⟩ |
    ⟨t, f, lock, rest, -, hrunning, hfree, rfl⟩ | ⟨t, f, lock, rest, -, hrunning, rfl⟩
  · obtain ⟨hbalanced, hnested⟩ := hL t f hoffers
    have hheld := hs.outside t hnone
    refine hs.put (fun lock hlock => hs.own hlock) (fun g ops hg => ?_) (fun hg => by cases hg)
    cases hg
    rw [hheld]
    exact ⟨hoffers, hnested, hbalanced []⟩
  · refine hs.put (fun lock hlock => hs.own hlock) (fun g ops hg => by cases hg) fun _ => ?_
    exact (hs.inside t f [] hrunning).2.2
  · obtain ⟨hoffers, hnested, hafter⟩ := hs.inside t f _ hrunning
    refine hs.put (fun lock' hlock' => ?_) (fun g ops hg => ?_) (fun hg => by cases hg)
    · cases List.mem_cons.mp hlock' with
      | inl heq => exact heq ▸ hfree
      | inr hold => exact hs.own hold
    · cases hg
      exact ⟨hoffers, hnested.2, hafter⟩
  · obtain ⟨hoffers, hnested, hafter⟩ := hs.inside t f _ hrunning
    refine hs.put (fun lock' hlock' => hs.own (List.mem_of_mem_erase hlock')) (fun g ops hg => ?_)
      (fun hg => by cases hg)
    cases hg
    exact ⟨hoffers, hnested, hafter⟩

/-- The locks are sound in every reachable state. -/
theorem sound (hL : L.Disciplined nests) (hs : L.machine.Reachable s) : L.Sound nests s := by
  refine hs.invariant (fun s hinit => ?_) fun s a s' _ hs h => hs.step hL h
  obtain rfl : s = {} := hinit
  exact ⟨fun t u lock h => (List.not_mem_nil h).elim, fun t f ops h => (by cases h),
    fun t _ => rfl⟩

/-- Two functions that nest the same two locks in opposite ways. -/
def Opposed (nests : φ → κ → κ → Prop) (f g : φ) : Prop :=
  ∃ lock lock', nests f lock' lock ∧ nests g lock lock'

omit [DecidableEq κ] in
/-- Being opposed is symmetric. -/
theorem Opposed.symm {f g : φ} (h : Opposed nests f g) : Opposed nests g f := by
  obtain ⟨lock, lock', hf, hg⟩ := h
  exact ⟨lock', lock, hg, hf⟩

omit [DecidableEq τ] [Fintype τ] in
/-- Deadlocked threads are in opposed functions. -/
theorem Sound.opposed_of_deadlock (hs : L.Sound nests s) (h : s.Deadlock) :
    ∃ t u f g, t ≠ u ∧ s.Inside t f ∧ s.Inside u g ∧ Opposed nests f g := by
  obtain ⟨t, u, lock, lock', htu, ⟨f, rest, hf⟩, hheld, ⟨g, rest', hg⟩, hheld'⟩ := h
  refine ⟨t, u, f, g, htu, ⟨_, hf⟩, ⟨_, hg⟩, lock, lock', ?_, ?_⟩
  · cases (hs.inside t f _ hf).2.1.1 with
    | inl hown => exact absurd (hs.exclusive t u lock hown hheld) htu
    | inr hall => exact hall lock' hheld'
  · cases (hs.inside u g _ hg).2.1.1 with
    | inl hown => exact absurd (hs.exclusive t u lock' hheld' hown) htu
    | inr hall => exact hall lock hheld

/-- If no two functions of different threads are opposed, no run deadlocks. -/
theorem deadlock_free (hL : L.Disciplined nests)
    (hopposed : ∀ t u f g, t ≠ u → L.offers t f = true → L.offers u g = true →
      ¬ Opposed nests f g) (hs : L.machine.Reachable s) : ¬ s.Deadlock := by
  intro h
  have hsound := sound hL hs
  obtain ⟨t, u, f, g, htu, ⟨ops, hf⟩, ⟨ops', hg⟩, hfg⟩ := hsound.opposed_of_deadlock h
  exact hopposed t u f g htu (hsound.inside t f ops hf).1 (hsound.inside u g ops' hg).1 hfg

/-- A function is called only while no other thread is in one it conflicts with. -/
def CallsApart (conflict : φ → φ → Prop) (s : LockState τ κ φ) : LockAction τ φ → Prop
  | .call t f => ∀ u g ops, u ≠ t → s.running u = some (g, ops) → ¬ conflict f g
  | .go _ => True

/-- A call that keeps apart from the functions the other threads are in keeps all of them
apart. -/
theorem callsApart_step {conflict : φ → φ → Prop} (hsymm : ∀ f g, conflict f g → conflict g f)
    (hI : ∀ t u f g ops ops', t ≠ u → s.running t = some (f, ops) →
      s.running u = some (g, ops') → ¬ conflict f g)
    (hok : CallsApart conflict s a) (h : L.step s a = some s') :
    ∀ t u f g ops ops', t ≠ u → s'.running t = some (f, ops) →
      s'.running u = some (g, ops') → ¬ conflict f g := by
  -- the function of the thread that moved is apart from that of every other thread
  have hput : ∀ {t : τ} {place : Option (φ × List (LockOp κ))} {locks : List κ},
      (∀ f ops u g ops', u ≠ t → place = some (f, ops) → s.running u = some (g, ops') →
        ¬ conflict f g) →
      ∀ v u f g ops ops', v ≠ u → (s.put t place locks).running v = some (f, ops) →
        (s.put t place locks).running u = some (g, ops') → ¬ conflict f g := by
    intro t place locks hplace v u f g ops ops' hvu hf hg
    by_cases hvt : v = t
    · subst hvt
      rw [s.put_running_self] at hf
      rw [s.put_running_of_ne _ _ hvu.symm] at hg
      exact hplace f ops u g ops' hvu.symm hf hg
    · rw [s.put_running_of_ne _ _ hvt] at hf
      by_cases hut : u = t
      · subst hut
        rw [s.put_running_self] at hg
        exact fun hconflict => hplace g ops' v f ops hvt hg hf (hsymm f g hconflict)
      · rw [s.put_running_of_ne _ _ hut] at hg
        exact hI v u f g ops ops' hvu hf hg
  rcases step_cases h with ⟨t, f, rfl, hnone, -, rfl⟩ | ⟨t, f, -, hrunning, rfl⟩ |
    ⟨t, f, lock, rest, -, hrunning, -, rfl⟩ | ⟨t, f, lock, rest, -, hrunning, rfl⟩
  · refine hput fun f' ops u g ops' hut hf hg => ?_
    cases hf
    exact hok u g ops' hut hg
  · exact hput fun f' ops u g ops' _ hf _ => by cases hf
  · refine hput fun f' ops u g ops' hut hf hg => ?_
    cases hf
    exact hI t u f g _ ops' hut.symm hrunning hg
  · refine hput fun f' ops u g ops' hut hf hg => ?_
    cases hf
    exact hI t u f g _ ops' hut.symm hrunning hg

/-- If opposed functions are kept apart, no run deadlocks. -/
theorem deadlock_free_of_callsApart {conflict : φ → φ → Prop} (hL : L.Disciplined nests)
    (hsymm : ∀ f g, conflict f g → conflict g f)
    (hopposed : ∀ t u f g, t ≠ u → L.offers t f = true → L.offers u g = true →
      Opposed nests f g → conflict f g)
    (hs : L.machine.ReachableVia (CallsApart conflict) s) : ¬ s.Deadlock := by
  have hapart : ∀ t u f g ops ops', t ≠ u → s.running t = some (f, ops) →
      s.running u = some (g, ops') → ¬ conflict f g := by
    refine Machine.ReachableVia.invariant
      (I := fun s => ∀ t u f g ops ops', t ≠ u → s.running t = some (f, ops) →
        s.running u = some (g, ops') → ¬ conflict f g) ?_ ?_ hs
    · intro s hinit t u f g ops ops' _ hf
      obtain rfl : s = {} := hinit
      cases hf
    · intro s a s' _ hI hok h
      exact callsApart_step hsymm hI hok h
  intro h
  have hsound := sound hL hs.reachable
  obtain ⟨t, u, f, g, htu, ⟨ops, hf⟩, ⟨ops', hg⟩, hfg⟩ := hsound.opposed_of_deadlock h
  exact hapart t u f g ops ops' htu hf hg
    (hopposed t u f g htu (hsound.inside t f ops hf).1 (hsound.inside u g ops' hg).1 hfg)

/-- A thread goes through operations whose locks no other thread holds, whatever the other threads
do meanwhile. -/
theorem reachable_go {t : τ} {f : φ} {ops rest : List (LockOp κ)} (hs : L.machine.Reachable s)
    (hrunning : s.running t = some (f, ops ++ rest))
    (hfree : ∀ lock, .enter lock ∈ ops → ∀ u, u ≠ t → lock ∉ s.held u) :
    L.machine.Reachable (s.put t (some (f, rest)) (LockOp.after (s.held t) ops)) := by
  induction ops generalizing s with
  | nil =>
    have hput : s.put t (some (f, rest)) (s.held t) = s := by
      cases s
      simp only [LockState.put, Function.update_eq_self, LockState.mk.injEq, and_true]
      exact Function.update_eq_self_iff.mpr hrunning.symm
    exact hput.symm ▸ hs
  | cons op ops ih =>
    have hothers : ∀ locks lock, .enter lock ∈ ops → ∀ u, u ≠ t →
        lock ∉ (s.put t (some (f, ops ++ rest)) locks).held u := by
      intro locks lock hlock u hut
      rw [s.put_held_of_ne _ _ hut]
      exact hfree lock (List.mem_cons_of_mem op hlock) u hut
    cases op with
    | enter lock =>
      have hstep : L.machine.step s (.go t) =
          some (s.put t (some (f, ops ++ rest)) (lock :: s.held t)) := by
        simp only [machine, step, hrunning, List.cons_append]
        exact if_pos (hfree lock List.mem_cons_self)
      have hnext := ih (hs.step hstep) (s.put_running_self _ _) (hothers _)
      rwa [s.put_held_self, s.put_put] at hnext
    | leave lock =>
      have hstep : L.machine.step s (.go t) =
          some (s.put t (some (f, ops ++ rest)) ((s.held t).erase lock)) := by
        simp only [machine, step, hrunning, List.cons_append]
      have hnext := ih (hs.step hstep) (s.put_running_self _ _) (hothers _)
      rwa [s.put_held_self, s.put_put] at hnext

/-- A thread between two functions calls one and goes through its first operations, whose locks no
other thread holds. -/
theorem reachable_call {t : τ} {f : φ} {ops rest : List (LockOp κ)} (hs : L.machine.Reachable s)
    (hnone : s.running t = none) (hoffers : L.offers t f = true) (hbody : L.body f = ops ++ rest)
    (hfree : ∀ lock, .enter lock ∈ ops → ∀ u, u ≠ t → lock ∉ s.held u) :
    L.machine.Reachable (s.put t (some (f, rest)) (LockOp.after (s.held t) ops)) := by
  have hstep : L.machine.step s (.call t f) = some (s.put t (some (f, L.body f)) (s.held t)) := by
    simp only [machine, step, hnone, hoffers, if_true]
  have hgo := reachable_go (hs.step hstep) ((s.put_running_self _ _).trans (by rw [hbody]))
    fun lock hlock u hut => (s.put_held_of_ne _ _ hut).symm ▸ hfree lock hlock u hut
  rwa [s.put_held_self, s.put_put] at hgo

/-- Two functions deadlock if each of them gets to hold the lock that the other one enters next. -/
theorem reachable_deadlock {t u : τ} {f g : φ} {ops rest ops' rest' : List (LockOp κ)}
    {lock lock' : κ} (htu : t ≠ u) (hf : L.offers t f = true) (hg : L.offers u g = true)
    (hbody : L.body f = ops ++ .enter lock :: rest)
    (hbody' : L.body g = ops' ++ .enter lock' :: rest') (hheld : lock' ∈ LockOp.after [] ops)
    (hheld' : lock ∈ LockOp.after [] ops') (hfree : ∀ l, .enter l ∈ ops' → l ∉ LockOp.after [] ops) :
    ∃ s, L.machine.Reachable s ∧ s.Deadlock ∧ s.Inside t f ∧ s.Inside u g := by
  have hfirst := reachable_call (L := L) (.initial rfl) rfl hf hbody fun _ _ _ _ =>
    List.not_mem_nil
  have hsecond := reachable_call hfirst (LockState.put_running_of_ne _ _ _ htu.symm) hg hbody'
    fun l hl v hvu => by
      by_cases hvt : v = t
      · subst hvt
        rw [LockState.put_held_self]
        exact hfree l hl
      · rw [LockState.put_held_of_ne _ _ _ hvt]
        exact List.not_mem_nil
  rw [LockState.put_held_of_ne _ _ _ htu.symm] at hsecond
  have ht := (LockState.put_running_of_ne _ (some (g, .enter lock' :: rest'))
    (LockOp.after [] ops') htu).trans (LockState.put_running_self ({} : LockState τ κ φ)
      (some (f, .enter lock :: rest)) (LockOp.after [] ops))
  refine ⟨_, hsecond, ⟨t, u, lock, lock', htu, ⟨f, rest, ht⟩, ?_,
    ⟨g, rest', LockState.put_running_self _ _ _⟩, ?_⟩, ⟨_, ht⟩,
    ⟨_, LockState.put_running_self _ _ _⟩⟩
  · rw [LockState.put_held_self]
    exact hheld'
  · rw [LockState.put_held_of_ne _ _ _ htu, LockState.put_held_self]
    exact hheld

end Locking

end Multicrew.Library
