import Mathlib.Data.Multiset.AddSub
import Mathlib.Data.Multiset.MapFold
import Mathlib.Logic.Function.Basic

/-!
# Two-way tables, consecutive numbering, and tables of queues

Ordered finite maps used three ways. A pair of maps may be kept mutually inverse; the values of
one may be exactly the first numbers from a base on; a map of lists holds the multiset of all
queued elements. Each section gives the predicate or the operation and what one update does to it.
A function to options is the simplest table.
-/

namespace Multicrew.Library

open Std (TreeMap TransOrd LawfulEqOrd)

/-- An entry of an updated table is the new one, or an old one at another key. -/
theorem update_eq_some {α β : Type*} [DecidableEq α] {f : α → Option β} {a x : α} {v : Option β}
    {b : β} (h : Function.update f a v x = some b) :
    (x = a ∧ v = some b) ∨ (x ≠ a ∧ f x = some b) := by
  by_cases hx : x = a
  · subst hx
    rw [Function.update_self] at h
    exact .inl ⟨rfl, h⟩
  · rw [Function.update_of_ne hx] at h
    exact .inr ⟨hx, h⟩

section Inverse

variable {α β : Type*} [Ord α] [Ord β]

/-- Each map is the other one read backwards. -/
def Inverse (f : TreeMap α β) (g : TreeMap β α) : Prop :=
  ∀ (a : α) (b : β), f[a]? = some b ↔ g[b]? = some a

/-- Empty tables are inverse to each other. -/
theorem Inverse.empty [TransOrd α] [TransOrd β] : Inverse (∅ : TreeMap α β) ∅ := by
  intro a b
  simp

/-- Binding a fresh key to a fresh value keeps the tables inverse. -/
theorem Inverse.insert [TransOrd α] [LawfulEqOrd α] [TransOrd β] [LawfulEqOrd β]
    {f : TreeMap α β} {g : TreeMap β α} (h : Inverse f g) {a : α} {b : β}
    (ha : f[a]? = none) (hb : g[b]? = none) : Inverse (f.insert a b) (g.insert b a) := by
  intro a' b'
  have hf := h a' b'
  have hfa := h a b'
  have hfb := h a' b
  rw [TreeMap.getElem?_insert, TreeMap.getElem?_insert]
  by_cases haa : a = a' <;> by_cases hbb : b = b' <;>
    simp_all

/-- A value absent from the range is absent from the inverse table. -/
theorem Inverse.getElem?_eq_none {f : TreeMap α β} {g : TreeMap β α} (h : Inverse f g) {b : β}
    (hb : ∀ a : α, f[a]? ≠ some b) : g[b]? = none := by
  cases hg : g[b]? with
  | none => rfl
  | some a => exact absurd ((h a b).mpr hg) (hb a)

/-- Two keys bound to one value are equal. -/
theorem Inverse.injective {f : TreeMap α β} {g : TreeMap β α} (h : Inverse f g) {a a' : α} {b : β}
    (ha : f[a]? = some b) (ha' : f[a']? = some b) : a = a' := by
  rw [h a b] at ha
  rw [h a' b, ha] at ha'
  exact Option.some.inj ha'

end Inverse

section Numbered

variable {α : Type*} [Ord α]

/-- The values are exactly the `size` numbers from `base` on. -/
def Numbered (base : ℕ) (f : TreeMap α ℕ) : Prop :=
  ∀ n, (∃ a : α, f[a]? = some n) ↔ base ≤ n ∧ n < base + f.size

/-- An empty table uses no number. -/
theorem Numbered.empty [TransOrd α] (base : ℕ) : Numbered base (∅ : TreeMap α ℕ) := by
  intro n
  simp only [TreeMap.getElem?_emptyc, reduceCtorEq, exists_false, TreeMap.size_emptyc, false_iff]
  omega

/-- The next number is not in use. -/
theorem Numbered.next_fresh {base : ℕ} {f : TreeMap α ℕ} (h : Numbered base f) (a : α) :
    f[a]? ≠ some (base + f.size) := by
  intro ha
  have := (h _).mp ⟨a, ha⟩
  omega

/-- Inserting a new key adds one entry. -/
theorem size_insert_of_getElem?_none [TransOrd α] {f : TreeMap α ℕ} {a : α} (ha : f[a]? = none) (n : ℕ) :
    (f.insert a n).size = f.size + 1 := by
  have hnot : a ∉ f := by
    rw [TreeMap.mem_iff_isSome_getElem?, ha]
    simp
  rw [TreeMap.size_insert, if_neg]
  simpa [TreeMap.contains_iff_mem] using hnot

/-- Giving a new key the next number extends the range by exactly that number. -/
theorem Numbered.insert [TransOrd α] [LawfulEqOrd α] {base : ℕ} {f : TreeMap α ℕ}
    (h : Numbered base f) {a : α} (ha : f[a]? = none) :
    Numbered base (f.insert a (base + f.size)) := by
  intro n
  rw [size_insert_of_getElem?_none ha]
  constructor
  · rintro ⟨a', ha'⟩
    rw [TreeMap.getElem?_insert] at ha'
    split at ha'
    · have : base + f.size = n := Option.some.inj ha'
      omega
    · have := (h n).mp ⟨a', ha'⟩
      omega
  · rintro ⟨hlo, hhi⟩
    by_cases hn : n < base + f.size
    · obtain ⟨a', ha'⟩ := (h n).mpr ⟨hlo, hn⟩
      refine ⟨a', ?_⟩
      have hne : a ≠ a' := by
        rintro rfl
        rw [ha] at ha'
        cases ha'
      rw [TreeMap.getElem?_insert, if_neg (by simpa using hne)]
      exact ha'
    · have hn' : n = base + f.size := by omega
      exact ⟨a, by rw [TreeMap.getElem?_insert_self, hn']⟩

end Numbered

section Queues

variable {α β : Type*} [Ord α]

/-- The queue kept under a key, empty when there is none. -/
def queueAt (t : TreeMap α (List β)) (k : α) : List β := (t[k]?).getD []

/-- Append one element to the queue of a key, creating the queue if needed. -/
def enqueue (t : TreeMap α (List β)) (k : α) (v : β) : TreeMap α (List β) :=
  t.insert k (queueAt t k ++ [v])

/-- All queued elements, over all keys. -/
def contents (t : TreeMap α (List β)) : Multiset β :=
  ((t.toList.flatMap Prod.snd : List β) : Multiset β)

/-- The empty table has no queues. -/
@[simp] theorem queueAt_empty [TransOrd α] (k : α) : queueAt (∅ : TreeMap α (List β)) k = [] := by
  simp [queueAt]

/-- So it holds nothing. -/
@[simp] theorem contents_empty : contents (∅ : TreeMap α (List β)) = 0 := by
  have h : (∅ : TreeMap α (List β)).toList = [] := by
    rw [← List.isEmpty_iff, TreeMap.isEmpty_toList]
    rfl
  simp [contents, h]

/-- Appending changes only the queue of its key. -/
theorem queueAt_enqueue [TransOrd α] [LawfulEqOrd α] [DecidableEq α] (t : TreeMap α (List β))
    (k k' : α) (v : β) :
    queueAt (enqueue t k v) k' = if k = k' then queueAt t k ++ [v] else queueAt t k' := by
  unfold enqueue
  by_cases h : k = k'
  · subst h
    simp [queueAt]
  · simp [queueAt, TreeMap.getElem?_insert, h]

/-- Erasing a key empties its queue and no other. -/
theorem queueAt_erase [TransOrd α] [LawfulEqOrd α] [DecidableEq α] (t : TreeMap α (List β))
    (k k' : α) :
    queueAt (t.erase k) k' = if k = k' then [] else queueAt t k' := by
  by_cases h : k = k'
  · subst h
    simp [queueAt]
  · simp [queueAt, TreeMap.getElem?_erase, h]

/-- Storing a queue under an unused key adds its elements. -/
theorem contents_insert_of_getElem?_none [TransOrd α] [LawfulEqOrd α] {t : TreeMap α (List β)}
    {k : α} (hk : t[k]? = none) (q : List β) :
    contents (t.insert k q) = (q : Multiset β) + contents t := by
  classical
  let _ : BEq α := instBEqOfDecidableEq
  have hperm : (t.insert k q).toList.Perm _ := TreeMap.toList_insert_perm
  have hfilter : t.toList.filter (fun x => decide ¬(k == x.1) = true) = t.toList := by
    rw [List.filter_eq_self]
    rintro ⟨k', v'⟩ hmem
    have hsome := TreeMap.mem_toList_iff_getElem?_eq_some.mp hmem
    have hne : k ≠ k' := by
      rintro rfl
      rw [hk] at hsome
      cases hsome
    simpa using hne
  rw [hfilter] at hperm
  unfold contents
  rw [Multiset.coe_eq_coe.mpr (hperm.flatMap_right Prod.snd)]
  simp

/-- A stored queue and the rest of the table make up the contents. -/
theorem contents_eq_add_erase [TransOrd α] [LawfulEqOrd α] (t : TreeMap α (List β)) (k : α) :
    contents t = (queueAt t k : Multiset β) + contents (t.erase k) := by
  cases hk : t[k]? with
  | none =>
    have hequiv : (t.erase k).Equiv t := by
      apply TreeMap.Equiv.of_forall_constGet?_eq
      intro k'
      rw [TreeMap.getElem?_erase]
      split
      · rename_i heq
        rw [← Std.LawfulEqOrd.eq_of_compare heq, hk]
      · rfl
    simp [contents, queueAt, hk, hequiv.toList_eq]
  | some q =>
    have hequiv : ((t.erase k).insert k q).Equiv t := by
      apply TreeMap.Equiv.of_forall_constGet?_eq
      intro k'
      rw [TreeMap.getElem?_insert, TreeMap.getElem?_erase]
      split
      · rename_i heq
        rw [← Std.LawfulEqOrd.eq_of_compare heq, hk]
      · rfl
    have hnone : (t.erase k)[k]? = none := by simp
    have hins := contents_insert_of_getElem?_none hnone q
    have heq : contents ((t.erase k).insert k q) = contents t := by
      simp [contents, hequiv.toList_eq]
    rw [← heq, hins]
    simp [queueAt, hk]

/-- Appending one element adds exactly that element. -/
theorem contents_enqueue [TransOrd α] [LawfulEqOrd α] (t : TreeMap α (List β)) (k : α) (v : β) :
    contents (enqueue t k v) = v ::ₘ contents t := by
  classical
  rw [contents_eq_add_erase (enqueue t k v) k, contents_eq_add_erase t k, queueAt_enqueue, if_pos rfl]
  have hequiv : ((enqueue t k v).erase k).Equiv (t.erase k) := by
    apply TreeMap.Equiv.of_forall_constGet?_eq
    intro k'
    simp only [enqueue, TreeMap.getElem?_erase, TreeMap.getElem?_insert]
    split <;> simp_all
  have heq : contents ((enqueue t k v).erase k) = contents (t.erase k) := by
    simp [contents, hequiv.toList_eq]
  rw [heq, ← Multiset.coe_add, Multiset.add_assoc, Multiset.coe_singleton, Multiset.singleton_add,
    Multiset.add_cons]

end Queues

end Multicrew.Library
