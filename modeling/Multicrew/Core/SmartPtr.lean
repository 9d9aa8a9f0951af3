import Mathlib.Data.Finset.Card
import Mathlib.Data.Finset.Range
import Multicrew.Library.Machine
import Multicrew.Library.Ownership

/-!
# Shared objects and the pointers to them

`Shared` counts its references and deletes itself with the last one; deleting an object destroys its
`SmartPtr` members, which may delete more. An assignment gives the old reference back before it takes
the new one, so it may destroy the pointer it copies from, or the object it is given. Objects are
numbered, and a number is not used again; whoever touches a deleted object has failed.
-/

namespace Multicrew.Core

open Multicrew.Library

/-- Where a `SmartPtr` is: a variable, or the member `i` of an object. -/
inductive Place
  | root (r : ℕ)
  | field (o i : ℕ)
  deriving DecidableEq, Repr

/-- The object a `SmartPtr` is a member of. -/
def Place.owner : Place → Option ℕ
  | root _ => none
  | field o _ => some o

/-- The `SmartPtr`s that exist with their `obj`, and the objects made so far with the number of their
members, their `refcount`, and how often they were deleted. -/
structure SharedHeap where
  places : Finset Place := ∅
  obj : Place → Option ℕ := fun _ => none
  known : Finset ℕ := ∅
  fields : ℕ → ℕ := fun _ => 0
  refcount : ℕ → ℤ := fun _ => 0
  deletions : ℕ → ℕ := fun _ => 0
  failed : Bool := false

/-- The operations of `SmartPtr`, and the construction of an object with null pointers. -/
inductive PtrAction
  | newObject (o n : ℕ)
  | newPtr (r : ℕ) (other : Option ℕ)
  | copyPtr (r : ℕ) (other : Place)
  | assign (p other : Place)
  | assignRaw (p : Place) (other : Option ℕ)
  | destroyPtr (r : ℕ)
  deriving DecidableEq, Repr

namespace SharedHeap

variable (s : SharedHeap)

/-- An object that exists. -/
def Live (o : ℕ) : Prop := o ∈ s.known ∧ s.deletions o = 0

instance (o : ℕ) : Decidable (s.Live o) := inferInstanceAs (Decidable (_ ∧ _))

/-- `Shared::ref` -/
def ref (o : ℕ) : SharedHeap :=
  if s.Live o then { s with refcount := Function.update s.refcount o (s.refcount o + 1) }
  else { s with failed := true }

/-- The members of an object in the order they are destroyed. -/
def fieldsOf (o : ℕ) : List Place :=
  (((List.range (s.fields o)).reverse).map (Place.field o)).filter (· ∈ s.places)

/-- The object is gone with its members, before what they hold is released. -/
def delete (o : ℕ) : SharedHeap :=
  { s with
    places := s.places \ (s.fieldsOf o).toFinset
    deletions := Function.update s.deletions o (s.deletions o + 1) }

/-- One reference less. -/
def decrease (o : ℕ) : SharedHeap :=
  { s with refcount := Function.update s.refcount o (s.refcount o - 1) }

/-- `Shared::deref` of objects one after the other; a deleted object first releases what its members
hold. -/
def derefs : ℕ → List ℕ → SharedHeap → SharedHeap
  | _, [], s => s
  | 0, _ :: _, s => { s with failed := true }
  | fuel + 1, o :: rest, s =>
    if s.Live o then
      let t := s.decrease o
      if t.refcount o = 0 then
        derefs fuel ((t.fieldsOf o).filterMap t.obj ++ rest) (t.delete o)
      else derefs fuel rest t
    else { s with failed := true }

/-- `Shared::deref` -/
def deref (o : ℕ) : SharedHeap := derefs (s.places.card + 1) [o] s

/-- `if( obj ) obj->deref()` for a pointer that no longer counts as a holder. -/
def release (p : Place) : SharedHeap :=
  let t := { s with places := s.places.erase p }
  match s.obj p with
  | none => t
  | some o => t.deref o

/-- `obj = other; if( obj ) obj->ref()` -/
def point (p : Place) (other : Option ℕ) : SharedHeap :=
  let t := { s with places := insert p s.places, obj := Function.update s.obj p other }
  match other with
  | none => t
  | some o => t.ref o

/-- The object a pointer is a member of exists. -/
def Stands (p : Place) : Prop := ∀ a ∈ p.owner, s.Live a

instance (p : Place) : Decidable (s.Stands p) := inferInstanceAs (Decidable (∀ a ∈ p.owner, _))

/-- `SmartPtr::operator=( const SmartPtr& )`: after the release, both pointers are used again. -/
def assign (p other : Place) : SharedHeap :=
  if s.obj other = s.obj p then s
  else
    let t := s.release p
    if t.Stands p ∧ other ∈ t.places then t.point p (t.obj other) else { t with failed := true }

/-- `SmartPtr::operator=( T* )` -/
def assignRaw (p : Place) (other : Option ℕ) : SharedHeap :=
  if other = s.obj p then s
  else
    let t := s.release p
    if t.Stands p then t.point p other else { t with failed := true }

/-- A new object; its members are null. -/
def newObject (o n : ℕ) : SharedHeap :=
  { s with
    places := s.places ∪ (Finset.range n).image (Place.field o)
    obj := fun q => if q.owner = some o then none else s.obj q
    known := insert o s.known
    fields := Function.update s.fields o n
    refcount := Function.update s.refcount o 0 }

/-- One operation, on pointers and with pointers to objects that exist. -/
def step (a : PtrAction) : Option SharedHeap :=
  if s.failed then none
  else match a with
    | .newObject o n => if o ∈ s.known then none else some (s.newObject o n)
    | .newPtr r other =>
      if .root r ∉ s.places ∧ ∀ o ∈ other, s.Live o then some (s.point (.root r) other) else none
    | .copyPtr r other =>
      if .root r ∉ s.places ∧ other ∈ s.places then some (s.point (.root r) (s.obj other)) else none
    | .assign p other =>
      if p ∈ s.places ∧ other ∈ s.places then some (s.assign p other) else none
    | .assignRaw p other =>
      if p ∈ s.places ∧ ∀ o ∈ other, s.Live o then some (s.assignRaw p other) else none
    | .destroyPtr r => if .root r ∈ s.places then some (s.release (.root r)) else none

/-- A pointer holds an object. -/
def Holds (q : Place) (o : ℕ) : Prop := q ∈ s.places ∧ s.obj q = some o

/-- The number of the pointers that hold an object. -/
def holders (o : ℕ) : ℕ := (s.places.filter fun q => s.obj q = some o).card

/-- What an operation has to keep: the counts are right, and exactly the objects that lose their last
holder are deleted, each of them once. -/
structure Kept (s t : SharedHeap) : Prop where
  failed : t.failed = false
  counted : ∀ o, t.Live o → t.refcount o = t.holders o
  once : ∀ o, t.deletions o ≤ 1
  deleted : ∀ o, s.Live o → (¬ t.Live o ↔ 0 < s.holders o ∧ t.holders o = 0)

/-- There are no cycles of references. -/
def Acyclic : Prop :=
  ∀ a, ¬ Relation.TransGen (fun a b => ∃ q : Place, q.owner = some a ∧ s.Holds q b) a a

/-- The objects that die with a pointer. -/
def Dies (p : Place) (o : ℕ) : Prop := Doomed s.Holds Place.owner p o

/-- An assignment of another object does not begin by destroying its source: the object the source
pointer is a member of, or the object given. -/
def Proper : PtrAction → Prop
  | .assign p other => s.obj other ≠ s.obj p → ∀ a ∈ other.owner, ¬ s.Dies p a
  | .assignRaw p other => other ≠ s.obj p → ∀ o ∈ other, ¬ s.Dies p o
  | _ => True

end SharedHeap

/-- The objects and pointers of a program from its start on. -/
def sharedMachine : Machine SharedHeap PtrAction where
  initial s := s = {}
  step := SharedHeap.step

namespace SharedHeap

variable {s t h : SharedHeap} {p q : Place} {o a : ℕ} {other : Option ℕ} {w rest : List ℕ}

/-! ### Counting holders -/

/-- The holders of an object after a pointer is taken away. -/
theorem holders_erase (s : SharedHeap) (hp : p ∈ s.places) (o : ℕ) :
    ({ s with places := s.places.erase p } : SharedHeap).holders o + (if s.obj p = some o then 1 else 0) =
      s.holders o := by
  simp only [holders, Finset.filter_erase]
  split
  · rename_i hobj
    rw [Finset.card_erase_add_one (Finset.mem_filter.mpr ⟨hp, hobj⟩)]
  · rename_i hobj
    have hnot : p ∉ s.places.filter fun q => s.obj q = some o :=
      fun hmem => hobj (Finset.mem_filter.mp hmem).2
    rw [Finset.erase_eq_of_notMem hnot, Nat.add_zero]

/-- An object without holders has no pointer to it. -/
theorem holders_eq_zero : s.holders o = 0 ↔ ∀ q, ¬ s.Holds q o := by
  simp only [holders, Finset.card_eq_zero, Finset.filter_eq_empty_iff, Holds, not_and]

/-- An object has a holder exactly if some place holds it. -/
theorem holders_pos : 0 < s.holders o ↔ ∃ q, s.Holds q o := by
  rw [Nat.pos_iff_ne_zero, ne_eq, holders_eq_zero, not_forall_not]

/-- The fields of an object are places of the heap, as many as it has. -/
theorem mem_fieldsOf : q ∈ s.fieldsOf o ↔ ∃ i, i < s.fields o ∧ q = .field o i ∧ q ∈ s.places := by
  simp only [fieldsOf, List.mem_filter, List.mem_map, List.mem_reverse, List.mem_range,
    decide_eq_true_eq]
  constructor
  · rintro ⟨⟨i, hi, rfl⟩, hmem⟩
    exact ⟨i, hi, rfl, hmem⟩
  · rintro ⟨i, hi, rfl, hmem⟩
    exact ⟨⟨i, hi, rfl⟩, hmem⟩

/-- They are different places. -/
theorem nodup_fieldsOf (s : SharedHeap) (o : ℕ) : (s.fieldsOf o).Nodup := by
  refine List.Nodup.filter _ (List.Nodup.map ?_ (List.nodup_reverse.mpr List.nodup_range))
  intro i j hij
  exact (Place.field.inj hij).2

/-- They are places of the heap. -/
theorem fieldsOf_subset (s : SharedHeap) (o : ℕ) : (s.fieldsOf o).toFinset ⊆ s.places := by
  intro q hmem
  obtain ⟨i, -, -, hplace⟩ := mem_fieldsOf.mp (List.mem_toFinset.mp hmem)
  exact hplace

/-- What the members of a deleted object held is what they release. -/
theorem holders_delete (s : SharedHeap) (o a : ℕ) :
    s.holders a = (s.delete o).holders a + ((s.fieldsOf o).filterMap s.obj).count a := by
  have hcount : ((s.fieldsOf o).filterMap s.obj).count a =
      ((s.fieldsOf o).toFinset.filter fun q => s.obj q = some a).card := by
    have hfilter : (s.fieldsOf o).toFinset.filter (fun q => s.obj q = some a) =
        ((s.fieldsOf o).filter fun q => s.obj q == some a).toFinset := by
      ext q
      simp
    rw [hfilter, List.toFinset_card_of_nodup ((s.nodup_fieldsOf o).filter _), List.count_filterMap,
      List.countP_eq_length_filter]
  have hsplit : s.places.filter (fun q => s.obj q = some a) =
      (s.places \ (s.fieldsOf o).toFinset).filter (fun q => s.obj q = some a) ∪
        (s.fieldsOf o).toFinset.filter fun q => s.obj q = some a := by
    rw [← Finset.filter_union, Finset.sdiff_union_of_subset (s.fieldsOf_subset o)]
  rw [hcount, holders, hsplit,
    Finset.card_union_of_disjoint (Finset.disjoint_filter_filter Finset.sdiff_disjoint)]
  rfl

/-- A deleted object releases no more pointers than it takes away. -/
theorem card_delete (s : SharedHeap) (o : ℕ) :
    ((s.fieldsOf o).filterMap s.obj).length + (s.delete o).places.card ≤ s.places.card := by
  have hlength := List.length_filterMap_le s.obj (s.fieldsOf o)
  have hcard := Finset.card_sdiff_add_card_eq_card (s.fieldsOf_subset o)
  rw [List.toFinset_card_of_nodup (s.nodup_fieldsOf o)] at hcard
  simp only [delete]
  omega

/-! ### Releasing a pointer -/

/-- The invariant of the heap between two operations. -/
structure Sound (s : SharedHeap) : Prop where
  counted : ∀ o, s.Live o → s.refcount o = s.holders o
  valid : ∀ q o, s.Holds q o → s.Live o
  owners : ∀ q ∈ s.places, s.Stands q
  bounded : ∀ o i, .field o i ∈ s.places → i < s.fields o
  once : ∀ o, s.deletions o ≤ 1
  unknown : ∀ o, o ∉ s.known → s.deletions o = 0
  failed : s.failed = false

/-- While a pointer of `s` is released, the heap is `h` and the objects `w` are still to be dereferenced:
a reference that is counted is held by a pointer that is left or given back by one of these. -/
structure Releasing (s : SharedHeap) (p : Place) (w : List ℕ) (h : SharedHeap) : Prop where
  obj : h.obj = s.obj
  fields : h.fields = s.fields
  known : h.known = s.known
  places : ∀ q, q ∈ h.places ↔ q ∈ s.places ∧ q ≠ p ∧ h.Stands q
  counted : ∀ o, h.Live o → h.refcount o = h.holders o + w.count o
  positive : ∀ o, h.Live o → 0 < s.holders o → 0 < h.refcount o
  pending : ∀ o ∈ w, h.Live o ∧ 0 < s.holders o
  valid : ∀ q o, h.Holds q o → h.Live o
  live : ∀ o, h.Live o → s.Live o
  doomed : ∀ o, s.Live o → ¬ h.Live o → s.Dies p o
  once : ∀ o, h.deletions o ≤ 1
  unknown : ∀ o, o ∉ h.known → h.deletions o = 0
  failed : h.failed = false

/-- A smaller counter moves no pointer. -/
theorem decrease_holders (s : SharedHeap) (o a : ℕ) : (s.decrease o).holders a = s.holders a := rfl

/-- It is the counter of one object. -/
theorem decrease_refcount (s : SharedHeap) (o a : ℕ) :
    (s.decrease o).refcount a = if a = o then s.refcount o - 1 else s.refcount a :=
  Function.update_apply ..

/-- A deleted object is not alive any more, all others are as before. -/
theorem delete_live : (s.delete o).Live a ↔ s.Live a ∧ a ≠ o := by
  simp only [Live, delete]
  by_cases hao : a = o
  · subst hao
    simp
  · simp [hao]

/-- A reference that is not the last one is given back. -/
theorem Releasing.decrease (hr : Releasing s p (o :: rest) h) (hmore : h.refcount o - 1 ≠ 0) :
    Releasing s p rest (h.decrease o) where
  obj := hr.obj
  fields := hr.fields
  known := hr.known
  places := hr.places
  counted a halive := by
    have hcounted := hr.counted a halive
    rw [decrease_refcount, decrease_holders]
    by_cases hao : a = o
    · subst hao
      rw [List.count_cons_self] at hcounted
      rw [if_pos rfl]
      push_cast at hcounted
      omega
    · rw [List.count_cons_of_ne (Ne.symm hao)] at hcounted
      rwa [if_neg hao]
  positive a halive hheld := by
    have hpositive := hr.positive a halive hheld
    rw [decrease_refcount]
    split
    · rename_i hao
      subst hao
      omega
    · exact hpositive
  pending a hmem := hr.pending a (List.mem_cons_of_mem o hmem)
  valid := hr.valid
  live := hr.live
  doomed := hr.doomed
  once := hr.once
  unknown := hr.unknown
  failed := hr.failed

/-- The object that a last reference was counted for is held by no pointer, and by nothing that is still
to be given back. -/
theorem Releasing.unheld (hr : Releasing s p (o :: rest) h) (hlast : h.refcount o - 1 = 0) :
    (∀ q, ¬ h.Holds q o) ∧ o ∉ rest := by
  have hcounted := hr.counted o (hr.pending o List.mem_cons_self).1
  rw [List.count_cons_self] at hcounted
  push_cast at hcounted
  refine ⟨holders_eq_zero.mp (by omega), ?_⟩
  rw [← List.count_eq_zero]
  omega

/-- Its deletion is counted. -/
theorem delete_deletions (s : SharedHeap) (o a : ℕ) :
    (s.delete o).deletions a = if a = o then s.deletions o + 1 else s.deletions a :=
  Function.update_apply ..

/-- Deleting an object takes its members away. -/
theorem Releasing.mem_delete (hs : s.Sound) (hr : Releasing s p w h) (q : Place) :
    q ∈ ((h.decrease o).delete o).places ↔ q ∈ h.places ∧ q.owner ≠ some o := by
  simp only [SharedHeap.delete, Finset.mem_sdiff, List.mem_toFinset, mem_fieldsOf]
  refine and_congr_right fun hq => not_congr ⟨?_, fun howner => ?_⟩
  · rintro ⟨i, -, rfl, -⟩
    rfl
  · cases q with
    | root r => cases howner
    | field a i =>
      obtain rfl : a = o := Option.some.inj howner
      refine ⟨i, ?_, rfl, hq⟩
      have hbound := hs.bounded a i ((hr.places _).mp hq).1
      exact hr.fields ▸ hbound

/-- An object that is held by no pointer any more dies with the released one: its holders were members of
objects that have died. -/
theorem Releasing.dies (hs : s.Sound) (hr : Releasing s p w h) (hheld : 0 < s.holders o)
    (hunheld : ∀ q, ¬ h.Holds q o) : s.Dies p o := by
  refine Doomed.of_holders (holders_pos.mp hheld) fun q hq hne => ?_
  have hgone : ¬ h.Stands q := fun hstands =>
    hunheld q ⟨(hr.places q).mpr ⟨hq.1, hne, hstands⟩, hr.obj ▸ hq.2⟩
  simp only [Stands, not_forall] at hgone
  obtain ⟨b, howner, hb⟩ := hgone
  exact ⟨b, howner, hr.doomed b (hs.owners q hq.1 b howner) hb⟩

/-- What a deleted object held is to be given back, and exists. -/
theorem Releasing.pending_delete (hr : Releasing s p (o :: rest) h) (hlast : h.refcount o - 1 = 0)
    (ha : a ∈ ((h.decrease o).fieldsOf o).filterMap (h.decrease o).obj ++ rest) :
    ((h.decrease o).delete o).Live a ∧ 0 < s.holders a := by
  obtain ⟨hunheld, hrest⟩ := hr.unheld hlast
  cases List.mem_append.mp ha with
  | inl hmember =>
    obtain ⟨q, hq, hobj⟩ := List.mem_filterMap.mp hmember
    obtain ⟨i, -, -, hplace⟩ := mem_fieldsOf.mp hq
    have hholds : h.Holds q a := ⟨hplace, hobj⟩
    refine ⟨delete_live.mpr ⟨hr.valid q a hholds, ?_⟩, holders_pos.mpr ⟨q, ?_⟩⟩
    · rintro rfl
      exact hunheld q hholds
    · exact ⟨((hr.places q).mp hplace).1, hr.obj ▸ hobj⟩
  | inr hlater =>
    obtain ⟨hold, hpos⟩ := hr.pending a (List.mem_cons_of_mem o hlater)
    exact ⟨delete_live.mpr ⟨hold, fun hao => hrest (hao ▸ hlater)⟩, hpos⟩

/-- The last reference is given back, and the object is deleted. -/
theorem Releasing.delete (hs : s.Sound) (hr : Releasing s p (o :: rest) h)
    (hlast : h.refcount o - 1 = 0) :
    Releasing s p (((h.decrease o).fieldsOf o).filterMap (h.decrease o).obj ++ rest)
      ((h.decrease o).delete o) := by
  obtain ⟨hunheld, -⟩ := hr.unheld hlast
  obtain ⟨hlive, hheld⟩ := hr.pending o List.mem_cons_self
  refine
    { obj := hr.obj, fields := hr.fields, known := hr.known, places := fun q => ?_,
      counted := fun a halive => ?_, positive := fun a halive hpos => ?_,
      pending := fun a ha => hr.pending_delete hlast ha, valid := fun q a hq => ?_,
      live := fun a halive => hr.live a (delete_live.mp halive).1, doomed := fun a hsa hdead => ?_,
      once := fun a => ?_, unknown := fun a ha => ?_, failed := hr.failed }
  · rw [hr.mem_delete hs, hr.places]
    simp only [Stands, delete_live, Option.mem_def]
    constructor
    · rintro ⟨⟨hq, hne, hstands⟩, howner⟩
      exact ⟨hq, hne, fun a ha => ⟨hstands a ha, fun hao => howner (hao ▸ ha)⟩⟩
    · rintro ⟨hq, hne, hstands⟩
      exact ⟨⟨hq, hne, fun a ha => (hstands a ha).1⟩, fun howner => (hstands o howner).2 rfl⟩
  · obtain ⟨hold, hne⟩ := delete_live.mp halive
    have hcounted := hr.counted a hold
    rw [List.count_cons_of_ne (Ne.symm hne)] at hcounted
    have hsplit := holders_delete (h.decrease o) o a
    rw [decrease_holders] at hsplit
    have hrefcount := decrease_refcount h o a
    rw [if_neg hne] at hrefcount
    rw [List.count_append]
    push_cast
    exact hrefcount.trans (by omega)
  · obtain ⟨hold, hne⟩ := delete_live.mp halive
    have hrefcount := decrease_refcount h o a
    rw [if_neg hne] at hrefcount
    exact hrefcount ▸ hr.positive a hold hpos
  · have hholds : h.Holds q a := ⟨((hr.mem_delete hs q).mp hq.1).1, hq.2⟩
    refine delete_live.mpr ⟨hr.valid q a hholds, ?_⟩
    rintro rfl
    exact hunheld q hholds
  · by_cases hold : h.Live a
    · obtain rfl : a = o := by
        by_contra hne
        exact hdead (delete_live.mpr ⟨hold, hne⟩)
      exact hr.dies hs hheld hunheld
    · exact hr.doomed a hsa hold
  · rw [delete_deletions]
    split
    · exact (congrArg (· + 1) hlive.2).le
    · exact hr.once a
  · have hne : a ≠ o := fun hao => ha (hao ▸ hlive.1)
    rw [delete_deletions, if_neg hne]
    exact hr.unknown a ha

/-- Enough fuel gives back everything. -/
theorem Releasing.derefs (hs : s.Sound) {fuel : ℕ} (hr : Releasing s p w h)
    (hfuel : w.length + h.places.card ≤ fuel) :
    Releasing s p [] (SharedHeap.derefs fuel w h) := by
  induction fuel generalizing w h with
  | zero =>
    obtain rfl : w = [] := List.length_eq_zero_iff.mp (by omega)
    exact hr
  | succ fuel ih =>
    cases w with
    | nil => exact hr
    | cons o rest =>
      rw [List.length_cons] at hfuel
      have hlive := (hr.pending o List.mem_cons_self).1
      have hrefcount : (h.decrease o).refcount o = h.refcount o - 1 := by
        rw [decrease_refcount, if_pos rfl]
      simp only [SharedHeap.derefs, if_pos hlive, hrefcount]
      split
      · rename_i hlast
        refine ih (hr.delete hs hlast) ?_
        have hcard := card_delete (h.decrease o) o
        have hplaces : (h.decrease o).places.card = h.places.card := rfl
        rw [List.length_append]
        omega
      · rename_i hmore
        refine ih (hr.decrease hmore) ?_
        have hplaces : (h.decrease o).places.card = h.places.card := rfl
        omega

/-- Releasing a pointer gives back everything that hangs on it. -/
theorem Sound.release (hs : s.Sound) (hp : p ∈ s.places) : Releasing s p [] (s.release p) := by
  have herase := s.holders_erase hp
  have hvalid : ∀ q o, ({ s with places := s.places.erase p } : SharedHeap).Holds q o → s.Live o :=
    fun q o hq => hs.valid q o ⟨Finset.mem_of_mem_erase hq.1, hq.2⟩
  have hplaces : ∀ q, q ∈ s.places.erase p ↔ q ∈ s.places ∧ q ≠ p ∧ s.Stands q := by
    intro q
    rw [Finset.mem_erase]
    exact ⟨fun hq => ⟨hq.2, hq.1, hs.owners q hq.2⟩, fun hq => ⟨hq.2.1, hq.1⟩⟩
  have hstart : ∀ w : List ℕ, (∀ o, w.count o = if s.obj p = some o then 1 else 0) →
      Releasing s p w { s with places := s.places.erase p } := by
    intro w hw
    have hpending : ∀ o ∈ w, s.obj p = some o := by
      intro o ho
      have hcount := List.count_pos_iff.mpr ho
      rw [hw] at hcount
      by_contra hne
      rw [if_neg hne] at hcount
      exact Nat.lt_irrefl 0 hcount
    refine
      { obj := rfl, fields := rfl, known := rfl, places := hplaces, counted := fun o halive => ?_,
        positive := fun o halive hpos => ?_, pending := fun o ho => ?_, valid := hvalid,
        live := fun _ halive => halive, doomed := fun o halive hdead => absurd halive hdead,
        once := hs.once, unknown := hs.unknown, failed := hs.failed }
    · have hcounted := hs.counted o halive
      have hsplit := herase o
      rw [← hw] at hsplit
      exact hcounted.trans (by omega)
    · have hcounted := hs.counted o halive
      exact hcounted.symm ▸ Int.natCast_pos.mpr hpos
    · have hholds : s.Holds p o := ⟨hp, hpending o ho⟩
      exact ⟨hs.valid p o hholds, holders_pos.mpr ⟨p, hholds⟩⟩
  cases hobj : s.obj p with
  | none =>
    have heq : s.release p = { s with places := s.places.erase p } := by
      simp only [SharedHeap.release, hobj]
    rw [heq]
    exact hstart [] fun o => by simp [hobj]
  | some o =>
    have heq : s.release p = SharedHeap.derefs ((s.places.erase p).card + 1) [o]
        { s with places := s.places.erase p } := by
      simp only [SharedHeap.release, hobj, deref]
    rw [heq]
    refine (hstart [o] fun a => ?_).derefs hs ?_
    · simp [hobj, List.count_singleton]
    · simp only [List.length_singleton]
      omega

/-- What dies with a released pointer is deleted, and nothing else is. -/
theorem Releasing.dead_iff (hr : Releasing s p [] t) (hlive : s.Live o) :
    ¬ t.Live o ↔ s.Dies p o := by
  refine ⟨hr.doomed o hlive, fun hdies => ?_⟩
  clear hlive
  induction hdies with
  | @intro o part hheld howner _ ih =>
    intro halive
    have hpositive := hr.positive o halive (holders_pos.mpr hheld)
    have hcounted := hr.counted o halive
    rw [List.count_nil] at hcounted
    obtain ⟨q, hq⟩ := holders_pos.mp (show 0 < t.holders o by omega)
    obtain ⟨hplace, hne, hstands⟩ := (hr.places q).mp hq.1
    have hold : s.Holds q o := ⟨hplace, hr.obj ▸ hq.2⟩
    exact ih q hold hne (hstands _ (howner q hold hne))

/-- Exactly the objects that lose their last holder are deleted. -/
theorem Releasing.deleted (hr : Releasing s p [] t) (hlive : s.Live o) :
    ¬ t.Live o ↔ 0 < s.holders o ∧ t.holders o = 0 := by
  constructor
  · intro hdead
    have hdies := hr.doomed o hlive hdead
    exact ⟨holders_pos.mpr hdies.held, holders_eq_zero.mpr fun q hq => hdead (hr.valid q o hq)⟩
  · rintro ⟨hpos, hzero⟩ halive
    have hpositive := hr.positive o halive hpos
    have hcounted := hr.counted o halive
    rw [List.count_nil, hzero] at hcounted
    omega

/-- Once nothing is left to release the heap is sound. -/
theorem Releasing.sound (hs : s.Sound) (hr : Releasing s p [] t) : t.Sound where
  counted o halive := by simpa using hr.counted o halive
  valid := hr.valid
  owners q hq := ((hr.places q).mp hq).2.2
  bounded o i hplace := by
    rw [hr.fields]
    exact hs.bounded o i ((hr.places _).mp hplace).1
  once := hr.once
  unknown := hr.unknown
  failed := hr.failed

/-- The released pointer is gone. -/
theorem Releasing.notMem (hr : Releasing s p [] t) : p ∉ t.places := fun hp =>
  ((hr.places p).mp hp).2.1 rfl

/-! ### The operations -/

/-- The holders of an object after a new pointer is made. -/
theorem holders_insert (s : SharedHeap) (hp : p ∉ s.places) (other : Option ℕ) (o : ℕ) :
    ({ s with places := insert p s.places, obj := Function.update s.obj p other } :
      SharedHeap).holders o = s.holders o + if other = some o then 1 else 0 := by
  have hsame : s.places.filter (fun q => Function.update s.obj p other q = some o) =
      s.places.filter fun q => s.obj q = some o := by
    refine Finset.filter_congr fun q hq => ?_
    have hne : q ≠ p := by
      rintro rfl
      exact hp hq
    rw [Function.update_of_ne hne]
  simp only [holders, Finset.filter_insert, Function.update_self, hsame]
  split
  · have hnot : p ∉ s.places.filter fun q => s.obj q = some o :=
      fun hmem => hp (Finset.mem_filter.mp hmem).1
    rw [Finset.card_insert_of_notMem hnot]
  · rw [Nat.add_zero]

/-- What `point` does with a pointer to an object that exists, or a null pointer. -/
theorem point_eq (hother : ∀ o ∈ other, s.Live o) :
    s.point p other =
      { s with
        places := insert p s.places
        obj := Function.update s.obj p other
        refcount := fun o => s.refcount o + if other = some o then 1 else 0 } := by
  cases other with
  | none => simp [point]
  | some o =>
    have hlive : ({ s with
        places := insert p s.places, obj := Function.update s.obj p (some o) } : SharedHeap).Live o :=
      hother o rfl
    simp only [point, ref, if_pos hlive]
    congr 1
    funext a
    by_cases hao : a = o
    · subst hao
      simp
    · simp [hao, Ne.symm hao]

/-- A new pointer to an object that exists keeps the counts. -/
theorem Sound.point (hs : s.Sound) (hp : p ∉ s.places) (hstands : s.Stands p)
    (hbound : ∀ o i, p = .field o i → i < s.fields o) (hother : ∀ o ∈ other, s.Live o) :
    (s.point p other).Sound := by
  rw [point_eq hother]
  refine
    { counted := fun o halive => ?_, valid := fun q o hq => ?_, owners := fun q hq => ?_,
      bounded := fun o i hplace => ?_, once := hs.once, unknown := hs.unknown, failed := hs.failed }
  · have hcounted := hs.counted o halive
    have hinsert := s.holders_insert hp other o
    have hsame : ({ s with
        places := insert p s.places
        obj := Function.update s.obj p other
        refcount := fun o => s.refcount o + if other = some o then 1 else 0 } :
          SharedHeap).holders o = ({ s with
        places := insert p s.places, obj := Function.update s.obj p other } :
          SharedHeap).holders o := rfl
    rw [hsame, hinsert, Int.natCast_add, ← hcounted]
    exact congrArg (s.refcount o + ·) (by split <;> rfl)
  · have hobj : Function.update s.obj p other q = some o := hq.2
    by_cases heq : q = p
    · subst heq
      rw [Function.update_self] at hobj
      exact hother o hobj
    · rw [Function.update_of_ne heq] at hobj
      exact hs.valid q o ⟨(Finset.mem_insert.mp hq.1).resolve_left heq, hobj⟩
  · cases Finset.mem_insert.mp hq with
    | inl heq => exact heq ▸ hstands
    | inr hold => exact hs.owners q hold
  · cases Finset.mem_insert.mp hplace with
    | inl heq => exact hbound o i heq.symm
    | inr hold => exact hs.bounded o i hold

/-- Pointing a new place changes no object. -/
theorem point_live (hother : ∀ o ∈ other, s.Live o) : (s.point p other).Live o ↔ s.Live o := by
  rw [point_eq hother]
  rfl

/-- The object pointed at has one more holder. -/
theorem point_holders (hp : p ∉ s.places) (hother : ∀ o ∈ other, s.Live o) (o : ℕ) :
    (s.point p other).holders o = s.holders o + if other = some o then 1 else 0 := by
  rw [point_eq hother]
  exact s.holders_insert hp other o

/-- The counts of a sound heap are right, so what is left to say is which objects were deleted. -/
theorem Sound.kept (ht : t.Sound)
    (hdeleted : ∀ o, s.Live o → (¬ t.Live o ↔ 0 < s.holders o ∧ t.holders o = 0)) : Kept s t where
  failed := ht.failed
  counted := ht.counted
  once := ht.once
  deleted := hdeleted

/-- An operation that deletes nothing and takes no holder away. -/
theorem Sound.kept_of_live (ht : t.Sound) (hlive : ∀ o, s.Live o → t.Live o)
    (hholders : ∀ o, s.Live o → s.holders o ≤ t.holders o) : Kept s t := by
  refine ht.kept fun o halive => iff_of_false (not_not.mpr (hlive o halive)) ?_
  rintro ⟨hpos, hzero⟩
  have hle := hholders o halive
  omega

/-- A new pointer keeps the counts and deletes nothing. -/
theorem Sound.kept_point (hs : s.Sound) {r : ℕ} (hp : .root r ∉ s.places)
    (hother : ∀ o ∈ other, s.Live o) :
    (s.point (.root r) other).Sound ∧ Kept s (s.point (.root r) other) := by
  have hsound := hs.point hp (fun a ha => by cases ha) (fun o i heq => by cases heq) hother
  refine ⟨hsound, hsound.kept_of_live (fun o => (point_live hother).mpr) fun o _ => ?_⟩
  rw [point_holders hp hother]
  exact Nat.le_add_right _ _

/-- A new object is alive. -/
theorem newObject_live (hs : s.Sound) (hnew : o ∉ s.known) (n : ℕ) :
    (s.newObject o n).Live a ↔ s.Live a ∨ a = o := by
  simp only [Live, SharedHeap.newObject, Finset.mem_insert]
  by_cases hao : a = o
  · subst hao
    simp [hs.unknown _ hnew]
  · simp [hao]

/-- Its counter starts at 0. -/
theorem newObject_refcount (s : SharedHeap) (o n a : ℕ) :
    (s.newObject o n).refcount a = if a = o then 0 else s.refcount a :=
  Function.update_apply ..

/-- It has its fields. -/
theorem newObject_fields (s : SharedHeap) (o n a : ℕ) :
    (s.newObject o n).fields a = if a = o then n else s.fields a :=
  Function.update_apply ..

/-- No pointer is a member of an object that is not known yet. -/
theorem Sound.owner_ne (hs : s.Sound) (hnew : o ∉ s.known) (hq : q ∈ s.places) : q.owner ≠ some o :=
  fun howner => hnew (hs.owners q hq o howner).1

/-- The members of a new object hold nothing. -/
theorem newObject_holds (hs : s.Sound) (hnew : o ∉ s.known) (n : ℕ) :
    (s.newObject o n).Holds q a ↔ s.Holds q a := by
  simp only [Holds, SharedHeap.newObject, Finset.mem_union, Finset.mem_image, Finset.mem_range]
  constructor
  · rintro ⟨hplace, hobj⟩
    split at hobj
    · cases hobj
    · rename_i hnot
      refine ⟨hplace.resolve_right ?_, hobj⟩
      rintro ⟨i, -, rfl⟩
      exact hnot rfl
  · rintro ⟨hplace, hobj⟩
    exact ⟨.inl hplace, by rw [if_neg (hs.owner_ne hnew hplace), hobj]⟩

/-- It moves no pointer. -/
theorem newObject_holders (hs : s.Sound) (hnew : o ∉ s.known) (n a : ℕ) :
    (s.newObject o n).holders a = s.holders a := by
  refine congrArg Finset.card (Finset.ext fun q => ?_)
  rw [Finset.mem_filter, Finset.mem_filter]
  exact newObject_holds hs hnew n

/-- A new object has a count of zero and null pointers. -/
theorem Sound.newObject (hs : s.Sound) (hnew : o ∉ s.known) (n : ℕ) :
    (s.newObject o n).Sound ∧ Kept s (s.newObject o n) := by
  have hsound : (s.newObject o n).Sound := by
    refine
      { counted := fun a halive => ?_, valid := fun q a hq => ?_, owners := fun q hq a ha => ?_,
        bounded := fun a i hplace => ?_, once := hs.once,
        unknown := fun a ha => hs.unknown a fun hold => ha (Finset.mem_insert_of_mem hold),
        failed := hs.failed }
    · rw [newObject_holders hs hnew, newObject_refcount]
      split
      · rename_i hao
        subst hao
        have hzero : s.holders a = 0 := holders_eq_zero.mpr fun q hq => hnew (hs.valid q a hq).1
        rw [hzero]
        rfl
      · rename_i hao
        exact hs.counted a (((newObject_live hs hnew n).mp halive).resolve_right hao)
    · exact (newObject_live hs hnew n).mpr (.inl (hs.valid q a ((newObject_holds hs hnew n).mp hq)))
    · cases Finset.mem_union.mp hq with
      | inl hold => exact (newObject_live hs hnew n).mpr (.inl (hs.owners q hold a ha))
      | inr hfield =>
        obtain ⟨i, -, rfl⟩ := Finset.mem_image.mp hfield
        exact (newObject_live hs hnew n).mpr (.inr (Option.some.inj ha).symm)
    · rw [newObject_fields]
      cases Finset.mem_union.mp hplace with
      | inl hold =>
        rw [if_neg fun hao => hs.owner_ne hnew hold (congrArg some hao)]
        exact hs.bounded a i hold
      | inr hfield =>
        obtain ⟨j, hj, heq⟩ := Finset.mem_image.mp hfield
        obtain ⟨rfl, rfl⟩ := Place.field.inj heq
        rw [if_pos rfl]
        exact Finset.mem_range.mp hj
  exact ⟨hsound, hsound.kept_of_live (fun a halive => (newObject_live hs hnew n).mpr (.inl halive))
    fun a _ => (newObject_holders hs hnew n a).ge⟩

/-- A pointer is released, and points to an object that has survived. -/
theorem Sound.kept_reassign (hs : s.Sound) (hp : p ∈ s.places) (hstands : (s.release p).Stands p)
    (hother : ∀ o ∈ other, (s.release p).Live o) :
    ((s.release p).point p other).Sound ∧ Kept s ((s.release p).point p other) := by
  have hr := hs.release hp
  have hsound := (hr.sound hs).point hr.notMem hstands
    (fun o i heq => hr.fields ▸ hs.bounded o i (heq ▸ hp)) hother
  refine ⟨hsound, hsound.kept fun o halive => ?_⟩
  rw [point_live hother, hr.deleted halive, point_holders hr.notMem hother]
  refine and_congr_right fun hpos => ?_
  constructor
  · intro hzero
    rw [if_neg, hzero]
    intro heq
    exact (hr.deleted halive).mpr ⟨hpos, hzero⟩ (hother o heq)
  · intro hzero
    omega

/-- The source and the pointer are there after the release exactly if their objects do not die. -/
theorem Sound.stands_release (hs : s.Sound) (hp : p ∈ s.places) (hq : q ∈ s.places) :
    (s.release p).Stands q ↔ ∀ a ∈ q.owner, ¬ s.Dies p a := by
  have hr := hs.release hp
  refine forall₂_congr fun a ha => ?_
  rw [← hr.dead_iff (hs.owners q hq a ha), not_not]

/-- Two ways an assignment can end: its source and the pointer itself have survived and it is right,
or one of them has not and the assignment fails. -/
theorem Sound.assign_cases (hs : s.Sound) (hp : p ∈ s.places) (hq : q ∈ s.places) :
    let survives := s.obj q ≠ s.obj p →
      (∀ a ∈ q.owner, ¬ s.Dies p a) ∧ ∀ a ∈ p.owner, ¬ s.Dies p a
    (survives ∧ (s.assign p q).Sound ∧ Kept s (s.assign p q)) ∨
      (¬ survives ∧ (s.assign p q).failed = true) := by
  intro survives
  by_cases hne : s.obj q = s.obj p
  · rw [show s.assign p q = s from if_pos hne]
    exact .inl ⟨fun hnot => absurd hne hnot, hs,
      hs.kept_of_live (fun _ => id) fun _ _ => le_rfl⟩
  · have hr := hs.release hp
    have hqp : q ≠ p := fun heq => hne (congrArg s.obj heq)
    have hmem : q ∈ (s.release p).places ↔ ∀ a ∈ q.owner, ¬ s.Dies p a := by
      rw [hr.places, ← hs.stands_release hp hq]
      exact ⟨fun h => h.2.2, fun h => ⟨hq, hqp, h⟩⟩
    have hsurvives : survives ↔ (s.release p).Stands p ∧ q ∈ (s.release p).places := by
      rw [hmem, hs.stands_release hp hp, and_comm]
      exact ⟨fun h => h hne, fun h _ => h⟩
    rw [show s.assign p q = _ from if_neg hne]
    by_cases hthere : (s.release p).Stands p ∧ q ∈ (s.release p).places
    · simp only [if_pos hthere]
      refine .inl ⟨hsurvives.mpr hthere, hs.kept_reassign hp hthere.1 fun o ho => ?_⟩
      exact hr.valid q o ⟨hthere.2, ho⟩
    · simp only [if_neg hthere]
      exact .inr ⟨fun h => hthere (hsurvives.mp h), trivial⟩

/-- The same for a pointer to an object that exists. -/
theorem Sound.assignRaw_cases (hs : s.Sound) (hp : p ∈ s.places) (hother : ∀ o ∈ other, s.Live o) :
    let survives := other ≠ s.obj p →
      (∀ o ∈ other, ¬ s.Dies p o) ∧ ∀ a ∈ p.owner, ¬ s.Dies p a
    (survives ∧ (s.assignRaw p other).Sound ∧ Kept s (s.assignRaw p other)) ∨
      (¬ survives ∧ (s.assignRaw p other).failed = true) := by
  intro survives
  by_cases hne : other = s.obj p
  · rw [show s.assignRaw p other = s from if_pos hne]
    exact .inl ⟨fun hnot => absurd hne hnot, hs,
      hs.kept_of_live (fun _ => id) fun _ _ => le_rfl⟩
  · have hr := hs.release hp
    have hlive : (∀ o ∈ other, (s.release p).Live o) ↔ ∀ o ∈ other, ¬ s.Dies p o := by
      refine forall₂_congr fun o ho => ?_
      rw [← hr.dead_iff (hother o ho), not_not]
    have hsurvives : survives ↔
        (∀ o ∈ other, (s.release p).Live o) ∧ (s.release p).Stands p := by
      rw [hlive, hs.stands_release hp hp]
      exact ⟨fun h => h hne, fun h _ => h⟩
    rw [show s.assignRaw p other = _ from if_neg hne]
    by_cases hstands : (s.release p).Stands p
    · simp only [if_pos hstands]
      by_cases hthere : ∀ o ∈ other, (s.release p).Live o
      · exact .inl ⟨hsurvives.mpr ⟨hthere, hstands⟩, hs.kept_reassign hp hstands hthere⟩
      · refine .inr ⟨fun h => hthere (hsurvives.mp h).1, ?_⟩
        simp only [not_forall] at hthere
        obtain ⟨o, rfl, hdead⟩ := hthere
        have hdead' : ¬ ({ s.release p with
            places := insert p (s.release p).places
            obj := Function.update (s.release p).obj p (some o) } : SharedHeap).Live o := hdead
        simp only [SharedHeap.point, ref, if_neg hdead']
    · simp only [if_neg hstands]
      exact .inr ⟨fun h => hstands (hsurvives.mp h).2, trivial⟩

/-- In a heap without cycles a pointer is never a member of what dies with it. -/
theorem Acyclic.not_dies_owner (hs : s.Acyclic) (p : Place) : ∀ a ∈ p.owner, ¬ s.Dies p a :=
  fun _ ha => Doomed.not_owner hs
    (fun _ _ hb hc => Option.some.inj (hb.2.symm.trans hc.2)) ha

variable (s) in
/-- The condition for heaps that may have cycles: the pointer itself does not die either. -/
def Survives (s : SharedHeap) : PtrAction → Prop
  | .assign p other =>
    s.obj other ≠ s.obj p → (∀ a ∈ other.owner, ¬ s.Dies p a) ∧ ∀ a ∈ p.owner, ¬ s.Dies p a
  | .assignRaw p other =>
    other ≠ s.obj p → (∀ o ∈ other, ¬ s.Dies p o) ∧ ∀ a ∈ p.owner, ¬ s.Dies p a
  | _ => True

/-- Without cycles the pointer itself never dies. -/
theorem Acyclic.survives_iff (hs : s.Acyclic) (a : PtrAction) : s.Survives a ↔ s.Proper a := by
  cases a with
  | assign p other =>
    exact forall_congr' fun _ => and_iff_left (hs.not_dies_owner p)
  | assignRaw p other =>
    exact forall_congr' fun _ => and_iff_left (hs.not_dies_owner p)
  | _ => exact Iff.rfl

/-- Every operation is right, or it goes on to use what it has destroyed and fails. -/
theorem Sound.step_cases (hs : s.Sound) {a : PtrAction} (h : s.step a = some t) :
    (s.Survives a ∧ t.Sound ∧ Kept s t) ∨ (¬ s.Survives a ∧ t.failed = true) := by
  simp only [step, hs.failed, Bool.false_eq_true, if_false] at h
  cases a with
  | newObject o n =>
    simp only [Option.ite_none_left_eq_some, Option.some.injEq] at h
    obtain ⟨hnew, rfl⟩ := h
    exact .inl ⟨trivial, hs.newObject hnew n⟩
  | newPtr r other =>
    simp only [Option.ite_none_right_eq_some, Option.some.injEq] at h
    obtain ⟨⟨hr, hother⟩, rfl⟩ := h
    exact .inl ⟨trivial, hs.kept_point hr hother⟩
  | copyPtr r other =>
    simp only [Option.ite_none_right_eq_some, Option.some.injEq] at h
    obtain ⟨⟨hr, hother⟩, rfl⟩ := h
    exact .inl ⟨trivial, hs.kept_point hr fun o ho => hs.valid other o ⟨hother, ho⟩⟩
  | assign p other =>
    simp only [Option.ite_none_right_eq_some, Option.some.injEq] at h
    obtain ⟨⟨hp, hother⟩, rfl⟩ := h
    exact hs.assign_cases hp hother
  | assignRaw p other =>
    simp only [Option.ite_none_right_eq_some, Option.some.injEq] at h
    obtain ⟨⟨hp, hother⟩, rfl⟩ := h
    exact hs.assignRaw_cases hp hother
  | destroyPtr r =>
    simp only [Option.ite_none_right_eq_some, Option.some.injEq] at h
    obtain ⟨hp, rfl⟩ := h
    have hr := hs.release hp
    have hsound := hr.sound hs
    exact .inl ⟨trivial, hsound, hsound.kept fun o halive => hr.deleted halive⟩

/-- The empty heap is sound. -/
theorem sound_empty : ({} : SharedHeap).Sound where
  counted o halive := absurd halive.1 (Finset.notMem_empty o)
  valid q _ hq := absurd hq.1 (Finset.notMem_empty q)
  owners q hq := absurd hq (Finset.notMem_empty q)
  bounded _ _ hplace := absurd hplace (Finset.notMem_empty _)
  once _ := Nat.zero_le 1
  unknown _ _ := rfl
  failed := rfl

end SharedHeap

/-- In any run, also with cycles, the counts stay right exactly while no assignment destroys its source
or the pointer it assigns to. -/
theorem SharedHeap.kept_iff_survives (as : List PtrAction) :
    (sharedMachine.Along (fun s a => ∀ t, s.step a = some t → SharedHeap.Kept s t) {} as) ↔
      sharedMachine.Along (fun s a => (s.step a).isSome → s.Survives a) {} as := by
  refine Machine.along_iff_along (I := SharedHeap.Sound) ?_ ?_ SharedHeap.sound_empty as
  · intro s a hs
    constructor
    · intro hkept hstep
      obtain ⟨t, ht⟩ := Option.isSome_iff_exists.mp hstep
      obtain ⟨hsurvives, -⟩ | ⟨-, hfailed⟩ := hs.step_cases ht
      · exact hsurvives
      · exact absurd (hkept t ht).failed (by simp [hfailed])
    · intro hok t ht
      obtain ⟨-, -, hkept⟩ | ⟨hnot, -⟩ := hs.step_cases ht
      · exact hkept
      · exact absurd (hok (by simp [ht])) hnot
  · intro s a t hs hok ht
    obtain ⟨-, hsound, -⟩ | ⟨hnot, -⟩ := hs.step_cases ht
    · exact hsound
    · exact absurd (hok (by rw [show s.step a = some t from ht]; rfl)) hnot

/-- In a run without cycles of references the counts are right after every operation, and exactly the
objects that lose their last holder are deleted, once and before nobody uses them, exactly when
no assignment destroys its source before it takes the new reference. -/
theorem refcounts_iff_proper {as : List PtrAction}
    (hacyclic : sharedMachine.Along (fun s _ => s.Acyclic) {} as) :
    (sharedMachine.Along (fun s a => ∀ t, s.step a = some t → SharedHeap.Kept s t) {} as) ↔
      sharedMachine.Along (fun s a => (s.step a).isSome → s.Proper a) {} as :=
  (SharedHeap.kept_iff_survives as).trans <|
    hacyclic.congr fun _ a hs => forall_congr' fun _ => hs.survives_iff a

namespace SharedHeap

/-- Members point only to objects with greater numbers. -/
def Increasing (s : SharedHeap) : Prop := ∀ q ∈ s.places, ∀ a ∈ q.owner, ∀ b ∈ s.obj q, a < b

instance (s : SharedHeap) : Decidable s.Increasing :=
  inferInstanceAs (Decidable (∀ q ∈ s.places, ∀ a ∈ q.owner, ∀ b ∈ s.obj q, _))

/-- There are no cycles then. -/
theorem Increasing.acyclic {s : SharedHeap} (hs : s.Increasing) : s.Acyclic := by
  have hlt : ∀ a b, Relation.TransGen (fun a b => ∃ q : Place, q.owner = some a ∧ s.Holds q b) a b →
      a < b := by
    intro a b hpath
    induction hpath with
    | single hstep =>
      obtain ⟨q, howner, hholds⟩ := hstep
      exact hs q hholds.1 _ howner _ hholds.2
    | tail _ hstep ih =>
      obtain ⟨q, howner, hholds⟩ := hstep
      exact ih.trans (hs q hholds.1 _ howner _ hholds.2)
  exact fun a hcycle => Nat.lt_irrefl a (hlt a a hcycle)

end SharedHeap

/-- The second object of a list is reached by an assignment through the pointer that alone holds the
first one, or through one of two such pointers. -/
def popRun (second : Bool) : List PtrAction :=
  [.newObject 0 1, .newPtr 0 (some 0), .newObject 1 1, .assignRaw (.field 0 0) (some 1)] ++
    (if second then [.copyPtr 1 (.root 0)] else []) ++ [.assign (.root 0) (.field 0 0)]

/-- With two pointers the counts stay right. -/
theorem refcounts_popRun :
    sharedMachine.Along (fun s a => ∀ t, s.step a = some t → SharedHeap.Kept s t) {}
      (popRun true) := by
  have hincreasing : sharedMachine.Along (fun s _ => s.Increasing) {} (popRun true) := by decide
  refine (refcounts_iff_proper (hincreasing.mono fun _ _ hs => hs.acyclic)).mpr ?_
  refine ⟨fun _ => trivial, fun _ => trivial, fun _ => trivial, fun _ _ => ?_, fun _ => trivial,
    fun _ _ => ?_, trivial⟩
  · intro o hsource hdies
    obtain rfl : o = 1 := (Option.some.inj hsource).symm
    obtain ⟨q, hplace, hobj⟩ := hdies.held
    revert q
    decide
  · intro o howner hdies
    obtain rfl : o = 0 := (Option.some.inj howner).symm
    cases hdies with
    | intro part hheld howner hdoomed =>
      cases howner (.root 1) ⟨by decide, rfl⟩ (by decide)

/-- With one pointer, and without cycles, the assignment reads a member of the object it has just
deleted. -/
theorem popRun_not_kept :
    sharedMachine.Along (fun s _ => s.Increasing) {} (popRun false) ∧
      ¬ sharedMachine.Along (fun s a => ∀ t, s.step a = some t → SharedHeap.Kept s t) {}
        (popRun false) :=
  ⟨by decide, fun h => absurd (h.2.2.2.2.1 _ rfl).failed (by decide)⟩

end Multicrew.Core
