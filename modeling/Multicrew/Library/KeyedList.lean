import Mathlib.Data.List.Basic
import Mathlib.Data.Option.Basic

/-!
# Lists of keyed entries

A list of keys with values is searched for its first entry with a key. Keys are compared by what a
function makes of them. An entry is altered in place, or appended when there is none. Two lists of
this kind nest: the values of the outer one are lists again.
-/

namespace Multicrew.Library.KeyedList

variable {κ ν β : Type*} [DecidableEq ν] (norm : κ → ν)

/-- The value of the first entry with a key. -/
def lookup (l : List (κ × β)) (k : κ) : Option β :=
  (l.find? fun e => norm e.1 = norm k).map Prod.snd

/-- Alter the value of the first entry with a key, or append an entry. -/
def alter (k : κ) (f : Option β → β) : List (κ × β) → List (κ × β)
  | [] => [(k, f none)]
  | e :: rest => if norm e.1 = norm k then (e.1, f (some e.2)) :: rest else e :: alter k f rest

/-- The value under an outer and an inner key. -/
def lookup₂ (l : List (κ × List (κ × β))) (g k : κ) : Option β :=
  (lookup norm l g).bind fun items => lookup norm items k

/-- Put a value under an outer and an inner key. -/
def put₂ (g k : κ) (value : β) (l : List (κ × List (κ × β))) : List (κ × List (κ × β)) :=
  alter norm g (fun items => alter norm k (fun _ => value) (items.getD [])) l

variable {norm}

/-- The empty list has no keys. -/
@[simp] theorem lookup_nil (k : κ) : lookup norm ([] : List (κ × β)) k = none := rfl

/-- The first entry decides, if it has the key. -/
theorem lookup_cons (e : κ × β) (l : List (κ × β)) (k : κ) :
    lookup norm (e :: l) k = if norm e.1 = norm k then some e.2 else lookup norm l k := by
  rw [lookup, List.find?_cons]
  by_cases h : norm e.1 = norm k
  · simp [h]
  · simp [h, lookup]

/-- After an alteration the key has the altered value, and the other keys have theirs. -/
theorem lookup_alter (k k' : κ) (f : Option β → β) (l : List (κ × β)) :
    lookup norm (alter norm k f l) k' =
      if norm k = norm k' then some (f (lookup norm l k)) else lookup norm l k' := by
  induction l with
  | nil => simp [alter, lookup_cons]
  | cons e rest ih =>
    rw [alter]
    by_cases he : norm e.1 = norm k
    · rw [if_pos he, lookup_cons, lookup_cons, lookup_cons, if_pos he]
      by_cases hk : norm k = norm k'
      · rw [if_pos (he.trans hk), if_pos hk]
      · have he' : ¬ norm e.1 = norm k' := fun h => hk (he.symm.trans h)
        rw [if_neg he', if_neg hk, if_neg he']
    · rw [if_neg he, lookup_cons, lookup_cons, lookup_cons, if_neg he, ih]
      by_cases hk : norm k = norm k'
      · have he' : ¬ norm e.1 = norm k' := fun h => he (h.trans hk.symm)
        rw [if_neg he', if_pos hk, if_pos hk]
      · rw [if_neg hk, if_neg hk]

/-- What holds of all entries holds after an alteration if it does of the altered entries and of a new
one. -/
theorem forall_alter {P : κ × β → Prop} {k : κ} {f : Option β → β} {l : List (κ × β)}
    (hall : ∀ e ∈ l, P e) (hold : ∀ e ∈ l, norm e.1 = norm k → P (e.1, f (some e.2)))
    (hnew : P (k, f none)) : ∀ e ∈ alter norm k f l, P e := by
  induction l with
  | nil => simpa [alter] using hnew
  | cons e rest ih =>
    have hrest := ih (fun e' he' => hall e' (List.mem_cons_of_mem e he'))
      fun e' he' => hold e' (List.mem_cons_of_mem e he')
    have hfirst := hall e List.mem_cons_self
    rw [alter]
    split
    · rename_i hkey
      rw [List.forall_mem_cons]
      exact ⟨hold e List.mem_cons_self hkey, fun e' he' => hall e' (List.mem_cons_of_mem e he')⟩
    · rw [List.forall_mem_cons]
      exact ⟨hfirst, hrest⟩

/-- After a value is put, both its keys lead to it, and every other pair of keys to what it did. -/
theorem lookup₂_put₂ (g g' k k' : κ) (value : β) (l : List (κ × List (κ × β))) :
    lookup₂ norm (put₂ norm g k value l) g' k' =
      if norm g = norm g' ∧ norm k = norm k' then some value else lookup₂ norm l g' k' := by
  rw [lookup₂, put₂, lookup_alter]
  by_cases hg : norm g = norm g'
  · have hsame : lookup norm l g = lookup norm l g' := by simp only [lookup, hg]
    rw [if_pos hg, Option.bind_some, lookup_alter, hsame]
    by_cases hk : norm k = norm k'
    · rw [if_pos hk, if_pos ⟨hg, hk⟩]
    · rw [if_neg hk, if_neg fun h => hk h.2, lookup₂]
      cases lookup norm l g' with
      | none => rfl
      | some items => rfl
  · rw [if_neg hg, if_neg fun h => hg h.1, lookup₂]

/-- Altering by position the first entry with a key. -/
theorem modify_eq_alter {k : κ} {i : ℕ} (f : β → β) (d : β) {l : List (κ × β)}
    (h : l.findIdx? (fun e => norm e.1 = norm k) = some i) :
    (l.modify i fun e => (e.1, f e.2)) = alter norm k (fun value => f (value.getD d)) l := by
  induction l generalizing i with
  | nil => cases h
  | cons e rest ih =>
    rw [List.findIdx?_cons] at h
    by_cases he : norm e.1 = norm k
    · simp only [he, decide_true, if_true, Option.some.injEq] at h
      subst h
      simp [alter, he]
    · simp only [he, decide_false, Bool.false_eq_true, if_false, Option.map_eq_some_iff] at h
      obtain ⟨j, hj, rfl⟩ := h
      simp [alter, he, ih hj]

/-- An entry with the default value may be appended first when the key is missing. -/
theorem alter_append {k : κ} (f : β → β) (d : β) {l : List (κ × β)}
    (h : l.findIdx? (fun e => norm e.1 = norm k) = none) :
    alter norm k (fun value => f (value.getD d)) (l ++ [(k, d)]) =
      alter norm k (fun value => f (value.getD d)) l := by
  induction l with
  | nil => simp [alter]
  | cons e rest ih =>
    rw [List.findIdx?_cons] at h
    by_cases he : norm e.1 = norm k
    · simp [he] at h
    · simp only [he, decide_false, Bool.false_eq_true, if_false, Option.map_eq_none_iff] at h
      simp only [List.cons_append, alter, if_neg he, ih h]

end Multicrew.Library.KeyedList
