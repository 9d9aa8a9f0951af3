import Mathlib.Data.List.Basic
import Mathlib.Data.List.Range

/-!
# Memory and its windows

A memory is a function of addresses. A window is the run of values from an address on, and a block is
written the same way. A copy of a memory that agrees with it in some windows is brought up to date by
writing only the windows that have changed.
-/

namespace Multicrew.Library.Memory

variable {α : Type*} (m : ℕ → α)

/-- The values of `size` addresses from `start` on. -/
def window (start size : ℕ) : List α := (List.range size).map fun i => m (start + i)

/-- The memory after a block is written from `start` on. -/
def write (start : ℕ) (block : List α) : ℕ → α := fun a =>
  if a < start then m a else (block[a - start]?).getD (m a)

/-- Several windows of one memory are written into another one. -/
def refresh (source : ℕ → α) (windows : List (ℕ × ℕ)) : ℕ → α :=
  windows.foldl (fun m w => write m w.1 (window source w.1 w.2)) m

/-- Two memories agree in some windows. -/
def Agree (windows : List (ℕ × ℕ)) (m m' : ℕ → α) : Prop :=
  ∀ w ∈ windows, window m w.1 w.2 = window m' w.1 w.2

variable {m} {m' m'' : ℕ → α} {start size : ℕ} {windows : List (ℕ × ℕ)}

/-- A window is as long as asked for. -/
@[simp] theorem length_window (m : ℕ → α) (start size : ℕ) : (window m start size).length = size := by
  simp [window]

/-- Windows are equal if the memories are there. -/
theorem window_eq_iff :
    window m start size = window m' start size ↔ ∀ i < size, m (start + i) = m' (start + i) := by
  simp [window, List.map_inj_left]

/-- A window is split anywhere. -/
theorem window_add (m : ℕ → α) (start size size' : ℕ) :
    window m start (size + size') = window m start size ++ window m (start + size) size' := by
  simp only [window, List.range_add, List.map_append, List.map_map, Function.comp_def,
    Nat.add_assoc]

/-- A block stands where it was written. -/
theorem window_write_self (m : ℕ → α) (start : ℕ) (block : List α) :
    window (write m start block) start block.length = block := by
  refine List.ext_getElem (by simp) fun i hi hblock => ?_
  have hhigh : ¬ start + i < start := by omega
  simp only [window, List.getElem_map, List.getElem_range, write, if_neg hhigh,
    Nat.add_sub_cancel_left, List.getElem?_eq_getElem hblock, Option.getD_some]

/-- A write elsewhere leaves a window. -/
theorem window_write_of_disjoint (m : ℕ → α) {start' : ℕ} {block : List α}
    (h : start + size ≤ start' ∨ start' + block.length ≤ start) :
    window (write m start' block) start size = window m start size := by
  rw [window_eq_iff]
  intro i hi
  rw [write]
  split
  · rfl
  · rw [List.getElem?_eq_none (by omega), Option.getD_none]

/-- Memories that hold the same value somewhere still do after the same write. -/
theorem write_congr (start : ℕ) (block : List α) {a : ℕ} (h : m a = m' a) :
    write m start block a = write m' start block a := by
  simp only [write, h]

/-- A block written at the end of a window extends it. -/
theorem window_write_end (m : ℕ → α) (size : ℕ) (block : List α) :
    window (write m size block) 0 (size + block.length) = window m 0 size ++ block := by
  rw [window, List.range_add, List.map_append, List.map_map]
  congr 1
  · refine List.map_congr_left fun i hi => ?_
    have hlow : 0 + i < size := by simpa using List.mem_range.mp hi
    simp only [write, if_pos hlow]
  · refine List.ext_getElem (by simp) fun i hi _ => ?_
    have hblock : i < block.length := by simpa using hi
    have hhigh : ¬ 0 + (size + i) < size := by omega
    have hindex : 0 + (size + i) - size = i := by omega
    simp only [List.getElem_map, List.getElem_range, Function.comp_apply, write, if_neg hhigh,
      hindex, List.getElem?_eq_getElem hblock, Option.getD_some]

/-- A window of another memory that is written takes its values from there. -/
theorem write_window_apply (m source : ℕ → α) (start size a : ℕ) :
    write m start (window source start size) a =
      if start ≤ a ∧ a < start + size then source a else m a := by
  rw [write]
  by_cases hlow : a < start
  · rw [if_pos hlow, if_neg (by omega)]
  · rw [if_neg hlow]
    by_cases hhigh : a < start + size
    · have hin : a - start < size := by omega
      have haddress : start + (a - start) = a := by omega
      rw [if_pos (by omega), window, List.getElem?_map, List.getElem?_range hin]
      simp [haddress]
    · rw [if_neg (by omega), List.getElem?_eq_none (by simp; omega)]
      rfl

/-- What is refreshed comes from the source. -/
theorem refresh_of_mem (m source : ℕ → α) {a : ℕ} {w : ℕ × ℕ} (hw : w ∈ windows)
    (hlow : w.1 ≤ a) (hhigh : a < w.1 + w.2) : refresh m source windows a = source a := by
  induction windows using List.reverseRecOn with
  | nil => simp at hw
  | append_singleton front last ih =>
    have hstep : refresh m source (front ++ [last]) =
        write (refresh m source front) last.1 (window source last.1 last.2) := by
      simp [refresh]
    rw [hstep, write_window_apply]
    split
    · rfl
    · rename_i hout
      rcases List.mem_append.mp hw with hin | hin
      · exact ih hin
      · rw [List.mem_singleton] at hin
        exact absurd ⟨hin ▸ hlow, hin ▸ hhigh⟩ hout

/-- What no window covers stays. -/
theorem refresh_of_not_mem (m source : ℕ → α) {a : ℕ}
    (hout : ∀ w ∈ windows, ¬ (w.1 ≤ a ∧ a < w.1 + w.2)) : refresh m source windows a = m a := by
  induction windows generalizing m with
  | nil => rfl
  | cons w rest ih =>
    have hstep : refresh m source (w :: rest) =
        refresh (write m w.1 (window source w.1 w.2)) source rest := rfl
    rw [hstep, ih _ fun v hv => hout v (List.mem_cons_of_mem w hv), write_window_apply,
      if_neg (hout w List.mem_cons_self)]

/-- Refreshing windows brings a copy up to date in them, and in those that have not changed. -/
theorem Agree.refresh {changed : List (ℕ × ℕ)} (h : Agree windows m m')
    (hchanged : ∀ w ∈ windows, w ∉ changed → window m' w.1 w.2 = window m'' w.1 w.2) :
    Agree (windows ++ changed) (Memory.refresh m m'' changed) m'' := by
  intro w hw
  rw [window_eq_iff]
  intro i hi
  by_cases hcovered : ∃ v ∈ changed, v.1 ≤ w.1 + i ∧ w.1 + i < v.1 + v.2
  · obtain ⟨v, hv, hlow, hhigh⟩ := hcovered
    exact refresh_of_mem m m'' hv hlow hhigh
  · have hnone : ∀ v ∈ changed, ¬ (v.1 ≤ w.1 + i ∧ w.1 + i < v.1 + v.2) :=
      fun v hv hin => hcovered ⟨v, hv, hin⟩
    have hout : w ∉ changed := fun hin => hnone w hin ⟨by omega, by omega⟩
    have hold : w ∈ windows := (List.mem_append.mp hw).resolve_right hout
    rw [refresh_of_not_mem m m'' hnone]
    have hcopy := window_eq_iff.mp (h w hold) i hi
    have hsame := window_eq_iff.mp (hchanged w hold hout) i hi
    exact hcopy.trans hsame

/-- Agreement in more windows is agreement in fewer. -/
theorem Agree.subset {fewer : List (ℕ × ℕ)} (h : Agree windows m m') (hsub : fewer ⊆ windows) :
    Agree fewer m m' :=
  fun w hw => h w (hsub hw)

end Multicrew.Library.Memory
