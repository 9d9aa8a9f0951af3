import Mathlib.Algebra.BigOperators.Group.List.Basic
import Mathlib.Algebra.GroupWithZero.Nat
import Mathlib.Data.List.Perm.Basic
import Mathlib.Data.List.Range
import Multicrew.Library.Bytes

/-!
# Blocks of a list

A list is cut into blocks of one size, the last one perhaps shorter. Copied to their places, in any
order, the blocks give the list again.
-/

namespace Multicrew.Library

variable {α β : Type*}

/-- A block of a list cut into blocks of this size. -/
def chunk (size : ℕ) (list : List α) (k : ℕ) : List α := (list.drop (k * size)).take size

/-- A chunk is full unless the list ends in it. -/
theorem length_chunk (size : ℕ) (list : List α) (k : ℕ) :
    (chunk size list k).length = min size (list.length - k * size) := by
  rw [chunk, List.length_take, List.length_drop]

/-- It holds the elements of the list from its place on. -/
theorem getElem?_chunk {size i : ℕ} (hi : i < size) (list : List α) (k : ℕ) :
    (chunk size list k)[i]? = list[k * size + i]? := by
  rw [chunk, List.getElem?_take_of_lt hi, List.getElem?_drop]

/-- The first blocks hold as much of the list as there is for them. -/
theorem sum_length_chunk (size : ℕ) (list : List α) (n : ℕ) :
    ((List.range n).map fun k => (chunk size list k).length).sum = min (n * size) list.length := by
  induction n with
  | zero => simp
  | succ n ih =>
    rw [List.range_succ, List.map_append, List.sum_append, ih, List.map_singleton,
      List.sum_singleton, length_chunk, Nat.succ_mul]
    omega

/-- Overwriting inside a block keeps its length. -/
theorem length_overwrite {block bytes : List UInt8} {offset : ℕ}
    (h : offset + bytes.length ≤ block.length) :
    (overwrite block offset bytes).length = block.length := by
  rw [overwrite, List.length_append, List.length_append, List.length_take, List.length_drop]
  omega

/-- A block of memory that is overwritten holds the new bytes there and the old ones elsewhere. -/
theorem getElem?_overwrite {block bytes : List UInt8} {offset : ℕ}
    (h : offset + bytes.length ≤ block.length) (i : ℕ) :
    (overwrite block offset bytes)[i]? =
      if offset ≤ i ∧ i < offset + bytes.length then bytes[i - offset]? else block[i]? := by
  have htake : (block.take offset).length = offset := by
    rw [List.length_take]
    omega
  rw [overwrite, List.append_assoc]
  by_cases hbefore : i < offset
  · rw [List.getElem?_append_left (by omega), List.getElem?_take_of_lt hbefore, if_neg (by omega)]
  · rw [List.getElem?_append_right (by omega), htake]
    by_cases hinside : i < offset + bytes.length
    · rw [List.getElem?_append_left (by omega), if_pos (by omega)]
    · rw [List.getElem?_append_right (by omega), List.getElem?_drop, if_neg (by omega)]
      congr 1
      omega

/-- Pieces that are copied to where a target has them give the target, when they cover what is not
there yet. -/
theorem foldl_overwrite {offset : β → ℕ} {bytes : β → List UInt8} {target : List UInt8}
    {pieces : List β} {block : List UInt8} (hlength : block.length = target.length)
    (hfit : ∀ p ∈ pieces, offset p + (bytes p).length ≤ target.length)
    (hpiece : ∀ p ∈ pieces, ∀ i < (bytes p).length, (bytes p)[i]? = target[offset p + i]?)
    (hcover : ∀ i < target.length, block[i]? = target[i]? ∨
      ∃ p ∈ pieces, offset p ≤ i ∧ i < offset p + (bytes p).length) :
    pieces.foldl (fun block p => overwrite block (offset p) (bytes p)) block = target := by
  induction pieces generalizing block with
  | nil =>
    apply List.ext_getElem? fun i => ?_
    by_cases hi : i < target.length
    · exact (hcover i hi).resolve_right fun ⟨_, hp, _⟩ => absurd hp List.not_mem_nil
    · rw [List.foldl_nil, List.getElem?_eq_none (by omega), List.getElem?_eq_none (by omega)]
  | cons p rest ih =>
    have hp : offset p + (bytes p).length ≤ block.length := hlength ▸ hfit p List.mem_cons_self
    rw [List.foldl_cons]
    refine ih ((length_overwrite hp).trans hlength)
      (fun q hq => hfit q (List.mem_cons_of_mem p hq))
      (fun q hq => hpiece q (List.mem_cons_of_mem p hq)) fun i hi => ?_
    rw [getElem?_overwrite hp]
    by_cases hin : offset p ≤ i ∧ i < offset p + (bytes p).length
    · left
      rw [if_pos hin, hpiece p List.mem_cons_self (i - offset p) (by omega)]
      congr 1
      omega
    · rw [if_neg hin]
      refine (hcover i hi).imp_right ?_
      rintro ⟨q, hq, hcovered⟩
      obtain rfl | hrest := List.mem_cons.mp hq
      · exact absurd hcovered hin
      · exact ⟨q, hrest, hcovered⟩

/-- The blocks of a list, in any order, copied to their places in a block for all of them. -/
theorem foldl_overwrite_chunk {index : β → ℕ} {bytes : β → List UInt8} {target : List UInt8}
    {pieces : List β} {size n : ℕ} (hperm : (pieces.map index).Perm (List.range n))
    (hbytes : ∀ p ∈ pieces, bytes p = chunk size target (index p))
    (hstart : ∀ k < n, k * size < target.length) (hend : target.length ≤ n * size) :
    pieces.foldl (fun block p => overwrite block (index p * size) (bytes p))
      (List.replicate (pieces.map fun p => (bytes p).length).sum 0) = target := by
  have hindex : ∀ p ∈ pieces, index p < n := fun p hp =>
    List.mem_range.mp (hperm.subset (List.mem_map_of_mem hp))
  have hlength : ∀ p ∈ pieces, (bytes p).length = min size (target.length - index p * size) :=
    fun p hp => by rw [hbytes p hp, length_chunk]
  have hsum : (pieces.map fun p => (bytes p).length).sum = target.length := by
    have hmap : (pieces.map fun p => (bytes p).length) =
        (pieces.map index).map fun k => (chunk size target k).length := by
      rw [List.map_map]
      exact List.map_congr_left fun p hp => congrArg List.length (hbytes p hp)
    rw [hmap, (hperm.map _).sum_eq, sum_length_chunk]
    omega
  refine foldl_overwrite (by rw [List.length_replicate, hsum]) ?_ ?_ ?_
  · intro p hp
    have hlt := hstart (index p) (hindex p hp)
    rw [hlength p hp]
    omega
  · intro p hp i hi
    rw [hlength p hp] at hi
    rw [hbytes p hp, getElem?_chunk (by omega)]
  · intro i hi
    right
    have hsize : 0 < size := Nat.pos_of_ne_zero fun hzero => by
      rw [hzero, Nat.mul_zero] at hend
      omega
    have hk : i / size < n := Nat.div_lt_of_lt_mul (Nat.lt_of_lt_of_le hi (by rwa [Nat.mul_comm]))
    obtain ⟨p, hp, hindexp⟩ := List.mem_map.mp (hperm.symm.subset (List.mem_range.mpr hk))
    have hdiv := Nat.div_add_mod' i size
    have hmod := Nat.mod_lt i hsize
    refine ⟨p, hp, ?_, ?_⟩
    · rw [hindexp]
      omega
    · rw [hlength p hp, hindexp]
      omega

/-- The largest number of a list. -/
theorem foldl_max_eq {list : List ℕ} {m : ℕ} (hle : ∀ x ∈ list, x ≤ m) (hmem : m ∈ list) :
    list.foldl max 0 = m := by
  have hstep : ∀ a ≤ m, a = m ∨ m ∈ list → list.foldl max a = m := by
    clear hmem
    induction list with
    | nil =>
      intro a _ h
      exact h.resolve_right List.not_mem_nil
    | cons x rest ih =>
      intro a ha h
      have hx := hle x List.mem_cons_self
      rw [List.foldl_cons]
      refine ih (fun y hy => hle y (List.mem_cons_of_mem x hy)) _ (max_le ha hx) ?_
      rcases h with rfl | h
      · exact .inl (max_eq_left hx)
      · rcases List.mem_cons.mp h with rfl | hrest
        · exact .inl (max_eq_right ha)
        · exact .inr hrest
  exact hstep 0 (Nat.zero_le m) (.inr hmem)

end Multicrew.Library
