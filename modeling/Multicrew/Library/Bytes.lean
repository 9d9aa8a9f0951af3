import Mathlib.Algebra.Group.Nat.Defs
import Mathlib.Data.List.TakeWhile

/-!
# Bytes in memory

Little-endian numbers, C strings and blocks of memory that are written piece by piece.
-/

namespace Multicrew.Library

/-- The bytes of a text in ASCII. -/
def ascii (text : String) : List UInt8 := text.toList.map fun c => .ofNat c.toNat

/-- The `n` lowest bytes of a number, lowest first. -/
def toBytes : ℕ → ℕ → List UInt8
  | 0, _ => []
  | n + 1, value => .ofNat value :: toBytes n (value / 256)

/-- The number that bytes, lowest first, stand for. -/
def ofBytes : List UInt8 → ℕ
  | [] => 0
  | b :: rest => b.toNat + 256 * ofBytes rest

/-- There are as many bytes as asked for. -/
@[simp] theorem length_toBytes (n value : ℕ) : (toBytes n value).length = n := by
  induction n generalizing value with
  | zero => rfl
  | succ n ih => simp [toBytes, ih]

/-- The bytes keep the number modulo their range. -/
theorem ofBytes_toBytes (n value : ℕ) : ofBytes (toBytes n value) = value % 256 ^ n := by
  induction n generalizing value with
  | zero => simp [toBytes, ofBytes, Nat.mod_one]
  | succ n ih =>
    rw [toBytes, ofBytes, ih, Nat.pow_succ', Nat.mod_mul]
    rfl

/-- Bytes are those of the number they stand for. -/
theorem toBytes_ofBytes (bytes : List UInt8) : toBytes bytes.length (ofBytes bytes) = bytes := by
  induction bytes with
  | nil => rfl
  | cons b rest ih =>
    have hb := b.toNat_lt
    have hlow : UInt8.ofNat (b.toNat + 256 * ofBytes rest) = b := by
      rw [← UInt8.toNat_inj, UInt8.toNat_ofNat']
      omega
    have hhigh : (b.toNat + 256 * ofBytes rest) / 256 = ofBytes rest := by omega
    rw [List.length_cons, ofBytes, toBytes, hlow, hhigh, ih]

/-- A number that fits into `n` bytes is read back from them. -/
theorem ofBytes_toBytes_of_lt {n value : ℕ} (h : value < 256 ^ n) :
    ofBytes (toBytes n value) = value := by
  rw [ofBytes_toBytes, Nat.mod_eq_of_lt h]

/-- The number of `n` bytes is below `256 ^ n`. -/
theorem ofBytes_lt (bytes : List UInt8) : ofBytes bytes < 256 ^ bytes.length := by
  induction bytes with
  | nil => simp [ofBytes]
  | cons b rest ih =>
    have hb := b.toNat_lt
    rw [ofBytes, List.length_cons, Nat.pow_succ']
    omega

/-- A C string: the bytes before the first NUL. -/
def cString (bytes : List UInt8) : List UInt8 := bytes.takeWhile (· ≠ 0)

/-- A string without NUL is a C string in front of a NUL. -/
theorem cString_append {s : List UInt8} (hs : 0 ∉ s) (rest : List UInt8) :
    cString (s ++ 0 :: rest) = s := by
  have hall : ∀ b ∈ s, decide (b ≠ 0) = true := by
    intro b hb
    simp only [ne_eq, decide_eq_true_eq]
    rintro rfl
    exact hs hb
  rw [cString, List.takeWhile_append_of_pos hall]
  simp

/-- A string without NUL is its own C string. -/
theorem cString_eq_self {s : List UInt8} (hs : 0 ∉ s) : cString s = s := by
  rw [cString, List.takeWhile_eq_self_iff]
  intro b hb
  simp only [ne_eq, decide_eq_true_eq]
  rintro rfl
  exact hs hb

/-- A C string ends inside bytes with a NUL. -/
theorem length_cString_lt {bytes : List UInt8} (h : 0 ∈ bytes) :
    (cString bytes).length < bytes.length := by
  induction bytes with
  | nil => cases h
  | cons b rest ih =>
    by_cases hb : b = 0
    · simp [cString, hb]
    · have hrest : 0 ∈ rest := (List.mem_cons.mp h).resolve_left (Ne.symm hb)
      have hstep : cString (b :: rest) = b :: cString rest := by simp [cString, hb]
      rw [hstep]
      exact Nat.succ_lt_succ (ih hrest)

/-- A C string contains no NUL. -/
theorem not_mem_cString (bytes : List UInt8) : 0 ∉ cString bytes := fun h => by
  simpa using List.mem_takeWhile_imp h

/-- `strncpy`: at most `n` characters of the source, filled up with NULs. -/
def copyString (dest source : List UInt8) (n : ℕ) : List UInt8 :=
  (cString source).take n ++ List.replicate (n - (cString source).length) 0 ++ dest.drop n

/-- A block for C strings of at most `n` characters, with a NUL after them. -/
def Terminated (n : ℕ) (block : List UInt8) : Prop :=
  block.length = n + 1 ∧ block.drop n = [0]

/-- The string in such a block has at most `n` characters. -/
theorem Terminated.length_le {n : ℕ} {block : List UInt8} (h : Terminated n block) :
    (cString block).length ≤ n := by
  have hin : 0 ∈ block := List.mem_of_mem_drop (h.2 ▸ List.mem_singleton_self 0)
  have hlt := length_cString_lt hin
  rw [h.1] at hlt
  exact Nat.le_of_lt_succ hlt

/-- Copying `n` characters stays inside the block and leaves the NUL after them. -/
theorem Terminated.copyString {n : ℕ} {dest : List UInt8} (h : Terminated n dest)
    (source : List UInt8) : Terminated n (copyString dest source n) := by
  have hcopied : ((cString source).take n ++
      List.replicate (n - (cString source).length) (0 : UInt8)).length = n := by
    rw [List.length_append, List.length_take, List.length_replicate]
    omega
  constructor
  · rw [Library.copyString, List.length_append, hcopied, h.2, List.length_singleton]
  · rw [Library.copyString, List.drop_left' hcopied, h.2]

/-- What is copied is the source, cut after `n` characters. -/
theorem Terminated.cString_copyString {n : ℕ} {dest : List UInt8} (h : Terminated n dest)
    (source : List UInt8) :
    cString (Library.copyString dest source n) = (cString source).take n := by
  have htaken : 0 ∉ (cString source).take n := fun hin =>
    not_mem_cString source (List.mem_of_mem_take hin)
  rw [Library.copyString, h.2, List.append_assoc]
  cases hfill : n - (cString source).length with
  | zero => exact cString_append htaken []
  | succ k => exact cString_append htaken _

/-- A block whose last character is set to NUL. -/
theorem terminated_set {n : ℕ} {block : List UInt8} (h : block.length = n + 1) :
    Terminated n (block.set n 0) := by
  refine ⟨by rw [List.length_set, h], ?_⟩
  have hlast : (block.drop n).length = 1 := by
    rw [List.length_drop]
    omega
  obtain ⟨b, hb⟩ := List.length_eq_one_iff.mp hlast
  simp [List.drop_set, hb]

/-- The first character may be set to NUL. -/
theorem Terminated.set_zero {n : ℕ} {block : List UInt8} (h : Terminated n block) :
    Terminated n (block.set 0 0) := by
  refine ⟨by rw [List.length_set, h.1], ?_⟩
  cases n with
  | zero => simp [List.drop_set, h.2]
  | succ n => rw [List.drop_set_of_lt (Nat.succ_pos n), h.2]

/-- With its first character set to NUL a block holds the empty string. -/
theorem cString_set_zero (block : List UInt8) : cString (block.set 0 0) = [] := by
  cases block with
  | nil => rfl
  | cons b rest => simp [cString]

/-- A block for C strings holds the empty string when its first character is NUL. -/
theorem Terminated.cString_eq_nil_iff {n : ℕ} {block : List UInt8} (h : Terminated n block) :
    cString block = [] ↔ block.head? = some 0 := by
  cases block with
  | nil => cases h.1
  | cons b rest => by_cases hb : b = 0 <;> simp [cString, hb]

/-- A block of memory after bytes are written at an offset. -/
def overwrite (block : List UInt8) (offset : ℕ) (bytes : List UInt8) : List UInt8 :=
  block.take offset ++ bytes ++ block.drop (offset + bytes.length)

/-- Two pieces that fill a block, written one after the other. -/
theorem overwrite_overwrite {block first second : List UInt8}
    (h : block.length = first.length + second.length) :
    overwrite (overwrite block 0 first) first.length second = first ++ second := by
  have hfirst : overwrite block 0 first = first ++ block.drop first.length := by
    simp [overwrite]
  rw [hfirst, overwrite, List.take_left, List.drop_eq_nil_of_le, List.append_nil]
  rw [List.length_append, List.length_drop]
  omega

/-- The same pieces in the other order. -/
theorem overwrite_zero_overwrite {block first second : List UInt8}
    (h : block.length = first.length + second.length) :
    overwrite (overwrite block first.length second) 0 first = first ++ second := by
  have hsecond : overwrite block first.length second = block.take first.length ++ second := by
    rw [overwrite, List.drop_eq_nil_of_le (by omega), List.append_nil]
  have hlength : (block.take first.length).length = first.length := by
    rw [List.length_take]
    omega
  rw [hsecond, overwrite, List.take_zero, List.nil_append, Nat.zero_add, List.drop_left' hlength]

end Multicrew.Library
