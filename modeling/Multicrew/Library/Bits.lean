import Mathlib.Data.Nat.Bitwise
import Mathlib.Data.List.OfFn

/-!
# Bits of bytes

The bits of a byte, most significant first, under the shifts and joins with which bit streams are
packed.
-/

namespace Multicrew.Library

/-- The `k`-th bit of a byte, most significant first. -/
def bitOf (b : UInt8) (k : ℕ) : Bool := b.toNat.testBit (7 - k)

/-- All bits of a byte, most significant first. -/
def byteBits (b : UInt8) : List Bool := (List.range 8).map (bitOf b)

/-- A byte has eight bits. -/
@[simp] theorem length_byteBits (b : UInt8) : (byteBits b).length = 8 := by
  rw [byteBits, List.length_map, List.length_range]

/-- They are its bits from the highest on. -/
@[simp] theorem getElem_byteBits {b : UInt8} {k : ℕ} (h : k < (byteBits b).length) :
    (byteBits b)[k] = bitOf b k := by
  simp only [byteBits, List.getElem_map, List.getElem_range]

/-- The byte 0 has no bit. -/
@[simp] theorem bitOf_zero (k : ℕ) : bitOf 0 k = false := by
  rw [bitOf, UInt8.toNat_zero, Nat.zero_testBit]

/-- A bit of a disjunction is one of either byte. -/
@[simp] theorem bitOf_or (a b : UInt8) (k : ℕ) : bitOf (a ||| b) k = (bitOf a k || bitOf b k) := by
  rw [bitOf, UInt8.toNat_or, Nat.testBit_or, ← bitOf, ← bitOf]

/-- A shift to the left moves later bits to the front. -/
theorem bitOf_shiftLeft (b : UInt8) {m k : ℕ} (hm : m < 8) (hk : k < 8) :
    bitOf (b <<< UInt8.ofNat m) k = (decide (k + m < 8) && bitOf b (k + m)) := by
  have hshift : (UInt8.ofNat m).toNat % 8 = m := by
    rw [UInt8.toNat_ofNat']
    omega
  rw [bitOf, UInt8.toNat_shiftLeft, hshift, Nat.testBit_mod_two_pow, Nat.testBit_shiftLeft, bitOf]
  have hlow : 7 - k < 8 := by omega
  by_cases hin : k + m < 8
  · have hle : m ≤ 7 - k := by omega
    have hsub : 7 - k - m = 7 - (k + m) := by omega
    simp [hlow, hin, hle, hsub]
  · have hgt : ¬ m ≤ 7 - k := by omega
    simp [hin, hgt]

/-- A shift to the right moves bits to the back. -/
theorem bitOf_shiftRight (b : UInt8) {m k : ℕ} (hm : m < 8) (hk : k < 8) :
    bitOf (b >>> UInt8.ofNat m) k = (decide (m ≤ k) && bitOf b (k - m)) := by
  have hshift : (UInt8.ofNat m).toNat % 8 = m := by
    rw [UInt8.toNat_ofNat']
    omega
  rw [bitOf, UInt8.toNat_shiftRight, hshift, Nat.testBit_shiftRight, bitOf]
  by_cases hin : m ≤ k
  · have hsub : m + (7 - k) = 7 - (k - m) := by omega
    simp [hin, hsub]
  · have hhigh : b.toNat < 2 ^ (m + (7 - k)) := by
      have hb := b.toNat_lt
      have hle : 2 ^ 8 ≤ 2 ^ (m + (7 - k)) := Nat.pow_le_pow_right (by decide) (by omega)
      omega
    simp [hin, Nat.testBit_lt_two_pow hhigh]

/-- A byte is its bits. -/
theorem eq_of_bitOf {a b : UInt8} (h : ∀ k < 8, bitOf a k = bitOf b k) : a = b := by
  rw [← UInt8.toNat_inj]
  apply Nat.eq_of_testBit_eq
  intro i
  by_cases hi : i < 8
  · have hbit := h (7 - i) (by omega)
    have hback : 7 - (7 - i) = i := by omega
    simpa only [bitOf, hback] using hbit
  · have hpow : 2 ^ 8 ≤ 2 ^ i := Nat.pow_le_pow_right (by decide) (by omega)
    have ha := a.toNat_lt
    have hb := b.toNat_lt
    rw [Nat.testBit_lt_two_pow (by omega), Nat.testBit_lt_two_pow (by omega)]

/-- The leading bits of a small byte are not set. -/
theorem bitOf_of_lt {b : UInt8} {n k : ℕ} (hb : b.toNat < 2 ^ n) (hk : k < 8 - n) :
    bitOf b k = false := by
  apply Nat.testBit_lt_two_pow
  exact Nat.lt_of_lt_of_le hb (Nat.pow_le_pow_right (by decide) (by omega))

end Multicrew.Library
