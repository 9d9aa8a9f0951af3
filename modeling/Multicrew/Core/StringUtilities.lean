import Mathlib.Data.List.DropRight
import Mathlib.Data.Nat.Bitwise
import Multicrew.Core.ChannelProtocol

/-!
# The text functions of stlplus

Splitting, trimming and the conversion of a text to an unsigned number. The radix of a number is
written in front of it, `0x`, `0b`, `0` or a decimal number and `#`. The conversion computes in the
type it converts to, so a number that does not fit is reduced, and it takes no digits for zero.
`written` says what number a text stands for.
-/

namespace Multicrew.Core

/-- `isspace` -/
def isspace (c : UInt8) : Bool := c = 0x20 ∨ 0x09 ≤ c ∧ c ≤ 0x0D

/-- `isdigit` -/
def isdigit (c : UInt8) : Bool := 0x30 ≤ c ∧ c ≤ 0x39

/-- `tolower` -/
def tolower (c : UInt8) : UInt8 := if 0x41 ≤ c ∧ c ≤ 0x5A then c + 0x20 else c

/-- The texts are equal for `stricmp`. -/
def sameText (a b : Str) : Bool := a.map tolower = b.map tolower

/-- `trim` -/
def trim (val : Str) : Str := (val.dropWhile isspace).rdropWhile isspace

/-- `split` at a single character -/
def split (str : Str) (splitter : UInt8) : List Str :=
  if str = [] then [] else str.splitOn splitter

/-- `from_char`; `none` is its -1. -/
def fromChar (c : UInt8) : Option ℕ :=
  if 0x30 ≤ c ∧ c ≤ 0x39 then some (c.toNat - 0x30)
  else if 0x41 ≤ c ∧ c ≤ 0x5A then some (c.toNat - 0x41 + 10)
  else if 0x61 ≤ c ∧ c ≤ 0x7A then some (c.toNat - 0x61 + 10)
  else none

/-- `std::invalid_argument` with what its text is made of. -/
inductive InvalidArgument
  | radix (radix : ℕ)
  | character (str : Str) (radix : ℕ)
  | sign (str : Str)
  deriving DecidableEq, Repr

/-- A C-style prefix: how many bits a digit has, and what is behind it. -/
def cPrefix : Str → Option (ℕ × Str)
  | 0x30 :: c :: rest =>
    if tolower c = 0x78 then some (4, rest)
    else if tolower c = 0x62 then some (1, rest)
    else some (3, c :: rest)
  | [0x30] => some (3, [])
  | _ => none

/-- A hash-style prefix: the digits before `#`, and what is behind it. -/
def hashPrefix (str : Str) : Option (Str × Str) :=
  match str.dropWhile isdigit with
  | 0x23 :: rest => some (str.takeWhile isdigit, rest)
  | _ => none

/-- The bits of a digit, the highest first. -/
def bitsOf (bits digit : ℕ) : List Bool := (List.range bits).reverse.map digit.testBit

/-- The loops that write the digits behind a C-style prefix in binary. -/
def binary (bits : ℕ) (str : Str) : Str → Except InvalidArgument (List Bool)
  | [] => .ok []
  | c :: rest =>
    match fromChar c with
    | some digit =>
      if digit < 2 ^ bits then return bitsOf bits digit ++ (← binary bits str rest)
      else .error (.character str (2 ^ bits))
    | none => .error (.character str (2 ^ bits))

/-- The value of a binary number in a type of `w` bits. -/
def binaryValue (w : ℕ) (digits : List Bool) : ℕ :=
  digits.foldl (fun val bit => (val * 2 % 2 ^ w + bit.toNat) % 2 ^ w) 0

/-- The loop over the other digits, in a type of `w` bits. -/
def digitLoop (w radix : ℕ) (str : Str) : ℕ → Str → Except InvalidArgument ℕ
  | val, [] => .ok val
  | val, c :: rest =>
    match fromChar c with
    | some ch =>
      if ch < radix then digitLoop w radix str ((val * radix % 2 ^ w + ch) % 2 ^ w) rest
      else .error (.character str radix)
    | none => .error (.character str radix)

/-- A sign and the digits behind it. -/
def signedDigits (w radix : ℕ) (str : Str) : Str → Except InvalidArgument ℕ
  | 0x2D :: _ => .error (.sign str)
  | 0x2B :: rest => digitLoop w radix str 0 rest
  | rest => digitLoop w radix str 0 rest

/-- `uvalue` with radix 0 for a type of `w` bits; the radix before a `#` is converted too. -/
def uvalueWith (radixOf : Str → Except InvalidArgument ℕ) (w : ℕ) (str : Str) :
    Except InvalidArgument ℕ :=
  match cPrefix str with
  | some (bits, rest) => do
    let digits ← binary bits str rest
    return binaryValue w (List.replicate (w - digits.length) false ++ digits)
  | none => do
    let (radix, rest) ←
      match hashPrefix str with
      | some (slice, rest) => do pure (← radixOf slice, rest)
      | none => pure (0, str)
    let radix := if radix = 0 then 10 else radix
    if radix < 2 ∨ 36 < radix then .error (.radix radix) else signedDigits w radix str rest

/-- `to_uint`; there is no `#` in what stands before one, so the conversion goes no deeper. -/
def toUint : Str → Except InvalidArgument ℕ :=
  uvalueWith (uvalueWith (fun _ => .error (.radix 0)) 32) 32

/-- `uvalue` with radix 0 -/
def uvalue (w : ℕ) : Str → Except InvalidArgument ℕ := uvalueWith toUint w

/-- `to_bool` -/
def toBool (str : Str) : Except InvalidArgument Bool := do return (← uvalue 8 str) ≠ 0

/-! ### The number that is written -/

/-- Digits read on from a number. -/
def readDigits (radix : ℕ) : ℕ → Str → Option ℕ
  | n, [] => some n
  | n, c :: rest =>
    match fromChar c with
    | some digit => if digit < radix then readDigits radix (n * radix + digit) rest else none
    | none => none

/-- The number that one or more digits stand for. -/
def numeral (radix : ℕ) (str : Str) : Option ℕ :=
  if str = [] then none else readDigits radix 0 str

/-- A plus sign may stand before a number. -/
def unsigned : Str → Str
  | 0x2B :: rest => rest
  | str => str

/-- The number that a text stands for, if it is one. -/
def written (str : Str) : Option ℕ :=
  match cPrefix str with
  | some (bits, rest) => if bits = 3 then numeral 8 (0x30 :: rest) else numeral (2 ^ bits) rest
  | none =>
    match hashPrefix str with
    | some (slice, rest) => do
      let radix ← numeral 10 slice
      if 2 ≤ radix ∧ radix ≤ 36 then numeral radix (unsigned rest) else none
    | none => numeral 10 (unsigned str)

variable {w radix bits n val : ℕ} {str rest slice : Str} {digits : List Bool}

/-! ### The conversion of a number that is written -/

/-- A step of a conversion is taken modulo the range of the type. -/
theorem horner_mod (w val radix digit : ℕ) :
    (val % 2 ^ w * radix % 2 ^ w + digit) % 2 ^ w = (val * radix + digit) % 2 ^ w := by
  rw [Nat.mod_add_mod, ← Nat.mod_add_mod, Nat.mod_mul_mod, Nat.mod_add_mod]

/-- Digits are read modulo the range of the type. -/
theorem digitLoop_of_readDigits (h : readDigits radix val rest = some n) :
    digitLoop w radix str (val % 2 ^ w) rest = .ok (n % 2 ^ w) := by
  induction rest generalizing val with
  | nil =>
    cases h
    rfl
  | cons c rest ih =>
    rw [readDigits] at h
    rw [digitLoop]
    cases hdigit : fromChar c with
    | none => simp [hdigit] at h
    | some digit =>
      simp only [hdigit, Option.ite_none_right_eq_some] at h
      simp only [if_pos h.1, horner_mod]
      exact ih h.2

/-- A number converts to what is left of it in the type. -/
theorem digitLoop_of_numeral (h : numeral radix rest = some n) :
    digitLoop w radix str 0 rest = .ok (n % 2 ^ w) := by
  simp only [numeral, Option.ite_none_left_eq_some] at h
  exact Nat.zero_mod (2 ^ w) ▸ digitLoop_of_readDigits h.2

/-- The bits of a digit are read as the digit. -/
theorem foldl_bitsOf (bits digit val : ℕ) :
    (bitsOf bits digit).foldl (fun val bit => val * 2 + bit.toNat) val =
      val * 2 ^ bits + digit % 2 ^ bits := by
  induction bits generalizing val with
  | zero => simp [bitsOf, Nat.mod_one]
  | succ bits ih =>
    have hcons : bitsOf (bits + 1) digit = digit.testBit bits :: bitsOf bits digit := by
      simp [bitsOf, List.range_succ]
    rw [hcons, List.foldl_cons, ih, Nat.toNat_testBit, Nat.mod_pow_succ, Nat.add_mul, Nat.pow_succ,
      Nat.mul_assoc, Nat.mul_comm 2, Nat.mul_comm (_ % 2), Nat.add_assoc,
      Nat.add_comm (digit % 2 ^ bits)]

/-- Digits that are read have the bits of their number. -/
theorem binary_of_readDigits (str : Str) (h : readDigits (2 ^ bits) val rest = some n) :
    ∃ digits, binary bits str rest = .ok digits ∧
      digits.foldl (fun val bit => val * 2 + bit.toNat) val = n := by
  induction rest generalizing val with
  | nil => exact ⟨[], rfl, Option.some.inj h⟩
  | cons c rest ih =>
    rw [readDigits] at h
    cases hdigit : fromChar c with
    | none => simp [hdigit] at h
    | some digit =>
      simp only [hdigit, Option.ite_none_right_eq_some] at h
      obtain ⟨digits, hbinary, hvalue⟩ := ih h.2
      refine ⟨bitsOf bits digit ++ digits, ?_, ?_⟩
      · simp only [binary, hdigit, if_pos h.1, hbinary]
        rfl
      · rw [List.foldl_append, foldl_bitsOf, Nat.mod_eq_of_lt h.1, hvalue]

/-- Zeros in front change nothing, and the bits are read modulo the range of the type. -/
theorem binaryValue_replicate (w k : ℕ) (digits : List Bool) :
    binaryValue w (List.replicate k false ++ digits) =
      digits.foldl (fun val bit => val * 2 + bit.toNat) 0 % 2 ^ w := by
  have hfold (val : ℕ) : digits.foldl (fun val bit => (val * 2 % 2 ^ w + bit.toNat) % 2 ^ w)
      (val % 2 ^ w) = digits.foldl (fun val bit => val * 2 + bit.toNat) val % 2 ^ w := by
    induction digits generalizing val with
    | nil => rfl
    | cons bit digits ih => rw [List.foldl_cons, List.foldl_cons, horner_mod, ih]
  rw [binaryValue, List.foldl_append]
  induction k with
  | zero => exact Nat.zero_mod (2 ^ w) ▸ hfold 0
  | succ k ih =>
    rw [List.replicate_succ, List.foldl_cons]
    exact (congrArg (fun val => digits.foldl _ (List.foldl _ val (List.replicate k false)))
      (by simp)).trans ih

/-- A number may have a plus sign, and no minus sign. -/
theorem signedDigits_of_numeral (h : numeral radix (unsigned rest) = some n) :
    signedDigits w radix str rest = .ok (n % 2 ^ w) := by
  unfold unsigned at h
  split at h
  · exact digitLoop_of_numeral h
  · rename_i hplus
    unfold signedDigits
    split
    · cases h
    · exact absurd rfl (hplus _)
    · exact digitLoop_of_numeral h

/-- A text has no C-style prefix unless it starts with a zero. -/
theorem cPrefix_eq_none : cPrefix str = none ↔ str.head? ≠ some 0x30 := by
  unfold cPrefix
  split
  · split
    · simp
    · split <;> simp
  · simp
  · rename_i hlong hshort
    refine iff_of_true rfl ?_
    cases str with
    | nil => simp
    | cons c rest =>
      rintro hhead
      obtain rfl : c = 0x30 := by simpa using hhead
      cases rest with
      | nil => exact hshort rfl
      | cons d rest => exact hlong d rest rfl

/-- There is no prefix in front of the digits before a `#`. -/
theorem hashPrefix_slice (hc : cPrefix str = none) (h : hashPrefix str = some (slice, rest)) :
    cPrefix slice = none ∧ hashPrefix slice = none ∧ ∀ c ∈ slice, isdigit c := by
  obtain rfl : str.takeWhile isdigit = slice := by
    unfold hashPrefix at h
    split at h
    · exact congrArg Prod.fst (Option.some.inj h)
    · cases h
  have hdigits : ∀ c ∈ str.takeWhile isdigit, isdigit c := fun c hc => List.mem_takeWhile_imp hc
  refine ⟨?_, ?_, hdigits⟩
  · rw [cPrefix_eq_none] at hc ⊢
    rw [List.head?_takeWhile]
    intro hhead
    exact hc (Option.eq_some_of_filter_eq_some hhead)
  · rw [hashPrefix, List.dropWhile_eq_nil_iff.mpr hdigits]

/-- The radix in front of a `#` is converted like any number, without a conversion inside. -/
theorem uvalueWith_slice (radixOf : Str → Except InvalidArgument ℕ) (hc : cPrefix str = none)
    (h : hashPrefix str = some (slice, rest)) (w : ℕ) :
    uvalueWith radixOf w slice = signedDigits w 10 slice slice := by
  obtain ⟨hslice, hhash, -⟩ := hashPrefix_slice hc h
  simp only [uvalueWith, hslice, hhash]
  rfl

/-- `to_uint` is `uvalue` for 32 bits. -/
theorem toUint_eq_uvalue (str : Str) : toUint str = uvalue 32 str := by
  rw [uvalue, toUint]
  cases hc : cPrefix str with
  | some p => simp only [uvalueWith, hc]
  | none =>
    cases hhash : hashPrefix str with
    | none => simp only [uvalueWith, hc, hhash]
    | some p =>
      obtain ⟨slice, rest⟩ := p
      have hslice : uvalueWith (fun _ => .error (.radix 0)) 32 slice =
          uvalueWith (uvalueWith (fun _ => .error (.radix 0)) 32) 32 slice :=
        (uvalueWith_slice _ hc hhash 32).trans (uvalueWith_slice _ hc hhash 32).symm
      rw [uvalueWith, uvalueWith, hc, hhash]
      simp only [hslice]

/-- A number that is written is converted to what is left of it in the type. -/
theorem uvalue_of_written (w : ℕ) (h : written str = some n) : uvalue w str = .ok (n % 2 ^ w) := by
  unfold written at h
  rw [uvalue, uvalueWith]
  cases hc : cPrefix str with
  | some p =>
    obtain ⟨bits, rest⟩ := p
    have hread : readDigits (2 ^ bits) 0 rest = some n := by
      simp only [hc] at h
      split at h
      · rename_i hbits
        subst hbits
        exact h
      · simp only [numeral, Option.ite_none_left_eq_some] at h
        exact h.2
    obtain ⟨digits, hbinary, hvalue⟩ := binary_of_readDigits str hread
    simp only [hbinary]
    exact congrArg Except.ok ((binaryValue_replicate w _ digits).trans (congrArg (· % 2 ^ w) hvalue))
  | none =>
    simp only [hc] at h
    cases hhash : hashPrefix str with
    | none =>
      simp only [hhash] at h
      exact signedDigits_of_numeral h
    | some p =>
      obtain ⟨slice, rest⟩ := p
      simp only [hhash, Option.bind_eq_bind, Option.bind_eq_some_iff,
        Option.ite_none_right_eq_some] at h
      obtain ⟨radix, hslice, ⟨hlow, hhigh⟩, hrest⟩ := h
      have hradix : toUint slice = .ok radix := by
        have hsigned := uvalueWith_slice (uvalueWith (fun _ => .error (.radix 0)) 32) hc hhash 32
        have hplain : unsigned slice = slice := by
          unfold unsigned
          split
          · exact absurd ((hashPrefix_slice hc hhash).2.2 0x2B List.mem_cons_self) (by decide)
          · rfl
        rw [toUint, hsigned, signedDigits_of_numeral (hplain.symm ▸ hslice),
          Nat.mod_eq_of_lt (by omega)]
      have hne : radix ≠ 0 := by omega
      have hrange : ¬ (radix < 2 ∨ 36 < radix) := by omega
      simp only [hradix]
      simp only [bind, pure, Except.bind, Except.pure, if_neg hne, if_neg hrange]
      exact signedDigits_of_numeral hrest

end Multicrew.Core
