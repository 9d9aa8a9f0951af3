import Multicrew.Core.FsuipcConfig
import Multicrew.Library.KeyedList

/-!
# The texts of a configuration

`FileConfig` keeps every value as a text under a group and a key. The lists of artconf have a
current group, which every call moves. A number is written without its sign, and a text in quotes
that are not taken off again. What `atol` returns for a number that a `long` cannot hold is not
defined by the language, so it is a parameter.
-/

namespace Multicrew.Core

open Multicrew.Library

/-- `conf_struct`: the groups with their items, and the position of the current one. -/
structure Conf extends FileConfig where
  actualGroup : Option ℕ
  deriving DecidableEq, Repr

/-- The number that leading decimal digits stand for. -/
def decimal (text : Str) : ℕ := (readDigits 10 0 (text.takeWhile isdigit)).getD 0

/-- `atol` -/
def atol (overflow : Str → Int32) (text : Str) : Int32 :=
  let number : ℤ := match text.dropWhile isspace with
    | 0x2D :: digits => -(decimal digits : ℤ)
    | 0x2B :: digits => decimal digits
    | digits => decimal digits
  if -2 ^ 31 ≤ number ∧ number < 2 ^ 31 then .ofInt number else overflow text

/-- What `boolValue` takes for true. -/
def isTrue (val : Str) : Bool :=
  val ∈ ["true", "True", "TRUE", "yes", "Yes", "YES", "1"].map ascii

/-- `sprintf` with `%lu` -/
def unsignedText (thefnumber : Int32) : Str := ascii (toString thefnumber.toUInt32.toNat)

/-- The value of an item between quotes. -/
def quoted (value : Str) : Str := 0x22 :: value ++ [0x22]

namespace Conf

variable (c : Conf)

/-- `conf_togroup` -/
def confTogroup (name : Str) : Bool × Conf :=
  match c.groups.findIdx? fun g => sameText g.1 name with
  | some i => (true, { c with actualGroup := some i })
  | none => (false, c)

/-- `conf_newgroup` -/
def confNewgroup (name : Str) : Conf :=
  match c.confTogroup name with
  | (true, c) => c
  | (false, c) => { groups := c.groups ++ [(name, [])], actualGroup := some c.groups.length }

/-- The loop of `conf_newitem`: the item with the name is modified, or a new one is the last. -/
def newitem (itemname value : Str) : List (Str × Str) → List (Str × Str)
  | [] => [(itemname, value)]
  | item :: rest =>
    if sameText item.1 itemname then (item.1, value) :: rest
    else item :: newitem itemname value rest

/-- `conf_newitem` -/
def confNewitem (itemname value : Str) : Conf :=
  match c.actualGroup with
  | some i => { c with groups := c.groups.modify i fun g => (g.1, newitem itemname value g.2) }
  | none => c

/-- `conf_newnumber` -/
def confNewnumber (itemname : Str) (thefnumber : Int32) : Conf :=
  c.confNewitem itemname (unsignedText thefnumber)

/-- `conf_newstring`. The text and its end must fit into 255 characters on the stack. -/
def confNewstring (itemname value : Str) : Option Conf :=
  if (quoted value).length < 255 then some (c.confNewitem itemname (quoted value)) else none

/-- `conf_getany` -/
def confGetany (nameitem : Str) : Option Str := do
  let i ← c.actualGroup
  let g ← c.groups[i]?
  let item ← g.2.find? fun item => sameText item.1 nameitem
  return item.2

/-- What the three functions that read a value have in common. -/
def valueWith {α : Type} (convert : Str → α) (group key : Str) (default : α) : α × Conf :=
  match c.confTogroup (cString group) with
  | (false, c) => (default, c)
  | (true, c) =>
    match c.confGetany (cString key) with
    | some kk => (convert kk, c)
    | none => (default, c)

/-- `FileConfig::intValue` -/
def intValue (overflow : Str → Int32) (group key : Str) (default : Int32) : Int32 × Conf :=
  c.valueWith (atol overflow) group key default

/-- `FileConfig::stringValue` -/
def stringValue (group key default : Str) : Str × Conf := c.valueWith id group key default

/-- `FileConfig::boolValue` -/
def boolValue (group key : Str) (default : Bool) : Bool × Conf :=
  c.valueWith isTrue group key default

/-- The calls that every setter begins with. -/
def newtogroup (group : Str) : Conf :=
  ((c.confNewgroup (cString group)).confTogroup (cString group)).2

/-- `FileConfig::setNumber` -/
def setNumber (group key : Str) (value : Int32) : Conf :=
  (c.newtogroup group).confNewnumber (cString key) value

/-- `FileConfig::setString`; `none` if the text is written past the end of the stack's array. -/
def setString (group key value : Str) : Option Conf :=
  (c.newtogroup group).confNewstring (cString key) (cString value)

/-- `FileConfig::setBool` -/
def setBool (group key : Str) (value : Bool) : Conf :=
  (c.newtogroup group).confNewnumber (cString key) (if value then 1 else 0)

/-- The text under a group and a key. -/
def text (group key : Str) : Option Str :=
  KeyedList.lookup₂ (List.map tolower) c.groups (cString group) (cString key)

variable {c} {c' : Conf} {group key : Str}

/-! ### The texts that are kept -/

/-- The reading functions convert the text that is kept, and leave the default if there is none. -/
theorem valueWith_fst {α : Type} (convert : Str → α) (default : α) :
    (c.valueWith convert group key default).1 = ((c.text group key).map convert).getD default := by
  have hgroup : KeyedList.lookup (List.map tolower) c.groups (cString group) =
      ((c.groups.findIdx? fun g => sameText g.1 (cString group)).bind (c.groups[·]?)).map Prod.snd :=
    congrArg (Option.map Prod.snd) List.find?_eq_bind_findIdx?_getElem?
  rw [text, KeyedList.lookup₂, hgroup, valueWith, confTogroup]
  cases c.groups.findIdx? fun g => sameText g.1 (cString group) with
  | none => rfl
  | some i =>
    have hany : ({ c with actualGroup := some i } : Conf).confGetany (cString key) =
        (c.groups[i]?.map Prod.snd).bind fun items =>
          KeyedList.lookup (List.map tolower) items (cString key) := by
      simp only [confGetany, KeyedList.lookup, Option.bind_eq_bind, Option.bind_some,
        Option.bind_map, Option.pure_def, sameText]
      congr 1
      funext g
      exact Option.map_eq_bind.symm
    simp only [Option.bind_some, hany]
    cases (c.groups[i]?.map Prod.snd).bind fun items =>
        KeyedList.lookup (List.map tolower) items (cString key) with
    | none => rfl
    | some kk => rfl

/-- A call that reads leaves the texts. -/
theorem text_valueWith {α : Type} (convert : Str → α) (default : α) (group' key' : Str) :
    (c.valueWith convert group key default).2.text group' key' = c.text group' key' := by
  rw [valueWith, confTogroup]
  cases c.groups.findIdx? fun g => sameText g.1 (cString group) with
  | none => rfl
  | some i =>
    simp only
    cases ({ c with actualGroup := some i } : Conf).confGetany (cString key) with
    | none => rfl
    | some kk => rfl

/-- The loop of `conf_newitem` alters the first item with the name. -/
theorem newitem_eq (itemname value : Str) (items : List (Str × Str)) :
    newitem itemname value items =
      KeyedList.alter (List.map tolower) itemname (fun _ => value) items := by
  induction items with
  | nil => rfl
  | cons item rest ih =>
    rw [newitem, KeyedList.alter, ih]
    simp only [sameText, decide_eq_true_eq]

/-- What a setter begins with moves to the group with the name, and appends it if there is none. -/
theorem newtogroup_spec (c : Conf) (group : Str) :
    ∃ i, (c.newtogroup group).actualGroup = some i ∧
      ((c.newtogroup group).groups.findIdx? fun g => sameText g.1 (cString group)) = some i ∧
      ((c.newtogroup group).groups = c.groups ∨
        (c.groups.findIdx? fun g => sameText g.1 (cString group)) = none ∧
          (c.newtogroup group).groups = c.groups ++ [(cString group, [])]) := by
  cases h : c.groups.findIdx? fun g => sameText g.1 (cString group) with
  | some i =>
    have hto : c.newtogroup group = { c with actualGroup := some i } := by
      simp only [newtogroup, confNewgroup, confTogroup, h]
    rw [hto]
    exact ⟨i, rfl, h, .inl rfl⟩
  | none =>
    have hnew : ((c.groups ++ [(cString group, [])]).findIdx? fun g : Str × List (Str × Str) =>
        sameText g.1 (cString group)) = some c.groups.length := by
      rw [List.findIdx?_append, h]
      simp [sameText]
    have hto : c.newtogroup group =
        { groups := c.groups ++ [(cString group, [])], actualGroup := some c.groups.length } := by
      simp only [newtogroup, confNewgroup, confTogroup, h, hnew]
    rw [hto]
    exact ⟨c.groups.length, rfl, hnew, .inr ⟨rfl, rfl⟩⟩

/-- What a setter writes is put under its group and its key. -/
theorem groups_newitem (c : Conf) (group itemname value : Str) :
    ((c.newtogroup group).confNewitem itemname value).groups =
      KeyedList.put₂ (List.map tolower) (cString group) itemname value c.groups := by
  obtain ⟨i, hactual, hfind, hgroups⟩ := c.newtogroup_spec group
  have hitem : newitem itemname value =
      KeyedList.alter (List.map tolower) itemname (fun _ => value) :=
    funext fun items => newitem_eq itemname value items
  rw [confNewitem, hactual]
  simp only [hitem]
  rw [KeyedList.modify_eq_alter _ [] hfind, KeyedList.put₂]
  cases hgroups with
  | inl hsame => rw [hsame]
  | inr hnew =>
    obtain ⟨hnone, happend⟩ := hnew
    rw [happend]
    exact KeyedList.alter_append _ _ hnone

end Conf

/-! ### The numbers that are written -/

/-- The characters of a written number are digits. -/
theorem isdigit_of_mem_ascii {i : ℕ} {b : UInt8} (hb : b ∈ ascii (toString i)) : isdigit b := by
  have hcases : ∀ k < 0x3A, 0x30 ≤ k → isdigit (.ofNat k) = true := by decide
  rw [key_eq] at hb
  obtain ⟨c, hc, rfl⟩ := List.mem_map.mp hb
  have hdigit := isDigit_of_mem_key hc
  simp only [Char.isDigit, Bool.and_eq_true, decide_eq_true_eq] at hdigit
  exact hcases c.toNat (Nat.lt_succ_of_le (UInt32.le_iff_toNat_le.mp hdigit.2))
    (UInt32.le_iff_toNat_le.mp hdigit.1)

/-- A number is read back from its digits. -/
theorem decimal_ascii (i : ℕ) : decimal (ascii (toString i)) = i := by
  have hall : (ascii (toString i)).takeWhile isdigit = ascii (toString i) :=
    List.takeWhile_eq_self_iff.mpr fun b hb => isdigit_of_mem_ascii hb
  rw [decimal, hall, readDigits_key, Option.getD_some]

/-- A digit is no space and no sign. -/
theorem isspace_of_isdigit {b : UInt8} (h : isdigit b) :
    isspace b = false ∧ b ≠ 0x2D ∧ b ≠ 0x2B := by
  simp only [isdigit, decide_eq_true_eq, UInt8.le_iff_toNat_le, UInt8.reduceToNat] at h
  have hspace : isspace b = false := by
    simp only [isspace, decide_eq_false_iff_not, UInt8.le_iff_toNat_le, ← UInt8.toNat_inj,
      UInt8.reduceToNat]
    omega
  refine ⟨hspace, ?_, ?_⟩
  · rintro rfl
    exact absurd h (by decide)
  · rintro rfl
    exact absurd h (by decide)

/-- `atol` of digits. -/
theorem atol_of_digits (overflow : Str → Int32) {text : Str} (h : ∀ b ∈ text, isdigit b) :
    atol overflow text =
      if decimal text < 2 ^ 31 then .ofNat (decimal text) else overflow text := by
  cases text with
  | nil => rfl
  | cons b rest =>
    obtain ⟨hspace, hminus, hplus⟩ := isspace_of_isdigit (h b List.mem_cons_self)
    have hdrop : (b :: rest).dropWhile isspace = b :: rest :=
      List.dropWhile_cons_of_neg (by simp [hspace])
    have hnumber : (match b :: rest with
        | 0x2D :: digits => -(decimal digits : ℤ)
        | 0x2B :: digits => decimal digits
        | digits => decimal digits) = (decimal (b :: rest) : ℤ) := by
      split
      · rename_i heq
        exact absurd (List.cons.inj heq).1 hminus
      · rename_i heq
        exact absurd (List.cons.inj heq).1 hplus
      · rfl
    rw [atol, hdrop]
    simp only [hnumber]
    have hiff : (-2 ^ 31 ≤ (decimal (b :: rest) : ℤ) ∧ (decimal (b :: rest) : ℤ) < 2 ^ 31) ↔
        decimal (b :: rest) < 2 ^ 31 := by omega
    simp only [hiff]
    rfl

/-- A number is read back from what is written if it is not negative. -/
theorem atol_unsignedText (overflow : Str → Int32) (v : Int32) :
    atol overflow (unsignedText v) = if 0 ≤ v then v else overflow (unsignedText v) := by
  have hnonneg : v.toUInt32.toNat < 2 ^ 31 ↔ 0 ≤ v := by
    have hword : v.toUInt32.toNat = v.toBitVec.toNat := rfl
    have hint : v.toInt = v.toBitVec.toInt := rfl
    have hzero : (0 : Int32).toInt = 0 := rfl
    rw [Int32.le_iff_toInt_le, hzero, hint, BitVec.toInt_eq_toNat_cond, hword]
    have hlt := v.toBitVec.isLt
    split <;> omega
  have hback : Int32.ofNat v.toUInt32.toNat = v :=
    Int32.toBitVec_inj.mp ((BitVec.ofNat_toNat 32 v.toBitVec).trans (BitVec.setWidth_eq _))
  have hread := atol_of_digits overflow fun b (hb : b ∈ unsignedText v) => isdigit_of_mem_ascii hb
  rw [hread]
  simp only [unsignedText, decimal_ascii, hback, hnonneg]

/-- The only number that is written like a truth value is 1. -/
theorem isTrue_unsignedText (v : Int32) : isTrue (unsignedText v) = decide (v = 1) := by
  have hword : ∀ text b, text.head? = some b → isdigit b = false → unsignedText v ≠ text := by
    intro text b hhead hb htext
    have hmem : b ∈ unsignedText v := htext ▸ List.mem_of_mem_head? hhead
    rw [isdigit_of_mem_ascii hmem] at hb
    cases hb
  have hone : unsignedText v = ascii "1" ↔ v = 1 := by
    constructor
    · intro h
      have hnat : v.toUInt32.toNat = 1 := key_injective h
      exact Int32.toBitVec_inj.mp (BitVec.eq_of_toNat_eq hnat)
    · rintro rfl
      rfl
  simp only [isTrue, List.map_cons, List.map_nil, List.mem_cons, List.not_mem_nil, or_false, hone]
  simp [hword (ascii "true") 0x74 rfl rfl, hword (ascii "True") 0x54 rfl rfl,
    hword (ascii "TRUE") 0x54 rfl rfl, hword (ascii "yes") 0x79 rfl rfl,
    hword (ascii "Yes") 0x59 rfl rfl, hword (ascii "YES") 0x59 rfl rfl]

end Multicrew.Core
