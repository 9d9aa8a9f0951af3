import Mathlib.Data.List.Nodup
import Mathlib.Data.Nat.Find
import Multicrew.Core.FsuipcModule
import Multicrew.Core.StringUtilities
import Multicrew.Library.Bytes

/-!
# The FSUIPC watches of a module

`MulticrewCoreImpl::registerModule` makes a watch for every line in the section `[fsuipc]` of the
module's configuration. A wrong number of fields is only logged, a text that is not a number leaves
the function by an exception, and an id or a size that is too large is truncated. Reading a field
that is not there has no defined result, so nothing is said about what follows.
-/

namespace Multicrew.Core

open Multicrew.Library (ascii)

/-- `FileConfig`: the groups of a file with their items. -/
structure FileConfig where
  groups : List (Str × List (Str × Str))
  deriving DecidableEq, Repr

namespace FileConfig

/-- `FileConfig::stringValue`, with `conf_togroup` and `conf_getany`. -/
def stringValue (config : FileConfig) (group key default : Str) : Str :=
  match config.groups.find? fun g => sameText g.1 group with
  | none => default
  | some g =>
    match g.2.find? fun item => sameText item.1 key with
    | none => default
    | some item => item.2

/-- The value under the number `i` in the section for FSUIPC. -/
def line (config : FileConfig) (i : ℕ) : Str :=
  config.stringValue (ascii "fsuipc") (ascii (toString i)) []

end FileConfig

/-- What ends `registerModule` before its loop does. -/
inductive RegisterFailure
  | missingToken
  | invalidArgument (e : InvalidArgument)
  deriving DecidableEq, Repr

/-- The field `tokens[i]`. -/
def token (tokens : List Str) (i : ℕ) : Except RegisterFailure Str :=
  match tokens[i]? with
  | some text => .ok text
  | none => .error .missingToken

/-- The fields of a line, converted one after the other. -/
def convertLine (line : Str) : Except RegisterFailure (ℕ × ℕ × Bool) := do
  let tokens := split line 0x2C
  let id ← (toUint (trim (← token tokens 0))).mapError .invalidArgument
  let len ← (toUint (trim (← token tokens 1))).mapError .invalidArgument
  let safe ← (toBool (trim (← token tokens 2))).mapError .invalidArgument
  return (id, len, safe)

namespace FsuipcModule

/-- The loop of `registerModule` from the key `i` on. -/
def registerFrom (config : FileConfig) : ℕ → ℕ → FsuipcModule → FsuipcModule × Option RegisterFailure
  | 0, _, d => (d, none)
  | fuel + 1, i, d =>
    if config.line i = [] then (d, none)
    else match convertLine (config.line i) with
      | .error failure => (d, some failure)
      | .ok (id, len, _) =>
        registerFrom config fuel (i + 1) (d.watch (.ofNat id) (.ofNat len) false)

/-- The watches `registerModule` adds. A section has no more lines than the file has items. -/
def registerModule (d : FsuipcModule) (config : FileConfig) :
    FsuipcModule × Option RegisterFailure :=
  registerFrom config ((config.groups.flatMap Prod.snd).length + 1) 1 d

end FsuipcModule

/-- The watch a line describes: it has three fields with numbers, and the first two fit. -/
def described (line : Str) : Option FsuipcWatch :=
  match (split line 0x2C).map fun text => written (trim text) with
  | [some id, some size, some _] =>
    if id < 2 ^ 16 ∧ size < 2 ^ 8 then some (.new (.ofNat id) (.ofNat size) .medium) else none
  | _ => none

namespace FileConfig

variable (config : FileConfig)

/-- The first missing or empty key is `n + 1`. -/
def EndsAfter (n : ℕ) : Prop := (∀ i < n, config.line (i + 1) ≠ []) ∧ config.line (n + 1) = []

/-- The lines of the keys from 1 to `n`. -/
def lines (n : ℕ) : List Str := (List.range n).map fun i => config.line (i + 1)

/-- What `registerModule` has to do: no failure, and one more watch for every line up to the first
missing key that describes one. -/
def Configured (d : FsuipcModule) (result : FsuipcModule × Option RegisterFailure) : Prop :=
  ∃ n, config.EndsAfter n ∧ result.2 = none ∧
    result.1.watches = d.watches ++ (config.lines n).filterMap described

end FileConfig

variable {config : FileConfig} {d : FsuipcModule} {w : FsuipcWatch} {line : Str} {fuel k m n : ℕ}

/-- What a line describes is what its conversion gives to `watch`. -/
theorem convertLine_of_described (h : described line = some w) :
    ∃ id len safe, convertLine line = .ok (id, len, safe) ∧
      w = .new (.ofNat id) (.ofNat len) .medium := by
  unfold described at h
  split at h
  · rename_i id size flag htokens
    simp only [Option.ite_none_right_eq_some, Option.some.injEq] at h
    obtain ⟨⟨hid, hsize⟩, rfl⟩ := h
    obtain ⟨first, rest, hsplit, hfirst, hrest⟩ := List.map_eq_cons_iff.mp htokens
    obtain ⟨second, rest, rfl, hsecond, hrest⟩ := List.map_eq_cons_iff.mp hrest
    obtain ⟨third, rest, rfl, hthird, hrest⟩ := List.map_eq_cons_iff.mp hrest
    obtain rfl := List.map_eq_nil_iff.mp hrest
    refine ⟨id, size, flag % 2 ^ 8 ≠ 0, ?_, rfl⟩
    have hid' : toUint (trim first) = .ok id := by
      rw [toUint_eq_uvalue, uvalue_of_written 32 hfirst, Nat.mod_eq_of_lt (by omega)]
    have hsize' : toUint (trim second) = .ok size := by
      rw [toUint_eq_uvalue, uvalue_of_written 32 hsecond, Nat.mod_eq_of_lt (by omega)]
    have hflag : toBool (trim third) = .ok (flag % 2 ^ 8 ≠ 0) := by
      rw [toBool, uvalue_of_written 8 hthird]
      rfl
    simp only [convertLine, hsplit, token, List.getElem?_cons_zero, List.getElem?_cons_succ]
    simp only [bind, pure, Except.bind, Except.pure, Except.mapError, hid', hsize', hflag]
  · cases h

namespace FsuipcModule

/-- The loop ends at an empty value. -/
theorem registerFrom_of_end (hfuel : 0 < fuel) (hend : config.line k = []) :
    registerFrom config fuel k d = (d, none) := by
  obtain ⟨fuel, rfl⟩ := Nat.exists_eq_succ_of_ne_zero hfuel.ne'
  rw [registerFrom, if_pos hend]

/-- Lines that are all well formed get their watches. -/
theorem registerFrom_of_described (hfuel : m < fuel) (hlines : ∀ i < m, config.line (i + k) ≠ [])
    (hend : config.line (m + k) = []) (hall : ∀ i < m, (described (config.line (i + k))).isSome) :
    (registerFrom config fuel k d).2 = none ∧ (registerFrom config fuel k d).1.watches =
      d.watches ++ ((List.range m).map fun i => config.line (i + k)).filterMap described := by
  induction m generalizing fuel k d with
  | zero =>
    rw [Nat.zero_add] at hend
    rw [registerFrom_of_end hfuel hend]
    simp
  | succ m ih =>
    obtain ⟨fuel, rfl⟩ := Nat.exists_eq_succ_of_ne_zero (by omega : fuel ≠ 0)
    have hfirst := hlines 0 (Nat.succ_pos m)
    obtain ⟨w, hw⟩ := Option.isSome_iff_exists.mp (hall 0 (Nat.succ_pos m))
    rw [Nat.zero_add] at hfirst hw
    obtain ⟨id, len, safe, hconvert, rfl⟩ := convertLine_of_described hw
    have hshift : ∀ i, i + (k + 1) = i + 1 + k := fun i => by omega
    obtain ⟨hnone, hwatches⟩ := @ih (d.watch (.ofNat id) (.ofNat len) false) fuel (k + 1)
      (by omega) (fun i hi => hshift i ▸ hlines (i + 1) (by omega)) (hshift m ▸ hend)
      (fun i hi => hshift i ▸ hall (i + 1) (by omega))
    rw [registerFrom, if_neg hfirst, hconvert]
    refine ⟨hnone, hwatches.trans ?_⟩
    simp [List.range_succ_eq_map, hw, watch, hshift, Function.comp_def]

/-- Every line that does not end the loop gets a watch. -/
theorem registerFrom_length (hfuel : m < fuel) (hlines : ∀ i < m, config.line (i + k) ≠ [])
    (hend : config.line (m + k) = []) (h : (registerFrom config fuel k d).2 = none) :
    (registerFrom config fuel k d).1.watches.length = d.watches.length + m := by
  induction m generalizing fuel k d with
  | zero =>
    rw [Nat.zero_add] at hend
    rw [registerFrom_of_end hfuel hend]
    rfl
  | succ m ih =>
    obtain ⟨fuel, rfl⟩ := Nat.exists_eq_succ_of_ne_zero (by omega : fuel ≠ 0)
    have hfirst := hlines 0 (Nat.succ_pos m)
    rw [Nat.zero_add] at hfirst
    rw [registerFrom, if_neg hfirst] at h ⊢
    have hshift : ∀ i, i + (k + 1) = i + 1 + k := fun i => by omega
    cases hconvert : convertLine (config.line k) with
    | error failure => simp [hconvert] at h
    | ok values =>
      obtain ⟨id, len, safe⟩ := values
      simp only [hconvert] at h ⊢
      rw [ih (by omega) (fun i hi => hshift i ▸ hlines (i + 1) (by omega)) (hshift m ▸ hend) h]
      simp [watch]
      omega

end FsuipcModule

/-! ### The keys of a section -/

/-- A decimal digit is read back, and has no other case. -/
theorem fromChar_digit {c : Char} (hc : c.isDigit) :
    fromChar (.ofNat c.toNat) = some (c.toNat - 0x30) ∧ c.toNat - 0x30 < 10 ∧
      tolower (.ofNat c.toNat) = .ofNat c.toNat := by
  have hcases : ∀ k < 0x3A, 0x30 ≤ k → fromChar (.ofNat k) = some (k - 0x30) ∧ k - 0x30 < 10 ∧
      tolower (.ofNat k) = .ofNat k := by decide
  simp only [Char.isDigit, Bool.and_eq_true, decide_eq_true_eq] at hc
  exact hcases c.toNat (Nat.lt_succ_of_le (UInt32.le_iff_toNat_le.mp hc.2))
    (UInt32.le_iff_toNat_le.mp hc.1)

/-- Decimal digits are read as their number. -/
theorem readDigits_ofDigitChars {chars : List Char} (h : ∀ c ∈ chars, c.isDigit) (n : ℕ) :
    readDigits 10 n (chars.map fun c => .ofNat c.toNat) = some (Nat.ofDigitChars 10 chars n) := by
  induction chars generalizing n with
  | nil => rfl
  | cons c chars ih =>
    obtain ⟨hdigit, hlt, -⟩ := fromChar_digit (h c List.mem_cons_self)
    rw [List.map_cons, readDigits, hdigit, Nat.ofDigitChars_cons, Nat.mul_comm 10]
    simp only [if_pos hlt]
    exact ih (fun c hc => h c (List.mem_cons_of_mem _ hc)) _

/-- The characters of a key. -/
theorem key_eq (i : ℕ) :
    ascii (toString i) = (Nat.toDigits 10 i).map fun c => .ofNat c.toNat := by
  simp [ascii]

/-- A key is made of digits. -/
theorem isDigit_of_mem_key {i : ℕ} {c : Char} (hc : c ∈ Nat.toDigits 10 i) : c.isDigit :=
  Nat.isDigit_of_mem_toDigits (by decide) (by decide) hc

/-- A key is not changed by `tolower`. -/
theorem map_tolower_key (i : ℕ) : (ascii (toString i)).map tolower = ascii (toString i) := by
  rw [key_eq, List.map_map]
  exact List.map_congr_left fun c hc => (fromChar_digit (isDigit_of_mem_key hc)).2.2

/-- A key is read as its number. -/
theorem readDigits_key (i : ℕ) : readDigits 10 0 (ascii (toString i)) = some i := by
  rw [key_eq, readDigits_ofDigitChars fun c hc => isDigit_of_mem_key hc,
    Nat.ofDigitChars_ten_toDigits]

/-- Different numbers are different keys. -/
theorem key_injective : Function.Injective fun i : ℕ => ascii (toString i) := by
  intro i j hij
  exact Option.some.inj ((readDigits_key i).symm.trans ((congrArg _ hij).trans (readDigits_key j)))

namespace FileConfig

/-- A value that is found is the value of an item with that key. -/
theorem exists_item_of_line (h : config.line k ≠ []) :
    ascii (toString k) ∈ (config.groups.flatMap Prod.snd).map fun item => item.1.map tolower := by
  unfold line stringValue at h
  split at h
  · exact absurd rfl h
  · rename_i g hg
    split at h
    · exact absurd rfl h
    · rename_i item hitem
      have hsame : item.1.map tolower = (ascii (toString k)).map tolower := by
        simpa [sameText] using List.find?_some hitem
      have hmem : item ∈ config.groups.flatMap Prod.snd :=
        List.mem_flatMap.mpr ⟨g, List.mem_of_find?_eq_some hg, List.mem_of_find?_eq_some hitem⟩
      rw [← map_tolower_key, ← hsame]
      exact List.mem_map_of_mem hmem

/-- The lines come to an end, before there are more of them than items. -/
theorem exists_endsAfter (config : FileConfig) :
    ∃ n ≤ (config.groups.flatMap Prod.snd).length, config.EndsAfter n := by
  have hbound : ∀ n, (∀ i < n, config.line (i + 1) ≠ []) →
      n ≤ (config.groups.flatMap Prod.snd).length := by
    intro n hlines
    have hkeys : ((List.range n).map fun i => ascii (toString (i + 1))).Nodup :=
      List.nodup_range.map fun i j hij => Nat.succ.inj (key_injective hij)
    have hsubset : ((List.range n).map fun i => ascii (toString (i + 1))) ⊆
        (config.groups.flatMap Prod.snd).map fun item => item.1.map tolower := by
      intro key hkey
      obtain ⟨i, hi, rfl⟩ := List.mem_map.mp hkey
      exact exists_item_of_line (hlines i (List.mem_range.mp hi))
    simpa using (hkeys.subperm hsubset).length_le
  have hexists : ∃ n, config.line (n + 1) = [] := by
    by_contra hnever
    have htoo := hbound ((config.groups.flatMap Prod.snd).length + 1)
      fun i _ hempty => hnever ⟨i, hempty⟩
    omega
  have hlines : ∀ i < Nat.find hexists, config.line (i + 1) ≠ [] := fun _ hi => Nat.find_min hexists hi
  exact ⟨_, hbound _ hlines, hlines, Nat.find_spec hexists⟩

/-- The lines come to an end once. -/
theorem EndsAfter.unique (hm : config.EndsAfter m) (hn : config.EndsAfter n) : m = n := by
  obtain hlt | heq | hgt := lt_trichotomy m n
  · exact absurd hm.2 (hn.1 m hlt)
  · exact heq
  · exact absurd hn.2 (hm.1 n hgt)

end FileConfig

/-- `registerModule` gives a module the watches its configuration describes exactly if every line
before the first missing or empty key describes one. -/
theorem configured_iff_described (config : FileConfig) (d : FsuipcModule) :
    config.Configured d (d.registerModule config) ↔
      ∀ i, (∀ j ≤ i, config.line (j + 1) ≠ []) → (described (config.line (i + 1))).isSome := by
  obtain ⟨n, hle, hends⟩ := config.exists_endsAfter
  have hfuel : n < (config.groups.flatMap Prod.snd).length + 1 := Nat.lt_succ_of_le hle
  constructor
  · rintro ⟨m, hends', hnone, hwatches⟩ i hbefore
    obtain rfl := hends'.unique hends
    have hi : i < m := by
      by_contra hge
      exact hbefore m (Nat.le_of_not_lt hge) hends.2
    have hlength := FsuipcModule.registerFrom_length hfuel hends.1 hends.2 hnone
    have hall : ((config.lines m).filterMap described).length = (config.lines m).length := by
      have hsame := congrArg List.length hwatches
      rw [List.length_append] at hsame
      rw [FileConfig.lines, List.length_map, List.length_range]
      exact Nat.add_left_cancel (hsame.symm.trans hlength)
    exact List.filterMap_length_eq_length.mp hall _
      (List.mem_map.mpr ⟨i, List.mem_range.mpr hi, rfl⟩)
  · intro hall
    obtain ⟨hnone, hwatches⟩ := FsuipcModule.registerFrom_of_described (d := d) hfuel hends.1 hends.2
      fun i hi => hall i fun j hj => hends.1 j (hj.trans_lt hi)
    exact ⟨n, hends, hnone, hwatches⟩

/-- A configuration with two lines, of which the second is well formed. -/
def configWith (first : Str) : FileConfig :=
  ⟨[(ascii "fsuipc", [(ascii "1", first), (ascii "2", ascii "0xbe8,4,1")])]⟩

/-- An id of more than 16 bits gets a watch for another variable, and after a line without a third
field or with a text for a number there are no more watches. -/
theorem configWith_not_configured :
    ¬ (configWith (ascii "0x10bdc,4,1")).Configured {}
        (FsuipcModule.registerModule {} (configWith (ascii "0x10bdc,4,1"))) ∧
      ¬ (configWith (ascii "0xbdc,4")).Configured {}
        (FsuipcModule.registerModule {} (configWith (ascii "0xbdc,4"))) ∧
      ¬ (configWith (ascii "gear,1,1")).Configured {}
        (FsuipcModule.registerModule {} (configWith (ascii "gear,1,1"))) := by
  refine ⟨?_, fun ⟨_, _, hnone, _⟩ => absurd hnone (by decide),
    fun ⟨_, _, hnone, _⟩ => absurd hnone (by decide)⟩
  rintro ⟨n, hends, -, hwatches⟩
  have htwo : (configWith (ascii "0x10bdc,4,1")).EndsAfter 2 := by
    rw [FileConfig.EndsAfter]
    decide
  obtain rfl := htwo.unique hends
  exact absurd hwatches (by decide)

end Multicrew.Core
