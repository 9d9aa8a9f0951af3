import Multicrew.Core.ConfigStore
import Multicrew.Library.Machine

/-!
# The configuration as a typed store

A value that is set should be what its getter returns until another one is set, and no call should
change what is returned elsewhere. Every call writes one text and reads one, so the second part
holds always, and the first one for the values that their getter makes of their own text: truth
values, numbers that are not negative, and never a text.
-/

namespace Multicrew.Core

open Multicrew.Library

/-- The setters, which have a getter each. -/
inductive Kind
  | number
  | string
  | bool
  deriving DecidableEq, Repr

/-- A value that is set. -/
inductive Value
  | number (value : Int32)
  | string (value : Str)
  | bool (value : Bool)
  deriving DecidableEq, Repr

/-- The setter of a value. -/
def Value.kind : Value → Kind
  | number _ => .number
  | string _ => .string
  | bool _ => .bool

/-- A call of a setter. -/
structure Setting where
  group : Str
  key : Str
  value : Value
  deriving DecidableEq, Repr

/-- The call sets the value under a group and a key, for `stricmp`. -/
def Setting.isAt (setting : Setting) (group key : Str) : Bool :=
  sameText (cString setting.group) (cString group) && sameText (cString setting.key) (cString key)

/-- The value under a group and a key that was most recently set, latest call first. -/
def last (sets : List Setting) (group key : Str) : Option Value :=
  (sets.find? fun setting => setting.isAt group key).map Setting.value

/-- The calls of one setter. -/
def ofKind (kind : Kind) (sets : List Setting) : List Setting :=
  sets.filter fun setting => setting.value.kind = kind

/-- The value was set there by the last call of all setters. -/
def Latest (sets : List Setting) (group key : Str) (value : Value) : Prop :=
  last sets group key = some value

/-- The value was set there by the last call of its own setter. -/
def LatestOfKind (sets : List Setting) (group key : Str) (value : Value) : Prop :=
  last (ofKind value.kind sets) group key = some value

namespace Conf

/-- The call of the setter of a value. -/
def set (c : Conf) (setting : Setting) : Option Conf :=
  match setting.value with
  | .number value => some (c.setNumber setting.group setting.key value)
  | .string value => c.setString setting.group setting.key value
  | .bool value => some (c.setBool setting.group setting.key value)

/-- The configuration behind the call of a getter. -/
def get (overflow : Str → Int32) (c : Conf) (kind : Kind) (group key : Str) : Conf :=
  match kind with
  | .number => (c.intValue overflow group key 0).2
  | .string => (c.stringValue group key []).2
  | .bool => (c.boolValue group key false).2

/-- With every default, the getter of a value returns it. -/
def Returned (overflow : Str → Int32) (c : Conf) (group key : Str) : Value → Prop
  | .number value => ∀ default, (c.intValue overflow group key default).1 = value
  | .string value => ∀ default, (c.stringValue group key default).1 = value
  | .bool value => ∀ default, (c.boolValue group key default).1 = value

/-- With every default, all getters return what they did before. -/
structure Unchanged (overflow : Str → Int32) (c c' : Conf) (group key : Str) : Prop where
  int : ∀ default, (c'.intValue overflow group key default).1 =
    (c.intValue overflow group key default).1
  string : ∀ default, (c'.stringValue group key default).1 = (c.stringValue group key default).1
  bool : ∀ default, (c'.boolValue group key default).1 = (c.boolValue group key default).1

end Conf

/-- A call on a configuration. -/
inductive ConfigCall
  | set (setting : Setting)
  | get (kind : Kind) (group key : Str)
  deriving DecidableEq, Repr

/-- A configuration as it was first and as it is, and the calls that set values, latest first. There
is no configuration behind a text that was written past the end of an array. -/
structure ConfigStore where
  first : Conf
  conf : Option Conf
  sets : List Setting

namespace ConfigStore

/-- A configuration before any call. -/
def start (first : Conf) : ConfigStore := ⟨first, some first, []⟩

variable (overflow : Str → Int32)

/-- The next call. -/
def next (s : ConfigStore) : ConfigCall → ConfigStore
  | .set setting =>
    { s with conf := s.conf.bind fun c => c.set setting, sets := setting :: s.sets }
  | .get kind group key => { s with conf := s.conf.map fun c => c.get overflow kind group key }

/-- The runs of calls on a configuration. -/
def machine : Machine ConfigStore ConfigCall where
  initial s := ∃ first, s = start first
  step s call := some (s.next overflow call)

/-- The values that count as set under a group and a key are returned by their getters, and where no
value was set all getters return what they did first. -/
def Returns (counts : List Setting → Str → Str → Value → Prop) (s : ConfigStore) : Prop :=
  ∃ c, s.conf = some c ∧ ∀ group key,
    (∀ value, counts s.sets group key value → c.Returned overflow group key value) ∧
    (last s.sets group key = none → s.first.Unchanged overflow c group key)

/-- A call leaves what all getters return elsewhere. -/
def Frames (s : ConfigStore) (call : ConfigCall) : Prop :=
  ∀ c c', s.conf = some c → (s.next overflow call).conf = some c' → ∀ group key,
    (∀ setting, call = .set setting → setting.isAt group key = false) →
    c.Unchanged overflow c' group key

/-- No text is set, and no negative number unless `atol` happens to make it of its digits. -/
def Proper : ConfigCall → Prop
  | .set ⟨_, _, .number value⟩ => 0 ≤ value ∨ overflow (unsignedText value) = value
  | .set ⟨_, _, .string _⟩ => False
  | .set ⟨_, _, .bool _⟩ => True
  | .get _ _ _ => True

/-- The number and the truth value last set under a group and a key stand for each other. -/
def Consistent (s : ConfigStore) : ConfigCall → Prop
  | .set ⟨group, key, .number value⟩ =>
    ∀ b, last (ofKind .bool s.sets) group key = some (.bool b) → (b = true ↔ value = 1)
  | .set ⟨group, key, .bool b⟩ =>
    ∀ value, last (ofKind .number s.sets) group key = some (.number value) →
      value = if b then 1 else 0
  | _ => True

end ConfigStore

/-- What is written for a value. -/
def Value.text : Value → Str
  | number value => unsignedText value
  | string value => quoted (cString value)
  | bool value => unsignedText (if value then 1 else 0)

/-- The getter of a value makes it of a text. -/
def Value.ReadFrom (overflow : Str → Int32) (text : Str) : Value → Prop
  | number value => atol overflow text = value
  | string value => text = value
  | bool value => isTrue text = value

variable {overflow : Str → Int32} {c c' : Conf} {group key : Str} {setting : Setting} {value : Value}
  {sets : List Setting} {kind : Kind} {s t : ConfigStore} {call : ConfigCall}

/-- The value last set is that of the last call, where it is for these keys. -/
theorem last_cons :
    last (setting :: sets) group key =
      if setting.isAt group key then some setting.value else last sets group key := by
  rw [last, List.find?_cons]
  cases setting.isAt group key with
  | true => rfl
  | false => rfl

/-- A call counts for its own setter only. -/
theorem ofKind_cons :
    ofKind kind (setting :: sets) =
      if setting.value.kind = kind then setting :: ofKind kind sets else ofKind kind sets := by
  simp only [ofKind, List.filter_cons, decide_eq_true_eq]

/-- Two keys of a call are the same for `stricmp` as those of the text it writes. -/
theorem isAt_iff :
    setting.isAt group key = true ↔
      (cString setting.group).map tolower = (cString group).map tolower ∧
        (cString setting.key).map tolower = (cString key).map tolower := by
  simp only [Setting.isAt, sameText, Bool.and_eq_true, decide_eq_true_eq]

namespace Conf

/-- A setter leaves its text under its own keys and the other texts under theirs. -/
theorem text_set (h : c.set setting = some c') (group key : Str) :
    c'.text group key =
      if setting.isAt group key then some setting.value.text else c.text group key := by
  have hput : ∀ value, ((c.newtogroup setting.group).confNewitem (cString setting.key) value).text
      group key = if setting.isAt group key then some value else c.text group key := by
    intro value
    simp only [text, groups_newitem, KeyedList.lookup₂_put₂, isAt_iff]
  unfold set at h
  split at h
  · rename_i value hvalue
    cases h
    rw [hvalue]
    exact hput _
  · rename_i value hvalue
    rw [setString, confNewstring, Option.ite_none_right_eq_some] at h
    cases h.2
    rw [hvalue]
    exact hput _
  · rename_i value hvalue
    cases h
    rw [hvalue]
    exact hput _

/-- A getter leaves all texts. -/
theorem text_get (kind : Kind) (group' key' : Str) :
    (c.get overflow kind group' key').text group key = c.text group key := by
  cases kind with
  | number => exact text_valueWith _ _ _ _
  | string => exact text_valueWith _ _ _ _
  | bool => exact text_valueWith _ _ _ _

/-- A text that is kept is what the getters make a value of. -/
theorem returned_iff {text : Str} (h : c.text group key = some text) :
    c.Returned overflow group key value ↔ value.ReadFrom overflow text := by
  cases value with
  | number value =>
    simp only [Returned, intValue, valueWith_fst, h, Option.map_some, Option.getD_some,
      forall_const, Value.ReadFrom]
  | string value =>
    simp only [Returned, stringValue, valueWith_fst, h, Option.map_some, Option.getD_some,
      forall_const, Value.ReadFrom, id]
  | bool value =>
    simp only [Returned, boolValue, valueWith_fst, h, Option.map_some, Option.getD_some,
      forall_const, Value.ReadFrom]

/-- Where the text is the same the getters return the same. -/
theorem unchanged_of_text (h : c'.text group key = c.text group key) :
    c.Unchanged overflow c' group key := by
  constructor
  · intro default
    simp only [intValue, valueWith_fst, h]
  · intro default
    simp only [stringValue, valueWith_fst, h]
  · intro default
    simp only [boolValue, valueWith_fst, h]

/-- Where the text is the same the same values are returned. -/
theorem returned_congr (h : c'.text group key = c.text group key) :
    c'.Returned overflow group key value ↔ c.Returned overflow group key value := by
  cases value with
  | number value => simp only [Returned, intValue, valueWith_fst, h]
  | string value => simp only [Returned, stringValue, valueWith_fst, h]
  | bool value => simp only [Returned, boolValue, valueWith_fst, h]

/-- What getters return twice the same they return the same in the end. -/
theorem Unchanged.trans {c'' : Conf} (h : c.Unchanged overflow c' group key)
    (h' : c'.Unchanged overflow c'' group key) : c.Unchanged overflow c'' group key := by
  constructor
  · intro default
    exact (h'.int default).trans (h.int default)
  · intro default
    exact (h'.string default).trans (h.string default)
  · intro default
    exact (h'.bool default).trans (h.bool default)

end Conf

/-! ### What is read from what is written -/

/-- A number is read from its own text if it is not negative, or if `atol` happens to make it. -/
theorem readFrom_number (v : Int32) :
    (Value.number v).ReadFrom overflow (unsignedText v) ↔ 0 ≤ v ∨ overflow (unsignedText v) = v := by
  rw [Value.ReadFrom, atol_unsignedText]
  by_cases h : 0 ≤ v
  · simp [h]
  · simp [h]

/-- A text is longer in quotes. -/
theorem not_readFrom_string (v : Str) :
    ¬ (Value.string v).ReadFrom overflow (Value.string v).text := by
  intro hread
  have hquoted : quoted (cString v) = v := hread
  have hzero : 0 ∉ v := by
    rw [← hquoted]
    simp [quoted, not_mem_cString]
  have hlength := congrArg List.length hquoted
  rw [cString_eq_self hzero] at hlength
  simp only [quoted, List.length_append, List.length_cons, List.length_nil] at hlength
  omega

/-- A truth value is read from a number as whether it is 1. -/
theorem readFrom_bool (v : Int32) (b : Bool) :
    (Value.bool b).ReadFrom overflow (unsignedText v) ↔ (b = true ↔ v = 1) := by
  rw [Value.ReadFrom, isTrue_unsignedText]
  cases b with
  | true => simp
  | false => simp

/-- A number is read from a truth value as 1 or 0. -/
theorem readFrom_number_of_bool (v : Int32) (b : Bool) :
    (Value.number v).ReadFrom overflow (Value.bool b).text ↔ v = if b then 1 else 0 := by
  rw [Value.ReadFrom, Value.text, atol_unsignedText]
  cases b with
  | true => simp [eq_comm]
  | false => simp [eq_comm]

/-- The condition on a call says that its value is read from what is written for it. -/
theorem proper_iff :
    ConfigStore.Proper overflow (.set setting) ↔
      setting.value.ReadFrom overflow setting.value.text := by
  obtain ⟨group, key, value⟩ := setting
  cases value with
  | number v => exact (readFrom_number v).symm
  | string v => exact iff_of_false id (not_readFrom_string v)
  | bool b => exact iff_of_true trivial ((readFrom_bool _ b).mpr (by cases b <;> decide))

/-- Only a text can be written past the end of an array. -/
theorem Conf.exists_set (c : Conf) (h : setting.value.kind ≠ .string) :
    ∃ c', c.set setting = some c' := by
  obtain ⟨group, key, value⟩ := setting
  cases value with
  | number v => exact ⟨_, rfl⟩
  | string v => exact absurd rfl h
  | bool b => exact ⟨_, rfl⟩

/-- A call whose value is read back is not one for a text. -/
theorem ConfigStore.Proper.kind_ne (h : ConfigStore.Proper overflow (.set setting)) :
    setting.value.kind ≠ .string := by
  obtain ⟨group, key, value⟩ := setting
  cases value with
  | number v => exact nofun
  | string v => exact h.elim
  | bool b => exact nofun

/-- A setting is at its own place. -/
theorem Setting.isAt_self (setting : Setting) :
    setting.isAt setting.group setting.key = true := isAt_iff.mpr ⟨rfl, rfl⟩

/-- Keys that are the same for `stricmp` have the same value set last. -/
theorem last_congr (h : setting.isAt group key = true) (sets : List Setting) :
    last sets setting.group setting.key = last sets group key := by
  obtain ⟨hgroup, hkey⟩ := isAt_iff.mp h
  have hsame : (fun other : Setting => other.isAt setting.group setting.key) =
      fun other => other.isAt group key := by
    funext other
    simp only [Setting.isAt, sameText, hgroup, hkey]
  rw [last, last, hsame]

namespace ConfigStore

/-- No call changes what getters return elsewhere. -/
theorem frames (s : ConfigStore) (call : ConfigCall) : s.Frames overflow call := by
  intro c c' hc hc' group key hother
  apply Conf.unchanged_of_text
  cases call with
  | set setting =>
    have hset : c.set setting = some c' := by
      simpa only [next, hc, Option.bind_some] using hc'
    rw [Conf.text_set hset, hother setting rfl]
    rfl
  | get kind group' key' =>
    have hget : c.get overflow kind group' key' = c' := by
      simpa only [next, hc, Option.map_some, Option.some.injEq] using hc'
    rw [← hget, Conf.text_get]

variable {counts : List Setting → Str → Str → Value → Prop}

/-- A getter keeps what was to be returned. -/
theorem Returns.get (h : s.Returns overflow counts) (kind : Kind) (group key : Str) :
    (s.next overflow (.get kind group key)).Returns overflow counts := by
  obtain ⟨c, hc, hall⟩ := h
  refine ⟨c.get overflow kind group key, by simp only [next, hc, Option.map_some], ?_⟩
  intro group' key'
  have htext : (c.get overflow kind group key).text group' key' = c.text group' key' :=
    Conf.text_get kind group key
  obtain ⟨hset, hunset⟩ := hall group' key'
  constructor
  · intro value hvalue
    exact (Conf.returned_congr htext).mpr (hset value hvalue)
  · intro hnone
    exact (hunset hnone).trans (Conf.unchanged_of_text htext)

/-- A setter keeps what was to be returned exactly when its own value, and all others that still count
under its keys, are read from what it writes. -/
theorem Returns.set_iff (setting : Setting) (others : Value → Prop)
    (hat : ∀ group key value, setting.isAt group key = true →
      (counts (setting :: s.sets) group key value ↔ value = setting.value ∨ others value))
    (hnot : ∀ group key value, setting.isAt group key = false →
      (counts (setting :: s.sets) group key value ↔ counts s.sets group key value))
    (h : s.Returns overflow counts) :
    (s.next overflow (.set setting)).Returns overflow counts ↔
      Proper overflow (.set setting) ∧
        ∀ value, others value → value.ReadFrom overflow setting.value.text := by
  obtain ⟨c, hc, hall⟩ := h
  constructor
  · rintro ⟨c', hc', hall'⟩
    have hset : c.set setting = some c' := by
      simpa only [next, hc, Option.bind_some] using hc'
    have htext := Conf.text_set hset setting.group setting.key
    rw [if_pos setting.isAt_self] at htext
    have hread : ∀ value, value = setting.value ∨ others value →
        value.ReadFrom overflow setting.value.text := by
      intro value hvalue
      have hcounts := (hat _ _ value setting.isAt_self).mpr hvalue
      exact (Conf.returned_iff htext).mp ((hall' _ _).1 value hcounts)
    exact ⟨proper_iff.mpr (hread _ (.inl rfl)), fun value hvalue => hread value (.inr hvalue)⟩
  · rintro ⟨hproper, hothers⟩
    obtain ⟨c', hset⟩ := c.exists_set hproper.kind_ne
    refine ⟨c', by simp only [next, hc, Option.bind_some, hset], ?_⟩
    intro group key
    have htext := Conf.text_set hset group key
    cases his : setting.isAt group key with
    | true =>
      rw [his, if_pos rfl] at htext
      constructor
      · intro value hvalue
        apply (Conf.returned_iff htext).mpr
        cases (hat group key value his).mp hvalue with
        | inl hown => exact hown ▸ proper_iff.mp hproper
        | inr hother => exact hothers value hother
      · intro hnone
        simp [next, last_cons, his] at hnone
    | false =>
      rw [his, if_neg Bool.false_ne_true] at htext
      obtain ⟨hold, hunset⟩ := hall group key
      constructor
      · intro value hvalue
        exact (Conf.returned_congr htext).mpr (hold value ((hnot group key value his).mp hvalue))
      · intro hnone
        rw [next, last_cons, his, if_neg Bool.false_ne_true] at hnone
        exact (hunset hnone).trans (Conf.unchanged_of_text htext)

end ConfigStore

/-- Of all setters only the last call counts. -/
theorem latest_cons :
    Latest (setting :: sets) group key value ↔
      if setting.isAt group key then value = setting.value else Latest sets group key value := by
  rw [Latest, last_cons]
  cases setting.isAt group key with
  | true => simp [eq_comm]
  | false => rfl

/-- A call does not count against the other setters. -/
theorem latestOfKind_cons :
    LatestOfKind (setting :: sets) group key value ↔
      if setting.isAt group key then
        value = setting.value ∨
          value.kind ≠ setting.value.kind ∧ LatestOfKind sets group key value
      else LatestOfKind sets group key value := by
  rw [LatestOfKind, LatestOfKind, ofKind_cons]
  by_cases hkind : setting.value.kind = value.kind
  · rw [if_pos hkind, last_cons]
    cases setting.isAt group key with
    | true => simp [eq_comm, hkind]
    | false => rfl
  · have hne : value ≠ setting.value := fun h => hkind (h ▸ rfl)
    rw [if_neg hkind]
    cases setting.isAt group key with
    | true => simp [hne, Ne.symm hkind]
    | false => rfl

namespace ConfigStore

/-- Without texts, what other setters have set under the keys of a call is read from what the call
writes exactly if number and truth value stand for each other. -/
theorem consistent_iff (hstring : ofKind .string s.sets = [])
    (hproper : Proper overflow (.set setting)) :
    (∀ value, value.kind ≠ setting.value.kind ∧
        LatestOfKind s.sets setting.group setting.key value →
      value.ReadFrom overflow setting.value.text) ↔ s.Consistent (.set setting) := by
  have hnone : ∀ text, ¬ LatestOfKind s.sets setting.group setting.key (.string text) := by
    intro text htext
    rw [LatestOfKind, Value.kind, hstring] at htext
    cases htext
  obtain ⟨group, key, value⟩ := setting
  cases value with
  | number v =>
    constructor
    · intro hread b hb
      exact (readFrom_bool v b).mp (hread (.bool b) ⟨nofun, hb⟩)
    · intro hcons other hother
      cases other with
      | number w => exact absurd rfl hother.1
      | string text => exact absurd hother.2 (hnone text)
      | bool b => exact (readFrom_bool v b).mpr (hcons b hother.2)
  | string text => exact hproper.elim
  | bool b =>
    constructor
    · intro hread v hv
      exact (readFrom_number_of_bool v b).mp (hread (.number v) ⟨nofun, hv⟩)
    · intro hcons other hother
      cases other with
      | number w => exact (readFrom_number_of_bool w b).mpr (hcons w hother.2)
      | string text => exact absurd hother.2 (hnone text)
      | bool b' => exact absurd rfl hother.1

/-- Nothing counts as set at the start. -/
theorem returns_start (first : Conf) (hcounts : ∀ group key value, ¬ counts [] group key value) :
    (start first).Returns overflow counts := by
  refine ⟨first, rfl, ?_⟩
  intro group key
  constructor
  · intro value hvalue
    exact absurd hvalue (hcounts group key value)
  · intro _
    exact Conf.unchanged_of_text rfl

/-- With the last of all setters counting, a call keeps what was to be returned exactly when its value
is read back. -/
theorem Returns.next_latest_iff (h : s.Returns overflow Latest) (call : ConfigCall) :
    (s.next overflow call).Returns overflow Latest ↔ Proper overflow call := by
  cases call with
  | set setting =>
    have hstep := h.set_iff setting (fun _ => False) ?_ ?_
    · simpa only [false_imp_iff, implies_true, and_true] using hstep
    · intro group key value hat
      rw [latest_cons, if_pos hat, or_false]
    · intro group key value hat
      rw [latest_cons, hat, if_neg Bool.false_ne_true]
  | get kind group key => exact iff_of_true (h.get kind group key) trivial

/-- With the last of each setter counting, number and truth value have to stand for each other. -/
theorem Returns.next_latestOfKind_iff (h : s.Returns overflow LatestOfKind)
    (hstring : ofKind .string s.sets = []) (call : ConfigCall) :
    (s.next overflow call).Returns overflow LatestOfKind ↔
      Proper overflow call ∧ s.Consistent call := by
  cases call with
  | set setting =>
    have hstep := h.set_iff setting (fun value => value.kind ≠ setting.value.kind ∧
      LatestOfKind s.sets setting.group setting.key value) ?_ ?_
    · exact hstep.trans (and_congr_right fun hproper => consistent_iff hstring hproper)
    · intro group key value hat
      have hsame : LatestOfKind s.sets setting.group setting.key value ↔
          LatestOfKind s.sets group key value := by
        rw [LatestOfKind, LatestOfKind, last_congr hat]
      rw [latestOfKind_cons, if_pos hat, hsame]
    · intro group key value hat
      rw [latestOfKind_cons, hat, if_neg Bool.false_ne_true]
  | get kind group key => exact iff_of_true (h.get kind group key) ⟨trivial, trivial⟩

/-- A proper call sets no text. -/
theorem Proper.ofKind_next (hproper : Proper overflow call) (hstring : ofKind .string s.sets = []) :
    ofKind .string (s.next overflow call).sets = [] := by
  cases call with
  | set setting => rw [next, ofKind_cons, if_neg hproper.kind_ne, hstring]
  | get kind group key => exact hstring

/-- In every sequence of calls the values set are returned, and everything else is left, exactly if
every call is proper. If a value counts until its own setter is called again, the numbers and truth
values under the same keys must stand for each other, too. -/
theorem returns_iff_proper (overflow : Str → Int32) (first : Conf) (calls : List ConfigCall) :
    ((machine overflow).Along (fun s call =>
        (s.next overflow call).Returns overflow Latest ∧ s.Frames overflow call)
      (start first) calls ↔ ∀ call ∈ calls, Proper overflow call) ∧
    ((machine overflow).Along (fun s call =>
        (s.next overflow call).Returns overflow LatestOfKind ∧ s.Frames overflow call)
      (start first) calls ↔
      (machine overflow).Along (fun s call => Proper overflow call ∧ s.Consistent call)
        (start first) calls) := by
  constructor
  · have hagree : ∀ (s : ConfigStore) call, s.Returns overflow Latest →
        ((s.next overflow call).Returns overflow Latest ∧ s.Frames overflow call ↔
          Proper overflow call) := by
      intro s call hreturns
      rw [and_iff_left (s.frames call)]
      exact hreturns.next_latest_iff call
    have hkeep : ∀ (s : ConfigStore) call t, s.Returns overflow Latest → Proper overflow call →
        (machine overflow).step s call = some t → t.Returns overflow Latest := by
      intro s call t hreturns hproper ht
      obtain rfl := Option.some.inj ht
      exact (hreturns.next_latest_iff call).mpr hproper
    have halong := Machine.along_iff_along hagree hkeep (returns_start first nofun) calls
    exact halong.trans (Machine.along_iff_forall (fun _ _ => ⟨_, rfl⟩) _ calls)
  · have hagree : ∀ (s : ConfigStore) call,
        s.Returns overflow LatestOfKind ∧ ofKind .string s.sets = [] →
        ((s.next overflow call).Returns overflow LatestOfKind ∧ s.Frames overflow call ↔
          Proper overflow call ∧ s.Consistent call) := by
      intro s call hI
      rw [and_iff_left (s.frames call)]
      exact hI.1.next_latestOfKind_iff hI.2 call
    have hkeep : ∀ (s : ConfigStore) call t, s.Returns overflow LatestOfKind ∧ ofKind .string s.sets = [] →
        Proper overflow call ∧ s.Consistent call → (machine overflow).step s call = some t →
        t.Returns overflow LatestOfKind ∧ ofKind .string t.sets = [] := by
      intro s call t hI hok ht
      obtain rfl := Option.some.inj ht
      exact ⟨(hI.1.next_latestOfKind_iff hI.2 call).mpr hok, hok.1.ofKind_next hI.2⟩
    exact Machine.along_iff_along hagree hkeep ⟨returns_start first nofun, rfl⟩ calls

/-- A configuration without groups, and a text that is set in it: the getter returns it in quotes. -/
theorem setString_not_returned :
    (((Conf.mk ⟨[]⟩ none).setString (ascii "pilot") (ascii "name") (ascii "x")).map fun c =>
        (c.stringValue (ascii "pilot") (ascii "name") []).1) = some (0x22 :: ascii "x" ++ [0x22]) ∧
      ¬ (machine fun _ => 0).Along
        (fun s call => (s.next (fun _ => 0) call).Returns (fun _ => 0) Latest ∧
          s.Frames (fun _ => 0) call)
        (start ⟨⟨[]⟩, none⟩) [.set ⟨ascii "pilot", ascii "name", .string (ascii "x")⟩] := by
  refine ⟨by decide, ?_⟩
  intro halong
  have hstart : (start ⟨⟨[]⟩, none⟩).Returns (fun _ => 0) Latest := returns_start _ nofun
  exact (hstart.next_latest_iff _).mp halong.1.1

end ConfigStore

end Multicrew.Core
