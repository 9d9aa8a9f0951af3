import Multicrew.Core.ChannelProtocol
import Multicrew.Library.Separator

/-!
# The ids of network channels

An id is put together from the id of the parent, an exclamation mark and a name or a number; the
name of a gauge from its name, the byte 0xA7 and its parameter. Nothing in the parts is escaped, so
whether two things have the same id depends on where these two bytes occur in them.
-/

namespace Multicrew.Gauge

open Multicrew.Core (Str)
open Multicrew.Library

/-- The byte between an id and what is added to it. -/
def exclamation : UInt8 := 0x21

/-- The byte between the name of a gauge and its parameter. -/
def paragraph : UInt8 := 0xA7

/-- `to_char` for a decimal digit. -/
def toChar (digit : ℕ) : UInt8 := .ofNat (0x30 + digit)

/-- The loop of `uimage` with radix 10 and no width: digits are put in front until none is left. -/
def uimage (i : ℕ) (result : Str) : Str :=
  if i / 10 = 0 then toChar (i % 10) :: result
  else uimage (i / 10) (toChar (i % 10) :: result)
termination_by i

/-- `to_string( unsigned )` -/
def toString (i : UInt32) : Str := uimage i.toNat []

/-- `Identified` -/
structure Identified where
  id : Str
  deriving DecidableEq, Repr

namespace Identified

/-- `Identified( parent, postfix )` with a string. -/
def named (parent : Identified) (text : Str) : Identified :=
  ⟨parent.id ++ exclamation :: text⟩

/-- `Identified( parent, postfix )` with a number. -/
def number (parent : Identified) (num : UInt32) : Identified :=
  ⟨parent.id ++ exclamation :: toString num⟩

end Identified

/-- The key of `GaugeModule::detachedGauges`. -/
def detachId (name parameter : Str) : Str := name ++ paragraph :: parameter

/-- What network channels are built for: the gauges of the modules, their elements, the metafile
channels of the modules, and the two modules that are channels themselves. -/
inductive Thing
  | gauge (moduleName name parameter : Str)
  | element (moduleName name parameter : Str) (num : UInt32)
  | metafile (moduleName : Str) (num : UInt32)
  | fsuipc
  | position
  deriving DecidableEq, Repr

namespace Thing

/-- `GaugeModule::GaugeModule` -/
def gaugeModule (moduleName : Str) : Identified := ⟨moduleName⟩

/-- `Gauge::Gauge` -/
def gaugeIdentified (moduleName name parameter : Str) : Identified :=
  (gaugeModule moduleName).named (name ++ paragraph :: parameter)

/-- The id a thing's constructors put together. -/
def id : Thing → Str
  | gauge moduleName name parameter => (gaugeIdentified moduleName name parameter).id
  | element moduleName name parameter num =>
    ((gaugeIdentified moduleName name parameter).number num).id
  | metafile moduleName num => ((gaugeModule moduleName).number num).id
  | fsuipc => [0x46, 0x53, 0x55, 0x49, 0x50, 0x43]
  | position => [0x46, 0x53, 0x55, 0x49, 0x50, 0x43, 0x50, 0x6F, 0x73]

end Thing

/-! ### Numbers -/

/-- The value of decimal digits put behind a number. -/
def value (i : ℕ) (digits : Str) : ℕ :=
  digits.foldl (fun v digit => 10 * v + (digit.toNat - 0x30)) i

/-- The digits follow one another. -/
theorem toChar_toNat {digit : ℕ} (h : digit < 10) : (toChar digit).toNat = 0x30 + digit := by
  rw [toChar, UInt8.toNat_ofNat']
  omega

/-- The digits of a number have its value. -/
theorem value_uimage (i : ℕ) (result : Str) : value 0 (uimage i result) = value i result := by
  induction i, result using uimage.induct with
  | case1 i result h =>
    rw [uimage, if_pos h]
    simp only [value, List.foldl_cons, toChar_toNat (Nat.mod_lt i (by omega))]
    congr 1
    omega
  | case2 i result h ih =>
    rw [uimage, if_neg h, ih]
    simp only [value, List.foldl_cons, toChar_toNat (Nat.mod_lt i (by omega))]
    congr 1
    omega

/-- Different numbers have different digits. -/
theorem toString_injective : Function.Injective toString := by
  intro i j h
  have hvalue := congrArg (value 0) h
  simp only [toString, value_uimage] at hvalue
  exact UInt32.toNat_inj.mp hvalue

/-- Only digits are put in front. -/
theorem uimage_digits (i : ℕ) (result : Str) :
    ∀ c ∈ uimage i result, c ∈ result ∨ (0x30 ≤ c.toNat ∧ c.toNat < 0x3A) := by
  have hdigit : 0x30 ≤ (toChar (i % 10)).toNat ∧ (toChar (i % 10)).toNat < 0x3A := by
    rw [toChar_toNat (Nat.mod_lt i (by omega))]
    omega
  induction i, result using uimage.induct with
  | case1 i result h =>
    rw [uimage, if_pos h]
    intro c hc
    cases List.mem_cons.mp hc with
    | inl heq => exact .inr (heq ▸ hdigit)
    | inr hin => exact .inl hin
  | case2 i result h ih =>
    rw [uimage, if_neg h]
    intro c hc
    have hdigit' : 0x30 ≤ (toChar (i / 10 % 10)).toNat ∧
        (toChar (i / 10 % 10)).toNat < 0x3A := by
      rw [toChar_toNat (Nat.mod_lt _ (by omega))]
      omega
    cases ih hdigit' c hc with
    | inl hin => cases List.mem_cons.mp hin with
      | inl heq => exact .inr (heq ▸ hdigit)
      | inr hold => exact .inl hold
    | inr hrange => exact .inr hrange

/-- A number has only digits. -/
theorem notMem_toString {c : UInt8} (hc : c.toNat < 0x30 ∨ 0x3A ≤ c.toNat) (i : UInt32) :
    c ∉ toString i := by
  intro hin
  cases uimage_digits i.toNat [] c hin with
  | inl hnil => exact List.not_mem_nil hnil
  | inr hrange => omega

/-- A number has no exclamation mark. -/
theorem exclamation_notMem (i : UInt32) : exclamation ∉ toString i :=
  notMem_toString (by decide) i

/-- It has no paragraph sign either. -/
theorem paragraph_notMem (i : UInt32) : paragraph ∉ toString i :=
  notMem_toString (by decide) i

/-- A number behind an exclamation mark has no paragraph sign. -/
theorem paragraph_notMem_cons (i : UInt32) : paragraph ∉ exclamation :: toString i := by
  intro hin
  cases List.mem_cons.mp hin with
  | inl heq => cases heq
  | inr hdigits => exact paragraph_notMem i hdigits

namespace Thing

variable {m n p m' n' p' : Str} {k k' : UInt32}

/-- The id of a gauge: module, name and parameter. -/
@[simp] theorem id_gauge : (gauge m n p).id = m ++ exclamation :: (n ++ paragraph :: p) := rfl

/-- The id of an element: that of its gauge, and its number. -/
@[simp] theorem id_element : (element m n p k).id =
    (gauge m n p).id ++ exclamation :: toString k := rfl

/-- The id of a metafile channel: the module's and a number. -/
@[simp] theorem id_metafile : (metafile m k).id = m ++ exclamation :: toString k := rfl

/-! ### When an id has one reading -/

/-- The parts of a thing leave one way to read its id: the two bytes are not where a part could end
or begin. For an element this is about its gauge. -/
def Plain : Thing → Prop
  | gauge m n p | element m n p _ =>
    exclamation ∉ m ∧ exclamation ∉ n ∧ paragraph ∉ n ∧ paragraph ∉ p ∧
      ∀ q k, p ≠ q ++ exclamation :: toString k
  | metafile m _ => ∀ a b c, m ≠ a ++ exclamation :: (b ++ paragraph :: c)
  | fsuipc => True
  | position => True

/-- Only one gauge reads like a plain one. -/
theorem gauge_eq_of_plain (h : (gauge m n p).Plain)
    (hid : (gauge m' n' p').id = (gauge m n p).id) : gauge m' n' p' = gauge m n p := by
  obtain ⟨hm, hn, hn', hp, -⟩ := h
  simp only [id_gauge] at hid
  have hsame : m' = m → gauge m' n' p' = gauge m n p := by
    rintro rfl
    have htail := (List.cons.inj (List.append_cancel_left hid)).2
    obtain ⟨rfl, -, rfl⟩ := (List.append_cons_inj_of_notMem hn' hp).mp htail.symm
    rfl
  obtain ⟨c, rfl, hc⟩ | ⟨c, rfl, hc⟩ := List.append_eq_append_iff.mp hid
  · cases c with
    | nil => exact hsame (List.append_nil m').symm
    | cons x rest =>
      obtain ⟨rfl, -⟩ := List.cons.inj hc
      exact absurd (List.mem_append_right m' List.mem_cons_self) hm
  · cases c with
    | nil => exact hsame (List.append_nil m)
    | cons x rest =>
      obtain ⟨rfl, htail⟩ := List.cons.inj hc
      have htail : n ++ paragraph :: p = (rest ++ exclamation :: n') ++ paragraph :: p' := by
        simpa using htail
      obtain ⟨rfl, -, -⟩ := (List.append_cons_inj_of_notMem hn' hp).mp htail
      exact absurd (List.mem_append_right rest List.mem_cons_self) hn

/-- The id of a gauge with a number behind it ends the way its parameter does. -/
theorem parameter_of_number {parent : Str}
    (hid : parent ++ exclamation :: toString k = (gauge m n p).id) :
    ∃ q, parent = (gauge m n q).id ∧ p = q ++ exclamation :: toString k := by
  have hid : (m ++ exclamation :: n) ++ paragraph :: p = parent ++ exclamation :: toString k := by
    rw [hid, id_gauge, List.append_assoc, List.cons_append]
  obtain ⟨c, rfl, hp⟩ := exists_of_append_cons_eq (paragraph_notMem_cons k) hid
  exact ⟨c, by rw [id_gauge, List.append_assoc, List.cons_append], hp⟩

/-- A number behind an id is told from the id. -/
theorem number_inj {a b : Str}
    (h : a ++ exclamation :: toString k = b ++ exclamation :: toString k') :
    a = b ∧ k = k' := by
  obtain ⟨rfl, hk⟩ := append_cons_inj_of_right (exclamation_notMem k) (exclamation_notMem k') h
  exact ⟨rfl, toString_injective hk⟩

/-- The other ids have an exclamation mark. -/
theorem exclamation_mem_id {x : Thing} (hfsuipc : x ≠ fsuipc) (hposition : x ≠ position) :
    exclamation ∈ x.id := by
  cases x with
  | gauge m n p => exact List.mem_append_right m List.mem_cons_self
  | element m n p k => exact List.mem_append_right _ List.mem_cons_self
  | metafile m k => exact List.mem_append_right m List.mem_cons_self
  | fsuipc => exact absurd rfl hfsuipc
  | position => exact absurd rfl hposition

/-- The ids without an exclamation mark belong to the two modules. -/
theorem eq_of_module {x y : Thing} (hx : x = fsuipc ∨ x = position) (hid : y.id = x.id) :
    y = x := by
  have hmark : exclamation ∉ x.id := by
    rcases hx with rfl | rfl
    · decide
    · decide
  rw [← hid] at hmark
  by_cases hfsuipc : y = fsuipc
  · rcases hx with rfl | rfl
    · exact hfsuipc
    · subst hfsuipc
      cases hid
  by_cases hposition : y = position
  · rcases hx with rfl | rfl
    · subst hposition
      cases hid
    · exact hposition
  · exact absurd (exclamation_mem_id hfsuipc hposition) hmark

/-- The id of a plain gauge belongs to it alone. -/
theorem eq_of_plain_gauge (h : (gauge m n p).Plain) {y : Thing} (hid : y.id = (gauge m n p).id) :
    y = gauge m n p := by
  cases y with
  | gauge m' n' p' => exact gauge_eq_of_plain h hid
  | element m' n' p' k =>
    obtain ⟨q, -, hp⟩ := parameter_of_number hid
    exact absurd hp (h.2.2.2.2 q k)
  | metafile m' k =>
    obtain ⟨q, -, hp⟩ := parameter_of_number hid
    exact absurd hp (h.2.2.2.2 q k)
  | fsuipc => exact (eq_of_module (.inl rfl) hid.symm).symm
  | position => exact (eq_of_module (.inr rfl) hid.symm).symm

/-- The id of a metafile channel of a plain module belongs to it alone. -/
theorem eq_of_plain_metafile (h : (metafile m k).Plain) {y : Thing}
    (hid : y.id = (metafile m k).id) : y = metafile m k := by
  cases y with
  | gauge m' n' p' =>
    obtain ⟨q, hm, -⟩ := parameter_of_number (hid.symm.trans rfl)
    exact absurd hm (h m' n' q)
  | element m' n' p' k' =>
    obtain ⟨hm, -⟩ := number_inj hid
    exact absurd hm.symm (h m' n' p')
  | metafile m' k' =>
    obtain ⟨rfl, rfl⟩ := number_inj hid
    rfl
  | fsuipc => exact (eq_of_module (.inl rfl) hid.symm).symm
  | position => exact (eq_of_module (.inr rfl) hid.symm).symm

/-- Among plain things the id of an element belongs to it alone. -/
theorem eq_of_plain_element (h : (element m n p k).Plain) {y : Thing} (hy : y.Plain)
    (hid : y.id = (element m n p k).id) : y = element m n p k := by
  cases y with
  | gauge m' n' p' =>
    obtain ⟨q, -, hp⟩ := parameter_of_number hid.symm
    exact absurd hp (hy.2.2.2.2 q k)
  | element m' n' p' k' =>
    obtain ⟨hgauge, rfl⟩ := number_inj hid
    obtain ⟨rfl, rfl, rfl⟩ := gauge.inj (gauge_eq_of_plain h hgauge)
    rfl
  | metafile m' k' =>
    obtain ⟨hm, -⟩ := number_inj hid
    exact absurd hm (hy m n p)
  | fsuipc => exact (eq_of_module (.inl rfl) hid.symm).symm
  | position => exact (eq_of_module (.inr rfl) hid.symm).symm

/-- The ids of plain things are distinct. -/
theorem eq_of_plain {x y : Thing} (hx : x.Plain) (hy : y.Plain) (hid : y.id = x.id) : y = x := by
  cases x with
  | gauge m n p => exact eq_of_plain_gauge hx hid
  | element m n p k => exact eq_of_plain_element hx hy hid
  | metafile m k => exact eq_of_plain_metafile hx hid
  | fsuipc => exact eq_of_module (.inl rfl) hid
  | position => exact eq_of_module (.inr rfl) hid

/-- A gauge whose id is read in one way only is plain. -/
theorem plain_gauge_of_alone (h : ∀ y : Thing, y.id = (gauge m n p).id → y = gauge m n p) :
    (gauge m n p).Plain := by
  refine ⟨fun hin => ?_, fun hin => ?_, fun hin => ?_, fun hin => ?_, fun q k hp => ?_⟩
  · obtain ⟨a, b, rfl⟩ := List.append_of_mem hin
    have heq := h (gauge a (b ++ exclamation :: n) p) (by simp)
    simp at heq
  · obtain ⟨a, b, rfl⟩ := List.append_of_mem hin
    have heq := h (gauge (m ++ exclamation :: a) b p) (by simp)
    simp at heq
  · obtain ⟨a, b, rfl⟩ := List.append_of_mem hin
    have heq := h (gauge m a (b ++ paragraph :: p)) (by simp)
    simp at heq
  · obtain ⟨a, b, rfl⟩ := List.append_of_mem hin
    have heq := h (gauge m (n ++ paragraph :: a) b) (by simp)
    simp at heq
  · subst hp
    have heq := h (element m n q k) (by simp)
    cases heq

/-- Only a plain thing that is no element has its id alone. -/
theorem plain_of_alone {x : Thing} (h : ∀ y : Thing, y.id = x.id → y = x) :
    x.Plain ∧ ∀ m n p k, x ≠ element m n p k := by
  cases x with
  | gauge m n p => exact ⟨plain_gauge_of_alone h, by simp⟩
  | element m n p k =>
    have heq := h (gauge m n (p ++ exclamation :: toString k)) (by simp)
    cases heq
  | metafile m k =>
    refine ⟨fun a b c hm => ?_, by simp⟩
    subst hm
    have heq := h (element a b c k) (by simp)
    cases heq
  | fsuipc => exact ⟨trivial, by simp⟩
  | position => exact ⟨trivial, by simp⟩

end Thing

/-- The key of a detached gauge is read in one way exactly if neither the name nor the parameter has
the byte between them. -/
theorem detachId_alone_iff (n p : Str) :
    (∀ n' p', detachId n' p' = detachId n p → n' = n ∧ p' = p) ↔
      paragraph ∉ n ∧ paragraph ∉ p := by
  constructor
  · intro h
    refine ⟨fun hin => ?_, fun hin => ?_⟩
    · obtain ⟨a, b, rfl⟩ := List.append_of_mem hin
      have heq := h a (b ++ paragraph :: p) (by simp [detachId])
      simp at heq
    · obtain ⟨a, b, rfl⟩ := List.append_of_mem hin
      have heq := h (n ++ paragraph :: a) b (by simp [detachId])
      simp at heq
  · rintro ⟨hn, hp⟩ n' p' hid
    obtain ⟨rfl, -, rfl⟩ := (List.append_cons_inj_of_notMem hn hp).mp hid.symm
    exact ⟨rfl, rfl⟩

/-- A thing has its id alone exactly if it is plain and no element; plain things have distinct ids;
and a detached gauge has its key alone exactly if its name and parameter are free of the byte
between them. -/
theorem ids_unambiguous_iff (x : Thing) (n p : Str) :
    ((∀ y : Thing, y.id = x.id → y = x) ↔ x.Plain ∧ ∀ m n p k, x ≠ .element m n p k) ∧
    (∀ y z : Thing, y.Plain → z.Plain → y.id = z.id → y = z) ∧
    ((∀ n' p', detachId n' p' = detachId n p → n' = n ∧ p' = p) ↔
      paragraph ∉ n ∧ paragraph ∉ p) := by
  refine ⟨⟨Thing.plain_of_alone, fun ⟨hplain, helement⟩ y hid => ?_⟩,
    fun y z hy hz hid => Thing.eq_of_plain hz hy hid, detachId_alone_iff n p⟩
  cases x with
  | gauge m n p => exact Thing.eq_of_plain_gauge hplain hid
  | element m n p k => exact absurd rfl (helement m n p k)
  | metafile m k => exact Thing.eq_of_plain_metafile hplain hid
  | fsuipc => exact Thing.eq_of_module (.inl rfl) hid
  | position => exact Thing.eq_of_module (.inr rfl) hid

/-- The gauge `n` with parameter `p!0` has the id of element 0 of the gauge `n` with parameter `p`, and
a gauge called `n` and a paragraph sign has the key of one whose parameter begins with it. -/
theorem gauge_id_eq_element_id :
    (Thing.gauge [0x6D] [0x6E] [0x70, 0x21, 0x30]).id = (Thing.element [0x6D] [0x6E] [0x70] 0).id ∧
      Thing.gauge [0x6D] [0x6E] [0x70, 0x21, 0x30] ≠ Thing.element [0x6D] [0x6E] [0x70] 0 ∧
      detachId [0x6E, 0xA7] [0x70] = detachId [0x6E] [0xA7, 0x70] := by
  refine ⟨?_, by simp, rfl⟩
  have hzero : toString 0 = [0x30] := by
    rw [toString, uimage]
    rfl
  rw [Thing.id_element, hzero]
  rfl

end Multicrew.Gauge
