import Multicrew.Core.ConfigFile

/-!
# A configuration that is saved

`conf_savetodisk` writes the lists of a configuration, and `conf_init` reads them again. What has been
read are texts that fit into a line, so it is the same when it is written and read once more. The
exception is an item that begins and ends like the name of a group. What the setters write fits as
well, so settings are kept from one session to the next.
-/

namespace Multicrew.Core

open Multicrew.Library

/-- What `conf_savetodisk` writes for an item, behind the end of the line before it. -/
def itemLine (item : Str × Str) : Str := cString item.1 ++ 0x3D :: cString item.2

/-- `conf_savetodisk` -/
def Conf.confSavetodisk (c : Conf) : Str :=
  c.groups.flatMap fun g =>
    0x5B :: cString g.1 ++ [0x5D] ++ (g.2.flatMap fun item => 0x0A :: itemLine item) ++ [0x0A, 0x0A]

/-- A name that a group can be read with. -/
structure IsGroupName (name : Str) : Prop where
  one_line : OneLine name
  no_bracket : 0x5D ∉ name
  fits : name.length ≤ 252

/-- A name and a value that an item can be read with. -/
structure IsItem (item : Str × Str) : Prop where
  name : OneLine item.1
  value : OneLine item.2
  name_ne : item.1 ≠ []
  name_head : item.1.head? ≠ some 0x20
  name_tail : 0x3D ∉ item.1.tail
  value_head : item.2.head? ≠ some 0x20
  value_last : item.2.getLast? ≠ some 0x20
  fits : item.1.length + item.2.length ≤ 251

/-- An item whose line is that of a group. -/
def LooksLikeGroup (item : Str × Str) : Prop :=
  item.1.head? = some 0x5B ∧ item.2.getLast? = some 0x5D

/-- Groups whose texts can be read. -/
def Readable (groups : Groups) : Prop := ∀ g ∈ groups, IsGroupName g.1 ∧ ∀ item ∈ g.2, IsItem item

/-- Groups none of whose items is written like a group. -/
def Distinct (groups : Groups) : Prop := ∀ g ∈ groups, ∀ item ∈ g.2, ¬ LooksLikeGroup item

variable {text text' line file rest name : Str} {item : Str × Str} {groups groups' : Groups}

/-- A line holds no NUL. -/
theorem OneLine.zero_not_mem (h : OneLine text) : 0 ∉ text := fun hin => (h.plain 0 hin).1 rfl

/-- A character that is no slash separates two texts of a line. -/
theorem OneLine.append {c : UInt8} (h : OneLine text) (h' : OneLine text')
    (hc : c ≠ 0 ∧ c ≠ 0x0A ∧ c ≠ 0xFF ∧ c ≠ 0x1A) (hslash : c ≠ 0x2F) :
    OneLine (text ++ c :: text') := by
  constructor
  · intro b hb
    cases List.mem_append.mp hb with
    | inl hin => exact h.plain b hin
    | inr hin =>
      cases List.mem_cons.mp hin with
      | inl heq => exact heq ▸ hc
      | inr hin' => exact h'.plain b hin'
  · intro hcomment
    have hstarts : ∀ rest, ¬ 0x2F :: rest <+: c :: text' := fun rest hrest =>
      hslash (List.cons_prefix_cons.mp hrest).1.symm
    rw [List.infix_append_iff] at hcomment
    obtain hleft | hright | ⟨l, r, hlr, hl, hr⟩ := hcomment
    · exact h.no_comment hleft
    · cases List.infix_cons_iff.mp hright with
      | inl hstart => exact hstarts _ hstart
      | inr hin => exact h'.no_comment hin
    · -- a comment across the character would begin with a slash in the second part
      cases r with
      | nil =>
        rw [List.append_nil] at hlr
        exact h.no_comment (hlr ▸ hl.isInfix)
      | cons b r =>
        have hb : b = 0x2F := by
          have hmem : b ∈ slashes := by
            rw [hlr]
            exact List.mem_append_right l List.mem_cons_self
          simpa [slashes] using hmem
        exact hstarts r (hb ▸ hr)

/-- The line of a group is a line. -/
theorem IsGroupName.groupLine (h : IsGroupName name) : OneLine (0x5B :: name ++ [0x5D]) := by
  have hbegin : OneLine ([] ++ 0x5B :: name) :=
    OneLine.nil.append h.one_line (by decide) (by decide)
  exact hbegin.concat (by decide) (by simp)

/-- The line of an item is a line. -/
theorem IsItem.itemLine (h : IsItem item) : OneLine (itemLine item) := by
  rw [Core.itemLine, cString_eq_self h.name.zero_not_mem, cString_eq_self h.value.zero_not_mem]
  exact h.name.append h.value (by decide) (by decide)

/-! ### What is read -/

/-- What is read of a file of NUL-free characters is a line of at most 254 of them, and the rest of the
file follows. -/
theorem readLine_oneLine (hfile : ∀ b ∈ file, b ≠ 0 ∧ b ≠ 0x1A) (hstch : OneLine text) {ended : Bool}
    (h : readLine text (startsComment text) file = some (line, ended, rest)) :
    OneLine line ∧ line.length ≤ 254 ∧ rest <:+ file := by
  induction file generalizing text with
  | nil =>
    simp only [readLine, Option.ite_none_right_eq_some, Option.some.injEq, Prod.mk.injEq] at h
    obtain ⟨hlength, rfl, -, rfl⟩ := h
    exact ⟨hstch, Nat.le_of_lt_succ hlength, List.suffix_refl _⟩
  | cons c file ih =>
    obtain ⟨hzero, heof⟩ := hfile c List.mem_cons_self
    have hrest : ∀ b ∈ file, b ≠ 0 ∧ b ≠ 0x1A := fun b hb => hfile b (List.mem_cons_of_mem c hb)
    have hcons := List.suffix_cons c file
    rw [readLine] at h
    split_ifs at h with hlength hslash hff hnewline hcomment
    · obtain ⟨rfl, hstart⟩ := hslash
      have hnext : OneLine (text ++ [0x2F]) :=
        hstch.concat (by decide) fun hlast => by simp [startsComment, hlast.2] at hstart
      have hflag : startsComment (text ++ [0x2F]) = true := by simp [startsComment_concat]
      obtain ⟨hline, hle, hsuffix⟩ := ih hrest hnext (hflag ▸ h)
      exact ⟨hline, hle, hsuffix.trans hcons⟩
    · simp only [Option.some.injEq, Prod.mk.injEq] at h
      obtain ⟨rfl, -, rfl⟩ := h
      exact ⟨hstch, by omega, hcons⟩
    · simp only [Option.some.injEq, Prod.mk.injEq] at h
      obtain ⟨rfl, -, rfl⟩ := h
      exact ⟨hstch, by omega, hcons⟩
    · obtain ⟨rest', hskip, heq⟩ := Option.map_eq_some_iff.mp h
      obtain ⟨comment, rfl⟩ := skipComment_eq hskip
      cases heq
      refine ⟨hstch.part (List.dropLast_prefix text).isInfix, ?_, ?_⟩
      · rw [List.length_dropLast]
        omega
      · exact (List.suffix_cons _ rest).trans ((List.suffix_append comment _).trans hcons)
    · have hnext : OneLine (text ++ [c]) :=
        hstch.concat ⟨hzero, hnewline, hff, heof⟩ fun hlast => hcomment hlast.1
      have hflag : startsComment (text ++ [c]) = false := by simp [startsComment_concat, hcomment]
      obtain ⟨hline, hle, hsuffix⟩ := ih hrest hnext (hflag ▸ h)
      exact ⟨hline, hle, hsuffix.trans hcons⟩

/-- Nothing is readable. -/
theorem Readable.nil : Readable [] := by simp [Readable]

/-- An item that is appended is checked with its group. -/
theorem Readable.appendItem (h : Readable groups) (hitem : IsItem item) :
    Readable (appendItem item groups) := by
  induction groups with
  | nil => exact h
  | cons g groups ih =>
    have hg := h g List.mem_cons_self
    have hrest : Readable groups := fun g' hg' => h g' (List.mem_cons_of_mem g hg')
    cases groups with
    | nil =>
      intro g' hg'
      obtain rfl := List.mem_singleton.mp hg'
      refine ⟨hg.1, ?_⟩
      intro item' hitem'
      cases List.mem_append.mp hitem' with
      | inl hin => exact hg.2 item' hin
      | inr hin => exact List.mem_singleton.mp hin ▸ hitem
    | cons g' groups =>
      intro g'' hg''
      cases List.mem_cons.mp hg'' with
      | inl heq => exact heq ▸ hg
      | inr hin => exact ih hrest g'' hin

/-- `conf_p2d` cuts a text at the first `tofind` after its first character. -/
theorem confP2d_eq_some_iff {tofind : UInt8} :
    confP2d tofind text = some name ↔
      name ≠ [] ∧ tofind ∉ name.tail ∧ ∃ value, text = name ++ tofind :: value := by
  cases text with
  | nil => simp [confP2d]
  | cons c rest =>
    rw [confP2d]
    constructor
    · intro h
      simp only [Option.ite_none_right_eq_some, Option.some.injEq] at h
      obtain ⟨hin, rfl⟩ := h
      obtain ⟨before, value, rfl, hbefore⟩ := List.eq_append_cons_of_mem hin
      rw [takeWhile_append_cons hbefore]
      exact ⟨List.cons_ne_nil _ _, hbefore, value, rfl⟩
    · rintro ⟨hne, htail, value, htext⟩
      cases name with
      | nil => exact absurd rfl hne
      | cons c' before =>
        obtain ⟨rfl, hrest⟩ := List.cons.inj htext
        obtain rfl : rest = before ++ tofind :: value := hrest
        rw [List.tail_cons] at htail
        rw [if_pos (by simp), takeWhile_append_cons htail]

/-- The name in the line of a group ends before its first closing bracket. -/
theorem isGroupName_of_isGroupLine (hline : OneLine line) (hlength : line.length ≤ 254)
    (h : isGroupLine line = true) : IsGroupName (line.tail.takeWhile (· ≠ 0x5D)) := by
  simp only [isGroupLine, Bool.decide_and, Bool.and_eq_true, decide_eq_true_eq] at h
  cases line with
  | nil => cases h.1
  | cons c rest =>
    obtain rfl := Option.some.inj h.1
    have hin : 0x5D ∈ rest := by
      have hlast := List.mem_of_getLast? h.2
      exact (List.mem_cons.mp hlast).resolve_left (by decide)
    obtain ⟨name, after, rfl, hname⟩ := List.eq_append_cons_of_mem hin
    rw [List.tail_cons, takeWhile_append_cons hname]
    refine ⟨hline.part ⟨[0x5B], 0x5D :: after, rfl⟩, hname, ?_⟩
    simp only [List.length_cons, List.length_append] at hlength
    omega

/-- The name and the value in the line of an item. -/
theorem isItem_of_confP2d (hline : OneLine text) (hlength : text.length ≤ 252)
    (hhead : text.head? ≠ some 0x20) (hlast : text.getLast? ≠ some 0x20)
    (h : confP2d 0x3D text = some name) :
    IsItem (name, (text.drop (name.length + 1)).dropWhile (· = 0x20)) := by
  obtain ⟨hne, htail, value, rfl⟩ := confP2d_eq_some_iff.mp h
  rw [List.drop_length_add_append, List.drop_one, List.tail_cons]
  have hsuffix := List.dropWhile_suffix (l := value) fun b => decide (b = 0x20)
  have hvalue : OneLine value := hline.part ⟨name ++ [0x3D], [], by simp⟩
  refine ⟨hline.part ⟨[], 0x3D :: value, rfl⟩, hvalue.part hsuffix.isInfix, hne, ?_, htail,
    head?_dropWhile_ne, ?_, ?_⟩
  · rwa [List.head?_append_of_ne_nil _ hne] at hhead
  · intro hspace
    obtain ⟨before, hbefore⟩ := hsuffix
    apply hlast
    rw [← hbefore, List.getLast?_append, List.getLast?_cons, List.getLast?_append, hspace]
    rfl
  · have hle := hsuffix.length_le
    simp only [List.length_cons, List.length_append] at hlength ⊢
    omega

/-- A line of a file adds what can be read. -/
theorem Readable.addLine (h : Readable groups) (hline : OneLine text) (hlength : text.length ≤ 254)
    (hadd : addLine groups text = some groups') : Readable groups' := by
  have hstarts := List.rdropWhile_prefix (fun b : UInt8 => decide (b = 0x20)) (l := text)
  have htrim : OneLine (text.rdropWhile (· = 0x20)) := hline.part hstarts.isInfix
  have hle := hstarts.length_le
  unfold Core.addLine at hadd
  simp only at hadd
  split_ifs at hadd with hgroup hnil hfit
  · obtain rfl := Option.some.inj hadd
    have hname := isGroupName_of_isGroupLine htrim (by omega) hgroup
    rw [cString_eq_self hname.one_line.zero_not_mem]
    intro g hg
    cases List.mem_append.mp hg with
    | inl hin => exact h g hin
    | inr hin =>
      obtain rfl := List.mem_singleton.mp hin
      exact ⟨hname, nofun⟩
  · obtain rfl := Option.some.inj hadd
    exact Readable.nil
  · rw [lineText, cString_eq_self htrim.zero_not_mem] at hadd hfit
    split at hadd
    · exact Option.some.inj hadd ▸ h
    · rename_i nameitem hitem
      obtain rfl := Option.some.inj hadd
      apply h.appendItem
      have hsuffix := List.dropWhile_suffix (l := text.rdropWhile (· = 0x20))
        fun b : UInt8 => decide (b = 0x20)
      apply isItem_of_confP2d (htrim.part hsuffix.isInfix) (by omega) head?_dropWhile_ne _ hitem
      intro hspace
      obtain ⟨before, hbefore⟩ := hsuffix
      apply getLast?_rdropWhile_ne (l := text) (x := 0x20)
      rw [← hbefore, List.getLast?_append, hspace]
      rfl

/-- Every line of a file without NUL adds what can be read. -/
theorem Readable.readLines (hfile : ∀ b ∈ file, b ≠ 0 ∧ b ≠ 0x1A) (h : Readable groups)
    (hread : Core.readLines groups file = some groups') : Readable groups' := by
  fun_induction Core.readLines groups file with
  | case1 groups file hline => cases hread
  | case2 groups file line rest hline => exact Option.some.inj hread ▸ h
  | case3 groups file line rest hline hlength hadd => cases hread
  | case4 groups file line rest hline hlength groups'' hadd ih =>
    obtain ⟨honeLine, hle, hsuffix⟩ := readLine_oneLine hfile OneLine.nil hline
    have hrest : ∀ b ∈ rest, b ≠ 0 ∧ b ≠ 0x1A := fun b hb => hfile b (hsuffix.subset hb)
    exact ih hrest (h.addLine honeLine hle hadd) hread

/-- What `conf_init` reads of a file without NUL can be read. -/
theorem readable_confInit {c : Conf} (hfile : 0 ∉ file) (h : confInit file = some c) :
    Readable c.groups := by
  obtain ⟨groups, hread, rfl⟩ := Option.map_eq_some_iff.mp h
  have hstream : ∀ b ∈ textStream file, b ≠ 0 ∧ b ≠ 0x1A := by
    intro b hb
    constructor
    · rintro rfl
      exact hfile ((List.takeWhile_prefix _).subset hb)
    · simpa using List.mem_takeWhile_imp hb
  exact Readable.readLines hstream Readable.nil hread

/-! ### What is written -/

/-- A line without a comment is all code. -/
theorem OneLine.code_eq (h : OneLine line) : code line = (line, false) := by
  obtain ⟨-, hcode⟩ | ⟨before, after, rfl, -, -⟩ := code_cases line
  · exact hcode
  · exact absurd ⟨before, after, rfl⟩ h.no_comment

/-- Lines without comments that fit are read one after the other. -/
theorem readLines_fitting (groups : Groups) {lines : List Str}
    (h : ∀ line ∈ lines, OneLine line ∧ line.length ≤ 254) :
    readLines groups (lines.flatMap (· ++ [0x0A])) = lines.foldlM addLine groups := by
  have hread := readLines_lines groups (fun line hline => (h line hline).1.plain)
    OneLine.nil.plain
  rw [List.append_nil, if_pos (by decide)] at hread
  rw [hread]
  clear hread
  induction lines generalizing groups with
  | nil => rfl
  | cons line lines ih =>
    obtain ⟨hline, hlength⟩ := h line List.mem_cons_self
    have hfits : LineFits line := by
      rw [LineFits, hline.code_eq]
      exact hlength
    have htake : takeLine groups line = addLine groups line := by
      rw [takeLine, if_pos hfits, hline.code_eq]
    rw [List.foldlM_cons, List.foldlM_cons, htake]
    congr 1
    funext groups'
    exact ih groups' fun line' hin => h line' (List.mem_cons_of_mem line hin)

/-- The lines that are written for the groups; an empty one follows each. -/
def fileLines (groups : Groups) : List Str :=
  groups.flatMap fun g => (0x5B :: cString g.1 ++ [0x5D]) :: g.2.map itemLine ++ [[]]

/-- What is written are lines. -/
theorem confSavetodisk_eq (c : Conf) :
    c.confSavetodisk = (fileLines c.groups).flatMap (· ++ [0x0A]) := by
  have hitems : ∀ (items : List (Str × Str)) (rest : Str),
      (items.flatMap fun item => 0x0A :: itemLine item) ++ 0x0A :: rest =
        0x0A :: ((items.map itemLine).flatMap (· ++ [0x0A]) ++ rest) := by
    intro items rest
    induction items with
    | nil => rfl
    | cons item items ih => simp [ih]
  rw [Conf.confSavetodisk, fileLines, List.flatMap_assoc]
  congr 1
  funext g
  simp only [List.append_assoc, List.cons_append, List.flatMap_cons, List.flatMap_append,
    List.flatMap_nil, List.nil_append, hitems]

/-- Every line that is written is a line, and fits. -/
theorem Readable.fileLines (h : Readable groups) :
    ∀ line ∈ fileLines groups, OneLine line ∧ line.length ≤ 254 := by
  intro line hline
  obtain ⟨g, hg, hin⟩ := List.mem_flatMap.mp hline
  obtain ⟨hname, hitems⟩ := h g hg
  rw [List.mem_append, List.mem_cons, List.mem_map, List.mem_singleton] at hin
  obtain (rfl | ⟨item, hitem, rfl⟩) | rfl := hin
  · rw [cString_eq_self hname.one_line.zero_not_mem]
    have hfits := hname.fits
    refine ⟨hname.groupLine, ?_⟩
    simp only [List.length_append, List.length_cons, List.length_nil]
    omega
  · have hcheck := hitems item hitem
    have hfits := hcheck.fits
    refine ⟨hcheck.itemLine, ?_⟩
    rw [itemLine, cString_eq_self hcheck.name.zero_not_mem, cString_eq_self hcheck.value.zero_not_mem]
    simp only [List.length_append, List.length_cons]
    omega
  · exact ⟨OneLine.nil, Nat.zero_le _⟩

/-- No written character is Ctrl-Z. -/
theorem textStream_lines {lines : List Str} (h : ∀ line ∈ lines, OneLine line) :
    textStream (lines.flatMap (· ++ [0x0A])) = lines.flatMap (· ++ [0x0A]) := by
  rw [textStream, List.takeWhile_eq_self_iff]
  intro b hb
  obtain ⟨line, hline, hin⟩ := List.mem_flatMap.mp hb
  rw [List.mem_append, List.mem_singleton] at hin
  cases hin with
  | inl hin => simpa using ((h line hline).plain b hin).2.2.2
  | inr heq => simp [heq]

/-- The line of a group begins a group. -/
theorem addLine_groupLine (h : IsGroupName name) :
    addLine groups (0x5B :: cString name ++ [0x5D]) = some (groups ++ [(name, [])]) := by
  have hname : cString name = name := cString_eq_self h.one_line.zero_not_mem
  have hlast : (0x5B :: name ++ [0x5D]).getLast? = some 0x5D := List.getLast?_concat
  have htrim : (0x5B :: name ++ [0x5D]).rdropWhile (· = 0x20) = 0x5B :: name ++ [0x5D] :=
    rdropWhile_eq_self (by rw [hlast]; decide)
  have hgroup : isGroupLine (0x5B :: name ++ [0x5D]) = true := decide_eq_true ⟨rfl, hlast⟩
  rw [hname, addLine]
  simp only [htrim, hgroup, if_true]
  rw [List.cons_append, List.tail_cons, takeWhile_append_cons h.no_bracket, hname]

/-- An empty line adds nothing. -/
theorem addLine_nil : addLine groups [] = some groups := by
  cases groups with
  | nil => rfl
  | cons g rest => rfl

/-- The last character of an item's line. -/
theorem getLast?_itemLine (h : IsItem item) :
    (itemLine item).getLast? = item.2.getLast?.or (some 0x3D) := by
  rw [itemLine, cString_eq_self h.name.zero_not_mem, cString_eq_self h.value.zero_not_mem,
    List.getLast?_append, List.getLast?_cons]
  cases item.2.getLast? with
  | none => rfl
  | some b => rfl

/-- The line of an item is that of a group exactly if the item looks like one. -/
theorem isGroupLine_itemLine (h : IsItem item) :
    isGroupLine (itemLine item) = true ↔ LooksLikeGroup item := by
  have hhead : (itemLine item).head? = item.1.head? := by
    rw [itemLine, cString_eq_self h.name.zero_not_mem, List.head?_append_of_ne_nil _ h.name_ne]
  simp only [isGroupLine, LooksLikeGroup, hhead, getLast?_itemLine h, Bool.decide_and,
    Bool.and_eq_true, decide_eq_true_eq]
  cases item.2.getLast? with
  | none => simp
  | some b => simp

/-- An item's line has no space at its ends. -/
theorem rdropWhile_itemLine (h : IsItem item) :
    (itemLine item).rdropWhile (· = 0x20) = itemLine item := by
  apply rdropWhile_eq_self
  rw [getLast?_itemLine h]
  have hlast := h.value_last
  cases hvalue : item.2.getLast? with
  | none => simp
  | some b => simpa [hvalue] using hlast

/-- The line of an item adds it to the group before. -/
theorem addLine_itemLine (h : IsItem item) (hlooks : ¬ LooksLikeGroup item) (groups : Groups)
    (g : Str × List (Str × Str)) :
    addLine (groups ++ [g]) (itemLine item) = some (groups ++ [(g.1, g.2 ++ [item])]) := by
  have hgroup : isGroupLine (itemLine item) = false := by
    rw [← isGroupLine_itemLine h] at hlooks
    exact Bool.eq_false_iff.mpr hlooks
  have hname : cString item.1 = item.1 := cString_eq_self h.name.zero_not_mem
  have hvalue : cString item.2 = item.2 := cString_eq_self h.value.zero_not_mem
  have htext : lineText (itemLine item) = itemLine item := by
    rw [lineText, cString_eq_self h.itemLine.zero_not_mem]
    apply dropWhile_eq_self
    rw [itemLine, hname, List.head?_append_of_ne_nil _ h.name_ne]
    exact h.name_head
  have hfits : ¬ 253 ≤ (itemLine item).length := by
    have := h.fits
    simp only [itemLine, hname, hvalue, List.length_append, List.length_cons]
    omega
  have hcut : confP2d 0x3D (itemLine item) = some item.1 :=
    confP2d_eq_some_iff.mpr ⟨h.name_ne, h.name_tail, cString item.2, by rw [itemLine, hname]⟩
  have hrest : ((itemLine item).drop (item.1.length + 1)).dropWhile (· = 0x20) = item.2 := by
    rw [itemLine, hname, hvalue, List.drop_length_add_append, List.drop_one, List.tail_cons]
    exact dropWhile_eq_self h.value_head
  have happend := appendItem_concat item groups g
  rw [addLine]
  simp only [rdropWhile_itemLine h, hgroup, Bool.false_eq_true, if_false, htext, hfits, hcut,
    hrest, happend, List.append_eq_nil_iff, List.cons_ne_nil, and_false]

/-- The lines of a group that has nothing written like a group add the group. -/
theorem foldlM_group {g : Str × List (Str × Str)} (hname : IsGroupName g.1)
    (hitems : ∀ item ∈ g.2, IsItem item ∧ ¬ LooksLikeGroup item) (groups : Groups) :
    ((0x5B :: cString g.1 ++ [0x5D]) :: g.2.map itemLine ++ [[]]).foldlM addLine groups =
      some (groups ++ [g]) := by
  have hfold : ∀ (rest done : List (Str × Str)),
      (∀ item ∈ rest, IsItem item ∧ ¬ LooksLikeGroup item) →
      (rest.map itemLine).foldlM addLine (groups ++ [(g.1, done)]) =
        some (groups ++ [(g.1, done ++ rest)]) := by
    intro rest done hrest
    induction rest generalizing done with
    | nil => simp
    | cons item rest ih =>
      obtain ⟨hitem, hlooks⟩ := hrest item List.mem_cons_self
      have hnext := ih (done ++ [item]) fun item' hin => hrest item' (List.mem_cons_of_mem item hin)
      rw [List.map_cons, List.foldlM_cons, addLine_itemLine hitem hlooks, Option.bind_eq_bind,
        Option.bind_some, hnext]
      simp
  rw [List.cons_append, List.foldlM_cons, addLine_groupLine hname, Option.bind_eq_bind,
    Option.bind_some, List.foldlM_append, hfold g.2 [] hitems, List.nil_append, Option.bind_eq_bind,
    Option.bind_some, List.foldlM_cons, addLine_nil]
  rfl

/-- The lines of groups that nothing else is written like add the groups. -/
theorem foldlM_fileLines (h : Readable groups') (hdistinct : Distinct groups') (groups : Groups) :
    (fileLines groups').foldlM addLine groups = some (groups ++ groups') := by
  induction groups' generalizing groups with
  | nil => simp [fileLines]
  | cons g rest ih =>
    obtain ⟨hname, hitems⟩ := h g List.mem_cons_self
    have hlooks := hdistinct g List.mem_cons_self
    have hrest := ih (fun g' hg' => h g' (List.mem_cons_of_mem g hg'))
      (fun g' hg' => hdistinct g' (List.mem_cons_of_mem g hg')) (groups ++ [g])
    have hgroup := foldlM_group hname (fun item hin => ⟨hitems item hin, hlooks item hin⟩) groups
    rw [fileLines, List.flatMap_cons, List.foldlM_append, hgroup, Option.bind_eq_bind,
      Option.bind_some]
    rw [fileLines] at hrest
    rw [hrest]
    simp

/-! ### What is read of what is written -/

/-- A line that is the name of a group adds a group, and no other line does. -/
theorem length_addLine (h : addLine groups text = some groups') :
    groups'.length =
      groups.length + (isGroupLine (text.rdropWhile (· = 0x20))).toNat := by
  unfold addLine at h
  simp only at h
  split_ifs at h with hgroup hnil hfits
  · rw [← Option.some.inj h, hgroup, List.length_append]
    rfl
  · rw [← Option.some.inj h, hnil, Bool.eq_false_iff.mpr hgroup]
    rfl
  · rw [Bool.eq_false_iff.mpr hgroup]
    split at h
    · exact congrArg List.length (Option.some.inj h).symm
    · rw [← Option.some.inj h]
      exact length_appendItem _ _

/-- The groups that lines add are the names of groups among them. -/
theorem length_foldlM {lines : List Str} (h : lines.foldlM addLine groups = some groups') :
    groups'.length =
      groups.length + lines.countP fun line => isGroupLine (line.rdropWhile (· = 0x20)) := by
  induction lines generalizing groups with
  | nil => exact congrArg List.length (Option.some.inj h).symm
  | cons line lines ih =>
    rw [List.foldlM_cons] at h
    obtain ⟨next, hline, hrest⟩ := Option.bind_eq_some_iff.mp h
    rw [ih hrest, length_addLine hline, List.countP_cons]
    cases isGroupLine (line.rdropWhile (· = 0x20)) with
    | true => exact Nat.add_right_comm _ _ _
    | false => rfl

/-- Lines that are names of groups, or whose texts fit, are used. -/
theorem foldlM_isSome {lines : List Str}
    (h : ∀ line ∈ lines, isGroupLine (line.rdropWhile (· = 0x20)) = true ∨ line.length ≤ 252)
    (groups : Groups) : (lines.foldlM addLine groups).isSome := by
  induction lines generalizing groups with
  | nil => rfl
  | cons line lines ih =>
    have hline : (addLine groups line).isSome := by
      rw [addLine_isSome_iff]
      intro _ hgroup
      have hfits := (h line List.mem_cons_self).resolve_left (by simp [hgroup])
      have htext : (lineText (line.rdropWhile (· = 0x20))).length ≤ line.length :=
        (List.dropWhile_suffix _).length_le.trans
          ((List.takeWhile_prefix _).length_le.trans (List.rdropWhile_prefix _ _).length_le)
      exact htext.trans hfits
    obtain ⟨next, hnext⟩ := Option.isSome_iff_exists.mp hline
    rw [List.foldlM_cons, hnext]
    exact ih (fun line' hin => h line' (List.mem_cons_of_mem line hin)) next

/-- The line of a group is the name of a group. -/
theorem isGroupLine_groupLine (name : Str) :
    isGroupLine ((0x5B :: name ++ [0x5D]).rdropWhile (· = 0x20)) = true := by
  have hlast : (0x5B :: name ++ [0x5D]).getLast? = some 0x5D := List.getLast?_concat
  rw [rdropWhile_eq_self (by rw [hlast]; decide)]
  exact decide_eq_true ⟨rfl, hlast⟩

/-- Among the written lines are the names of the groups, and the items that look like names. -/
theorem countP_fileLines (h : Readable groups) :
    groups.length ≤
        (fileLines groups).countP (fun line => isGroupLine (line.rdropWhile (· = 0x20))) ∧
      ((fileLines groups).countP (fun line => isGroupLine (line.rdropWhile (· = 0x20))) ≤
        groups.length → Distinct groups) := by
  induction groups with
  | nil => exact ⟨Nat.zero_le _, fun _ => by simp [Distinct]⟩
  | cons g rest ih =>
    obtain ⟨hle, hdistinct⟩ := ih fun g' hg' => h g' (List.mem_cons_of_mem g hg')
    have hitems := (h g List.mem_cons_self).2
    rw [fileLines, List.flatMap_cons, List.countP_append, List.countP_append, List.countP_cons,
      if_pos (isGroupLine_groupLine _), List.length_cons]
    rw [fileLines] at hle hdistinct
    refine ⟨by omega, ?_⟩
    intro hcount g' hg'
    cases List.mem_cons.mp hg' with
    | inl heq =>
      subst heq
      intro item hitem hlooks
      -- the line of the item is counted beside the line of its group
      have hpos : 0 < (g'.2.map itemLine).countP fun line =>
          isGroupLine (line.rdropWhile (· = 0x20)) := by
        rw [List.countP_pos_iff]
        refine ⟨itemLine item, List.mem_map_of_mem hitem, ?_⟩
        rw [rdropWhile_itemLine (hitems item hitem)]
        exact (isGroupLine_itemLine (hitems item hitem)).mpr hlooks
      omega
    | inr hin => exact hdistinct (by omega) g' hin

/-- Groups that can be read are read, and are the same exactly if no item looks like a group. -/
theorem confInit_confSavetodisk {c : Conf} (h : Readable c.groups) :
    ∃ c', confInit c.confSavetodisk = some c' ∧
      (c'.groups = c.groups ↔ Distinct c.groups) := by
  have hlines := h.fileLines
  have hstream := textStream_lines fun line hline => (hlines line hline).1
  have hsome : ((fileLines c.groups).foldlM addLine []).isSome := by
    apply foldlM_isSome
    intro line hline
    obtain ⟨g, hg, hin⟩ := List.mem_flatMap.mp hline
    rw [List.mem_append, List.mem_cons, List.mem_map, List.mem_singleton] at hin
    obtain (rfl | ⟨item, hitem, rfl⟩) | rfl := hin
    · exact .inl (isGroupLine_groupLine _)
    · have hcheck := (h g hg).2 item hitem
      have hfits := hcheck.fits
      refine .inr ?_
      rw [itemLine, cString_eq_self hcheck.name.zero_not_mem,
        cString_eq_self hcheck.value.zero_not_mem]
      simp only [List.length_append, List.length_cons]
      omega
    · exact .inr (Nat.zero_le _)
  obtain ⟨groups, hgroups⟩ := Option.isSome_iff_exists.mp hsome
  have hread : readLines [] (textStream c.confSavetodisk) = some groups := by
    rw [confSavetodisk_eq, hstream, readLines_fitting [] hlines, hgroups]
  refine ⟨_, congrArg _ hread, ?_⟩
  constructor
  · intro heq
    have hlength := length_foldlM hgroups
    rw [List.length_nil, Nat.zero_add] at hlength
    have hsame : groups.length = c.groups.length := congrArg List.length heq
    exact (countP_fileLines h).2 (by omega)
  · intro hdistinct
    have hall := foldlM_fileLines h hdistinct []
    rw [hgroups, List.nil_append] at hall
    exact Option.some.inj hall

/-- No NUL is written. -/
theorem zero_not_mem_confSavetodisk (c : Conf) : 0 ∉ c.confSavetodisk := by
  intro hin
  obtain ⟨g, -, hin⟩ := List.mem_flatMap.mp hin
  simp only [itemLine, List.mem_append, List.mem_cons, List.mem_flatMap, List.not_mem_nil,
    not_mem_cString] at hin
  simp at hin

/-- What is read of a file without NUL is read again from the file that is saved of it, and is the
same exactly if no item of the file looks like a group. -/
theorem saved_again_iff {c : Conf} (hfile : 0 ∉ file) (h : confInit file = some c) :
    ∃ c', confInit c.confSavetodisk = some c' ∧ (c' = c ↔ Distinct c.groups) := by
  obtain ⟨c', hread, hiff⟩ := confInit_confSavetodisk (readable_confInit hfile h)
  refine ⟨c', hread, ?_⟩
  rw [← hiff]
  constructor
  · rintro rfl
    rfl
  · intro heq
    obtain ⟨groups, -, rfl⟩ := Option.map_eq_some_iff.mp h
    obtain ⟨groups', -, rfl⟩ := Option.map_eq_some_iff.mp hread
    obtain rfl : groups' = groups := heq
    rfl

/-- A line with a comment and spaces: the name keeps the space behind it. -/
theorem saved_again_comment :
    ∃ c', confInit (Conf.read [(ascii "a", [(ascii "b ", ascii "c")])]).confSavetodisk = some c' ∧
      (c' = Conf.read [(ascii "a", [(ascii "b ", ascii "c")])] ↔
        Distinct [(ascii "a", [(ascii "b ", ascii "c")])]) := by
  have hfile : ascii "[a] // x\n b = c \n" =
      [ascii "[a] // x", ascii " b = c "].flatMap (· ++ [0x0A]) ++ [] := by decide
  have hread : confInit (ascii "[a] // x\n b = c \n") =
      some (Conf.read [(ascii "a", [(ascii "b ", ascii "c")])]) := by
    rw [hfile, confInit_lines _ _ (by decide) OneLine.nil.plain]
    decide
  exact saved_again_iff (by decide) hread

/-! ### What the setters write -/

/-- Groups that are read again as they are. -/
def Stored (groups : Groups) : Prop :=
  ∀ g ∈ groups, IsGroupName g.1 ∧ ∀ item ∈ g.2, IsItem item ∧ ¬ LooksLikeGroup item

/-- The texts of a call fit into lines. -/
def Storable : ConfigCall → Prop
  | .set setting =>
    IsGroupName (cString setting.group) ∧ IsItem (cString setting.key, setting.value.text)
  | .get _ _ _ => True

variable {c c' : Conf} {setting : Setting} {value : Value}

/-- Stored groups are readable and have no item like a group. -/
theorem stored_iff : Stored groups ↔ Readable groups ∧ Distinct groups := by
  constructor
  · intro h
    exact ⟨fun g hg => ⟨(h g hg).1, fun item hitem => ((h g hg).2 item hitem).1⟩,
      fun g hg item hitem => ((h g hg).2 item hitem).2⟩
  · rintro ⟨hreadable, hdistinct⟩ g hg
    obtain ⟨hname, hitems⟩ := hreadable g hg
    exact ⟨hname, fun item hitem => ⟨hitems item hitem, hdistinct g hg item hitem⟩⟩

/-- What is written for a value ends with a digit or a quotation mark. -/
theorem getLast?_text (value : Value) : value.text.getLast? ≠ some 0x5D := by
  have hdigits : ∀ v, (unsignedText v).getLast? ≠ some 0x5D := by
    intro v hlast
    have hdigit := isdigit_of_mem_ascii (List.mem_of_getLast? hlast)
    exact absurd hdigit (by decide)
  cases value with
  | number v => exact hdigits v
  | string v =>
    have hlast : (Value.string v).text.getLast? = some 0x22 := List.getLast?_concat
    rw [hlast]
    decide
  | bool v => exact hdigits _

/-- A name that is the same for `stricmp` can have the value as well. -/
theorem IsItem.rename (h : IsItem item) (hname : IsItem (name, text))
    (hsame : item.1.map tolower = name.map tolower) : IsItem (item.1, text) := by
  have hlength : item.1.length = name.length := by
    simpa only [List.length_map] using congrArg List.length hsame
  refine ⟨h.name, hname.value, h.name_ne, h.name_head, h.name_tail, hname.value_head,
    hname.value_last, ?_⟩
  rw [hlength]
  exact hname.fits

/-- A setter puts its text into its group. -/
theorem groups_set (h : c.set setting = some c') :
    c'.groups = KeyedList.put₂ (List.map tolower) (cString setting.group) (cString setting.key)
      setting.value.text c.groups := by
  unfold Conf.set at h
  split at h
  · rename_i value hvalue
    cases h
    rw [hvalue]
    exact Conf.groups_newitem c _ _ _
  · rename_i value hvalue
    rw [Conf.setString, Conf.confNewstring, Option.ite_none_right_eq_some] at h
    cases h.2
    rw [hvalue]
    exact Conf.groups_newitem c _ _ _
  · rename_i value hvalue
    cases h
    rw [hvalue]
    exact Conf.groups_newitem c _ _ _

/-- A setter keeps what is read again. -/
theorem Stored.set (h : Stored c.groups) (hset : c.set setting = some c')
    (hcall : Storable (.set setting)) : Stored c'.groups := by
  obtain ⟨hgroup, hitem⟩ := hcall
  have hnew : ¬ LooksLikeGroup (cString setting.key, setting.value.text) := fun hlooks =>
    getLast?_text setting.value hlooks.2
  have hitems : ∀ items : List (Str × Str), (∀ item ∈ items, IsItem item ∧ ¬ LooksLikeGroup item) →
      ∀ item ∈ KeyedList.alter (List.map tolower) (cString setting.key)
        (fun _ => setting.value.text) items, IsItem item ∧ ¬ LooksLikeGroup item := by
    intro items hall
    apply KeyedList.forall_alter hall
    · intro item hin hsame
      refine ⟨(hall item hin).1.rename hitem hsame, ?_⟩
      exact fun hlooks => getLast?_text setting.value hlooks.2
    · exact ⟨hitem, hnew⟩
  rw [groups_set hset]
  apply KeyedList.forall_alter h
  · intro g hg _
    exact ⟨(h g hg).1, hitems g.2 (h g hg).2⟩
  · exact ⟨hgroup, hitems [] (by simp)⟩

/-- A getter leaves the groups. -/
theorem groups_get (overflow : Str → Int32) (c : Conf) (kind : Kind) (group key : Str) :
    (c.get overflow kind group key).groups = c.groups := by
  have hwith : ∀ {α : Type} (convert : Str → α) (default : α),
      (c.valueWith convert group key default).2.groups = c.groups := by
    intro α convert default
    rw [Conf.valueWith, Conf.confTogroup]
    cases c.groups.findIdx? fun g => sameText g.1 (cString group) with
    | none => rfl
    | some i =>
      simp only
      split <;> rfl
  cases kind with
  | number => exact hwith _ _
  | string => exact hwith _ _
  | bool => exact hwith _ _

/-- A setter whose text fits into a line does not write past the end of an array. -/
theorem exists_set (c : Conf) (hcall : Storable (.set setting)) :
    ∃ c', c.set setting = some c' := by
  obtain ⟨group, key, value⟩ := setting
  cases value with
  | number v => exact ⟨_, rfl⟩
  | string v =>
    have hfits := hcall.2.fits
    have hlength : (quoted (cString v)).length ≤ 251 :=
      (Nat.le_add_left _ _).trans hfits
    exact ⟨_, if_pos (by omega)⟩
  | bool b => exact ⟨_, rfl⟩

end Multicrew.Core
