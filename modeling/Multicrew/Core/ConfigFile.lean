import Mathlib.Data.List.Infix
import Multicrew.Core.ConfigCalls
import Multicrew.Library.Separator

/-!
# The file of a configuration

`conf_init` reads a file line by line into an array of 255 characters, and `conf_savetodisk` writes
the lists back. A file is what its text streams deliver. A line that does not fit into the array is
written past its end, and a comment without a line's end is skipped forever: neither has a result.

So a file is read without harm exactly if its lines, without their comments, fit into the array, and
those that may be items leave room behind them. What is read then is what the lines say, one by one.
-/

namespace Multicrew.Core

open Multicrew.Library

/-- The lists of a configuration. -/
abbrev Groups := List (Str × List (Str × Str))

/-- The characters that are read from a file: Ctrl-Z is its end. -/
def textStream (file : Str) : Str := file.takeWhile (· ≠ 0x1A)

/-- The loop over a comment, which looks for the end of the line only. -/
def skipComment : Str → Option Str
  | [] => none
  | c :: file => if c = 0x0A then some file else skipComment file

/-- The loop that fills `stch`: what is in it of the line, whether the file ended, and the rest of the
file. A character is written before it is looked at, and the character 255 is the same as `EOF`. -/
def readLine (stch : Str) (commentStarted : Bool) : Str → Option (Str × Bool × Str)
  | [] => if stch.length < 255 then some (stch, true, []) else none
  | c :: file =>
    if 255 ≤ stch.length then none
    else if c = 0x2F ∧ commentStarted = false then readLine (stch ++ [c]) true file
    else if c = 0xFF then some (stch, true, file)
    else if c = 0x0A then some (stch, false, file)
    else if c = 0x2F then (skipComment file).map fun rest => (stch.dropLast, false, rest)
    else readLine (stch ++ [c]) false file

/-- `conf_p2d`: the characters before the first `tofind`, which the first character is not. -/
def confP2d (tofind : UInt8) : Str → Option Str
  | [] => none
  | c :: rest => if tofind ∈ rest then some (c :: rest.takeWhile (· ≠ tofind)) else none

/-- An item goes behind the last one of the last group. -/
def appendItem (item : Str × Str) : Groups → Groups
  | [] => []
  | [g] => [(g.1, g.2 ++ [item])]
  | g :: g' :: rest => g :: appendItem item (g' :: rest)

/-- An item adds no group. -/
theorem length_appendItem (item : Str × Str) (groups : Groups) :
    (appendItem item groups).length = groups.length := by
  induction groups with
  | nil => rfl
  | cons g rest ih => cases rest with
    | nil => rfl
    | cons g' rest => exact congrArg Nat.succ ih

/-- The last group takes the item. -/
theorem appendItem_concat (item : Str × Str) (groups : Groups) (g : Str × List (Str × Str)) :
    appendItem item (groups ++ [g]) = groups ++ [(g.1, g.2 ++ [item])] := by
  induction groups with
  | nil => rfl
  | cons g' rest ih => cases rest with
    | nil => rfl
    | cons g'' rest => exact congrArg (g' :: ·) ih

/-- A line, without the spaces at its end, is the name of a group. -/
def isGroupLine (line : Str) : Bool := line.head? = some 0x5B ∧ line.getLast? = some 0x5D

/-- A line without the spaces at its ends. -/
def lineText (line : Str) : Str := (cString line).dropWhile (· = 0x20)

/-- What `conf_init` makes of a line. Before an item is looked for, a NUL is written two characters
behind the end of the text. -/
def addLine (groups : Groups) (stch : Str) : Option Groups :=
  let line := stch.rdropWhile (· = 0x20)
  if isGroupLine line then
    some (groups ++ [(cString (line.tail.takeWhile (· ≠ 0x5D)), [])])
  else if groups = [] then some []
  else
    let text := lineText line
    if 253 ≤ text.length then none
    else match confP2d 0x3D text with
      | none => some groups
      | some nameitem =>
        some (appendItem (nameitem, (text.drop (nameitem.length + 1)).dropWhile (· = 0x20)) groups)

/-- The rest of a file begins behind the end of the comment's line. -/
theorem skipComment_eq {file rest : Str} (h : skipComment file = some rest) :
    ∃ comment, file = comment ++ 0x0A :: rest := by
  induction file with
  | nil => cases h
  | cons c file ih =>
    rw [skipComment] at h
    split_ifs at h with hc
    · cases h
      exact ⟨[], by rw [hc, List.nil_append]⟩
    · obtain ⟨comment, rfl⟩ := ih h
      exact ⟨c :: comment, rfl⟩

/-- The rest of a file is shorter behind a line. -/
theorem length_readLine {stch : Str} {commentStarted : Bool} {file line rest : Str}
    (h : readLine stch commentStarted file = some (line, false, rest)) :
    rest.length < file.length := by
  induction file generalizing stch commentStarted with
  | nil => simp [readLine] at h
  | cons c file ih =>
    rw [readLine] at h
    split_ifs at h
    · exact Nat.lt_succ_of_lt (ih h)
    · simp at h
    · cases h
      exact Nat.lt_succ_self _
    · obtain ⟨rest', hrest, heq⟩ := Option.map_eq_some_iff.mp h
      obtain ⟨comment, rfl⟩ := skipComment_eq hrest
      cases heq
      simp only [List.length_cons, List.length_append]
      omega
    · exact Nat.lt_succ_of_lt (ih h)

/-- The loop over the lines. A line that the file ends in is not used. -/
def readLines (groups : Groups) (file : Str) : Option Groups :=
  match h : readLine [] false file with
  | none => none
  | some (_, true, _) => some groups
  | some (stch, false, rest) =>
    have := length_readLine h
    match addLine groups stch with
    | none => none
    | some groups => readLines groups rest
termination_by file.length

/-- A configuration that has been read; the first group is the current one. -/
def Conf.read (groups : Groups) : Conf where
  groups := groups
  actualGroup := if groups = [] then none else some 0

/-- `conf_init`; a file that is not there is made, and is empty. -/
def confInit (file : Str) : Option Conf := (readLines [] (textStream file)).map Conf.read

/-! ### What a line says -/

/-- No character ends the line, a string or the file. -/
def IsPlain (text : Str) : Prop := ∀ b ∈ text, b ≠ 0 ∧ b ≠ 0x0A ∧ b ≠ 0xFF ∧ b ≠ 0x1A

instance (text : Str) : Decidable (IsPlain text) := List.decidableBAll _ text

/-- The beginning of a comment. -/
def slashes : Str := [0x2F, 0x2F]

/-- A text that stands in a line: nothing ends it, and no comment begins in it. -/
structure OneLine (text : Str) : Prop where
  plain : IsPlain text
  no_comment : ¬ slashes <:+: text

/-- The part of a line before its comment, and whether it has one. -/
def code : Str → Str × Bool
  | [] => ([], false)
  | [c] => ([c], false)
  | c :: c' :: rest =>
    if c = 0x2F ∧ c' = 0x2F then ([], true)
    else
      let (before, comment) := code (c' :: rest)
      (c :: before, comment)

/-- A line that fits into the array, with the first slash of its comment. -/
def LineFits (line : Str) : Prop := (code line).1.length + (code line).2.toNat ≤ 254

instance (line : Str) : Decidable (LineFits line) := inferInstanceAs (Decidable (_ ≤ _))

/-- An end of a file that is read: it fits, and is not in a comment. -/
def EndFits (line : Str) : Prop := ¬ slashes <:+: line ∧ line.length ≤ 254

instance (line : Str) : Decidable (EndFits line) := inferInstanceAs (Decidable (_ ∧ _))

/-- The line is the name of a group. -/
def BeginsGroup (line : Str) : Prop := isGroupLine ((code line).1.rdropWhile (· = 0x20)) = true

/-- A text that an item can be looked for in. -/
def TextFits (line : Str) : Prop :=
  (lineText ((code line).1.rdropWhile (· = 0x20))).length ≤ 252

variable {text text' line file rest name : Str} {groups groups' : Groups} {lines : List Str}

/-- A part of a line is in a line. -/
theorem OneLine.part (h : OneLine text) (hin : text' <:+: text) : OneLine text' := by
  constructor
  · intro b hb
    exact h.plain b (hin.subset hb)
  · intro hcomment
    exact h.no_comment (hcomment.trans hin)

/-- The empty text is a line. -/
theorem OneLine.nil : OneLine [] := ⟨nofun, by decide⟩

/-- A line goes on with a character that neither ends it nor begins a comment. -/
theorem OneLine.concat {c : UInt8} (h : OneLine text)
    (hc : c ≠ 0 ∧ c ≠ 0x0A ∧ c ≠ 0xFF ∧ c ≠ 0x1A)
    (hslash : ¬ (c = 0x2F ∧ text.getLast? = some 0x2F)) : OneLine (text ++ [c]) := by
  constructor
  · intro b hb
    cases List.mem_append.mp hb with
    | inl hin => exact h.plain b hin
    | inr hin =>
      obtain rfl := List.mem_singleton.mp hin
      exact hc
  · intro hcomment
    rw [List.infix_concat_iff] at hcomment
    cases hcomment with
    | inl hsuffix =>
      obtain ⟨before, hbefore⟩ := hsuffix
      have hsplit : (before ++ [0x2F]) ++ [0x2F] = text ++ [c] := by simpa [slashes] using hbefore
      obtain ⟨htext, hlast⟩ := List.append_inj' hsplit rfl
      apply hslash
      refine ⟨(List.singleton_inj.mp hlast).symm, ?_⟩
      rw [← htext, List.getLast?_concat]
    | inr hin => exact h.no_comment hin

/-- A line has no comment, or its first one follows its code. -/
theorem code_cases (line : Str) :
    ¬ slashes <:+: line ∧ code line = (line, false) ∨
      ∃ before after, line = before ++ slashes ++ after ∧ ¬ slashes <:+: before ++ [0x2F] ∧
        code line = (before, true) := by
  induction line using code.induct with
  | case1 => exact .inl ⟨by decide, rfl⟩
  | case2 c =>
    refine .inl ⟨?_, rfl⟩
    intro hcomment
    exact absurd hcomment.length_le (by simp [slashes])
  | case3 c c' rest hslash =>
    obtain ⟨rfl, rfl⟩ := hslash
    exact .inr ⟨[], rest, rfl, by decide, rfl⟩
  | case4 c c' rest hslash _ _ _ ih =>
    have hstart : ∀ rest', ¬ slashes <+: c :: c' :: rest' := by
      intro rest' hstarts
      simp only [slashes, List.cons_prefix_cons] at hstarts
      exact hslash ⟨hstarts.1.symm, hstarts.2.1.symm⟩
    rw [code, if_neg hslash]
    cases ih with
    | inl hnone =>
      refine .inl ⟨?_, by rw [hnone.2]⟩
      intro hcomment
      cases List.infix_cons_iff.mp hcomment with
      | inl hstarts => exact hstart rest hstarts
      | inr hin => exact hnone.1 hin
    | inr hsome =>
      obtain ⟨before, after, heq, hno, hcode⟩ := hsome
      refine .inr ⟨c :: before, after, by rw [heq]; rfl, ?_, by rw [hcode]⟩
      intro hcomment
      cases List.infix_cons_iff.mp hcomment with
      | inl hstarts =>
        -- the code goes on with the second character, a slash if it is empty
        cases before with
        | nil =>
          have hc' : c' = 0x2F := (List.cons.inj heq).1
          exact hstart [] (hc' ▸ hstarts)
        | cons b before =>
          obtain rfl : c' = b := (List.cons.inj heq).1
          exact hstart (before ++ [0x2F]) (by simpa using hstarts)
      | inr hin => exact hno hin

/-! ### What is read of a line -/

/-- The flag tells whether the last character is a slash that a comment can begin with. -/
def startsComment (stch : Str) : Bool := stch.getLast? = some 0x2F

/-- A character behind a slash that is none itself ends the wait for a comment. -/
theorem startsComment_concat (stch : Str) (c : UInt8) :
    startsComment (stch ++ [c]) = decide (c = 0x2F) := by
  simp [startsComment]

/-- What fits is read up to its end. -/
theorem readLine_append (text line rest : Str) (hline : OneLine (text ++ line))
    (hlength : (text ++ line).length ≤ 255) :
    readLine text (startsComment text) (line ++ rest) =
      readLine (text ++ line) (startsComment (text ++ line)) rest := by
  induction line generalizing text with
  | nil => rw [List.append_nil, List.nil_append]
  | cons c line ih =>
    have hsplit : text ++ c :: line = (text ++ [c]) ++ line := by simp
    rw [hsplit] at hline hlength ⊢
    obtain ⟨-, hnewline, heof, -⟩ := hline.plain c (by simp)
    have hfits : ¬ 255 ≤ text.length := by
      simp only [List.length_append, List.length_singleton] at hlength
      omega
    rw [← ih (text ++ [c]) hline hlength, startsComment_concat, List.cons_append, readLine, if_neg hfits]
    by_cases hslash : c = 0x2F
    · have hstart : startsComment text = false := by
        simp only [startsComment, decide_eq_false_iff_not]
        intro hlast
        apply hline.no_comment
        obtain ⟨before, hbefore⟩ := List.getLast?_eq_some_iff.mp hlast
        exact ⟨before, line, by simp [slashes, hbefore, hslash]⟩
      rw [if_pos ⟨hslash, hstart⟩, hslash]
      rfl
    · simp only [hslash, false_and, if_false, heof, hnewline, decide_false]

/-- A full array has no room for the next character. -/
theorem readLine_full (hfull : 255 ≤ text.length) (commentStarted : Bool) (file : Str) :
    readLine text commentStarted file = none := by
  cases file with
  | nil => exact if_neg (Nat.not_lt.mpr hfull)
  | cons c file => exact if_pos hfull

/-- What does not fit is not read. -/
theorem readLine_eq_none (hline : OneLine line) (hlength : 255 ≤ line.length) (rest : Str) :
    readLine [] false (line ++ rest) = none := by
  have htake : OneLine ([] ++ line.take 255) := hline.part (List.take_prefix 255 line).isInfix
  have hle : ([] ++ line.take 255).length ≤ 255 := by
    rw [List.nil_append, List.length_take]
    omega
  have hread := readLine_append [] (line.take 255) (line.drop 255 ++ rest) htake hle
  rw [← List.append_assoc, List.take_append_drop] at hread
  refine hread.trans (readLine_full ?_ _ _)
  rw [List.nil_append, List.length_take]
  omega

/-- The loop over a comment ends with the line. -/
theorem skipComment_append (h : 0x0A ∉ text) : skipComment (text ++ 0x0A :: rest) = some rest := by
  induction text with
  | nil => exact if_pos rfl
  | cons c text ih =>
    have hc : c ≠ 0x0A := fun heq => h (heq ▸ List.mem_cons_self)
    rw [List.cons_append, skipComment, if_neg hc]
    exact ih fun hin => h (List.mem_cons_of_mem c hin)

/-- A comment without a line's end is never left. -/
theorem skipComment_eq_none (h : 0x0A ∉ text) : skipComment text = none := by
  induction text with
  | nil => rfl
  | cons c text ih =>
    have hc : c ≠ 0x0A := fun heq => h (heq ▸ List.mem_cons_self)
    rw [skipComment, if_neg hc]
    exact ih fun hin => h (List.mem_cons_of_mem c hin)

/-- The characters up to the first slash of a comment are a line. -/
theorem oneLine_of_comment {before after : Str} (hplain : IsPlain (before ++ slashes ++ after))
    (hno : ¬ slashes <:+: before ++ [0x2F]) : OneLine (before ++ [0x2F]) := by
  refine ⟨?_, hno⟩
  intro b hb
  apply hplain b
  simp only [slashes, List.mem_append, List.mem_cons] at hb ⊢
  tauto

/-- A comment that begins in the array goes on to the end of the line. -/
theorem readLine_comment {before after : Str} (honeLine : OneLine (before ++ [0x2F]))
    (hfits : before.length ≤ 253) (file : Str) :
    readLine [] false (before ++ slashes ++ after ++ file) =
      (skipComment (after ++ file)).map fun rest => (before, false, rest) := by
  have hsplit : before ++ slashes ++ after ++ file =
      (before ++ [0x2F]) ++ 0x2F :: (after ++ file) := by simp [slashes]
  have hlength : (before ++ [0x2F]).length = before.length + 1 := by
    rw [List.length_append, List.length_singleton]
  have hread := readLine_append [] (before ++ [0x2F]) (0x2F :: (after ++ file)) honeLine
    (by rw [List.nil_append]; omega)
  have hroom : ¬ 255 ≤ (before ++ [0x2F]).length := by omega
  have hstart : startsComment (before ++ [0x2F]) = true := by simp [startsComment_concat]
  rw [hsplit]
  refine hread.trans ?_
  rw [List.nil_append, hstart, readLine, if_neg hroom, if_neg (by simp), if_neg (by decide),
    if_neg (by decide), if_pos rfl, List.dropLast_concat]

/-- A comment that begins behind the array is not reached. -/
theorem readLine_comment_eq_none {before after : Str} (honeLine : OneLine (before ++ [0x2F]))
    (hfits : 254 ≤ before.length) (file : Str) :
    readLine [] false (before ++ slashes ++ after ++ file) = none := by
  have hsplit : before ++ slashes ++ after ++ file =
      (before ++ [0x2F]) ++ 0x2F :: (after ++ file) := by simp [slashes]
  rw [hsplit]
  apply readLine_eq_none honeLine
  rw [List.length_append, List.length_singleton]
  omega

/-- A line is read exactly if it fits, and what is read is its code. -/
theorem readLine_line (hline : IsPlain line) (rest : Str) :
    readLine [] false (line ++ 0x0A :: rest) =
      if LineFits line then some ((code line).1, false, rest) else none := by
  obtain ⟨hno, hcode⟩ | ⟨before, after, rfl, hno, hcode⟩ := code_cases line
  · have honeLine : OneLine line := ⟨hline, hno⟩
    by_cases hfits : line.length ≤ 254
    · have hread := readLine_append [] line (0x0A :: rest) honeLine (by rw [List.nil_append]; omega)
      have hroom : ¬ 255 ≤ line.length := by omega
      rw [if_pos (by simpa [LineFits, hcode] using hfits), hcode]
      refine hread.trans ?_
      rw [List.nil_append, readLine, if_neg hroom]
      rfl
    · rw [if_neg (by simpa [LineFits, hcode] using hfits)]
      exact readLine_eq_none honeLine (by omega) _
  · have honeLine := oneLine_of_comment hline hno
    by_cases hfits : before.length ≤ 253
    · have hskip : skipComment (after ++ 0x0A :: rest) = some rest :=
        skipComment_append fun hin => (hline 0x0A (by simp [hin])).2.1 rfl
      rw [if_pos (by simp only [LineFits, hcode, Bool.toNat_true]; omega), hcode,
        readLine_comment honeLine hfits, hskip, Option.map_some]
    · rw [if_neg (by simp only [LineFits, hcode, Bool.toNat_true]; omega)]
      exact readLine_comment_eq_none honeLine (by omega) _

/-- The end of a file is read exactly if it fits and is not in a comment. -/
theorem readLine_end (hline : IsPlain line) :
    readLine [] false line = if EndFits line then some (line, true, []) else none := by
  obtain ⟨hno, hcode⟩ | ⟨before, after, rfl, hno, hcode⟩ := code_cases line
  · have honeLine : OneLine line := ⟨hline, hno⟩
    by_cases hfits : line.length ≤ 254
    · have hread := readLine_append [] line [] honeLine (by rw [List.nil_append]; omega)
      rw [List.append_nil, List.nil_append] at hread
      rw [if_pos ⟨hno, hfits⟩]
      exact hread.trans (if_pos (Nat.lt_succ_of_le hfits))
    · rw [if_neg fun h => hfits h.2]
      have hread := readLine_eq_none honeLine (by omega) []
      rwa [List.append_nil] at hread
  · have honeLine := oneLine_of_comment hline hno
    have hcomment : ¬ EndFits (before ++ slashes ++ after) := fun h => h.1 ⟨before, after, rfl⟩
    rw [if_neg hcomment, ← List.append_nil (before ++ slashes ++ after)]
    by_cases hfits : before.length ≤ 253
    · have hskip : skipComment (after ++ []) = none := by
        rw [List.append_nil]
        exact skipComment_eq_none fun hin => (hline 0x0A (by simp [hin])).2.1 rfl
      rw [readLine_comment honeLine hfits, hskip, Option.map_none]
    · exact readLine_comment_eq_none honeLine (by omega) _

/-! ### What is read of a file -/

/-- The next line is used, unless the file ends in it. -/
theorem readLines_of_readLine (ended : Bool) (h : readLine [] false file = some (line, ended, rest)) :
    readLines groups file =
      if ended then some groups else (addLine groups line).bind (readLines · rest) := by
  rw [readLines]
  split
  · rename_i hnone
    rw [hnone] at h
    cases h
  · rename_i hend
    rw [hend] at h
    cases h
    rfl
  · rename_i hline
    rw [hline] at h
    cases h
    rw [if_neg Bool.false_ne_true]
    cases addLine groups line with
    | none => rfl
    | some groups' => rfl

/-- Without a line nothing is read. -/
theorem readLines_eq_none (h : readLine [] false file = none) : readLines groups file = none := by
  rw [readLines]
  split
  · rfl
  · rename_i hend
    rw [hend] at h
    cases h
  · rename_i hline
    rw [hline] at h
    cases h

/-- What a line of a file says. -/
def takeLine (groups : Groups) (line : Str) : Option Groups :=
  if LineFits line then addLine groups (code line).1 else none

/-- A file is read line by line. -/
theorem readLines_lines (groups : Groups) {last : Str} (hlines : ∀ line ∈ lines, IsPlain line)
    (hlast : IsPlain last) :
    readLines groups (lines.flatMap (· ++ [0x0A]) ++ last) =
      if EndFits last then lines.foldlM takeLine groups else none := by
  induction lines generalizing groups with
  | nil =>
    have hend := readLine_end hlast
    by_cases hfits : EndFits last
    · rw [if_pos hfits] at hend ⊢
      exact readLines_of_readLine true hend
    · rw [if_neg hfits] at hend ⊢
      exact readLines_eq_none hend
  | cons line lines ih =>
    have hread := readLine_line (hlines line List.mem_cons_self)
      (lines.flatMap (· ++ [0x0A]) ++ last)
    have hnext := fun groups => ih groups fun line' hin =>
      hlines line' (List.mem_cons_of_mem line hin)
    have hsplit : (line :: lines).flatMap (· ++ [0x0A]) ++ last =
        line ++ 0x0A :: (lines.flatMap (· ++ [0x0A]) ++ last) := by simp
    rw [hsplit, List.foldlM_cons, takeLine]
    by_cases hfits : LineFits line
    · rw [if_pos hfits] at hread ⊢
      rw [readLines_of_readLine false hread, if_neg Bool.false_ne_true]
      cases addLine groups (code line).1 with
      | none => simp
      | some groups' => exact hnext groups'
    · rw [if_neg hfits] at hread ⊢
      rw [readLines_eq_none hread]
      simp

/-- A line is used if it is a group's name, if it can belong to no group, or if its text fits. -/
theorem addLine_isSome_iff (stch : Str) :
    (addLine groups stch).isSome ↔
      (groups ≠ [] → isGroupLine (stch.rdropWhile (· = 0x20)) = false →
        (lineText (stch.rdropWhile (· = 0x20))).length ≤ 252) := by
  unfold addLine
  simp only
  split_ifs with hgroup hnil hfits
  · simp [hgroup]
  · simp [hnil]
  · simp only [Option.isSome_none, Bool.false_eq_true, false_iff, Classical.not_imp]
    exact ⟨hnil, Bool.eq_false_iff.mpr hgroup, by omega⟩
  · have hle : (lineText (stch.rdropWhile (· = 0x20))).length ≤ 252 := by omega
    simp only [hle, implies_true, iff_true]
    split <;> rfl

/-- There are groups behind a line if there were before, or if it is the name of one. -/
theorem addLine_ne_nil_iff {stch : Str} (h : addLine groups stch = some groups') :
    groups' ≠ [] ↔ groups ≠ [] ∨ isGroupLine (stch.rdropWhile (· = 0x20)) = true := by
  unfold addLine at h
  simp only at h
  split_ifs at h with hgroup hnil hfits
  · obtain rfl := Option.some.inj h
    simp [hgroup]
  · obtain rfl := Option.some.inj h
    simp [hnil, hgroup]
  · have hiff : groups' = [] ↔ groups = [] := by
      split at h
      · rw [Option.some.inj h]
      · rw [← Option.some.inj h]
        rw [← List.length_eq_zero_iff, length_appendItem, List.length_eq_zero_iff]
    simp [hnil, hiff]

/-- A line is taken if it fits, and its text does if it may be an item. -/
theorem takeLine_isSome_iff (groups : Groups) (line : Str) :
    (takeLine groups line).isSome ↔
      LineFits line ∧ (groups ≠ [] → ¬ BeginsGroup line → TextFits line) := by
  rw [takeLine]
  by_cases hfits : LineFits line
  · rw [if_pos hfits, addLine_isSome_iff]
    simp only [hfits, true_and, BeginsGroup, TextFits, Bool.not_eq_true]
  · simp [hfits]

/-- Lines are taken exactly if each fits, and in a group each text does that does not begin the next
one. -/
theorem foldlM_takeLine_isSome_iff :
    (lines.foldlM takeLine groups).isSome ↔
      ∀ before line after, lines = before ++ line :: after → LineFits line ∧
        (groups ≠ [] ∨ (∃ line' ∈ before, BeginsGroup line') →
          ¬ BeginsGroup line → TextFits line) := by
  induction lines generalizing groups with
  | nil => simp
  | cons line lines ih =>
    rw [forall_split_cons, List.foldlM_cons]
    have hfirst := takeLine_isSome_iff groups line
    cases htake : takeLine groups line with
    | none =>
      rw [htake, Option.isSome_none] at hfirst
      simp only [Bool.false_eq_true, false_iff] at hfirst
      simp only [Option.bind_eq_bind, Option.bind_none, Option.isSome_none, Bool.false_eq_true,
        List.not_mem_nil, false_and, exists_false, or_false, false_iff]
      exact fun h => hfirst h.1
    | some groups' =>
      rw [htake, Option.isSome_some] at hfirst
      have hnext : groups' ≠ [] ↔ groups ≠ [] ∨ BeginsGroup line := by
        rw [takeLine, if_pos (hfirst.mp rfl).1] at htake
        exact addLine_ne_nil_iff htake
      obtain ⟨hfits, htext⟩ := hfirst.mp rfl
      simp only [Option.bind_eq_bind, Option.bind_some, ih, hnext, List.not_mem_nil, false_and,
        exists_false, or_false, hfits, true_and, List.exists_mem_cons_iff, or_assoc]
      exact (and_iff_right htext).symm

/-- `conf_init` reads what the lines say, unless it is lost in the end of the file. -/
theorem confInit_lines (lines : List Str) (last : Str) (hlines : ∀ line ∈ lines, IsPlain line)
    (hlast : IsPlain last) :
    confInit (lines.flatMap (· ++ [0x0A]) ++ last) =
      if EndFits last then (lines.foldlM takeLine []).map Conf.read else none := by
  have hstream : textStream (lines.flatMap (· ++ [0x0A]) ++ last) =
      lines.flatMap (· ++ [0x0A]) ++ last := by
    rw [textStream, List.takeWhile_eq_self_iff]
    intro b hb
    rw [List.mem_append, List.mem_flatMap] at hb
    obtain ⟨line, hline, hin⟩ | hin := hb
    · rw [List.mem_append, List.mem_singleton] at hin
      cases hin with
      | inl hin => simpa using (hlines line hline b hin).2.2.2
      | inr heq => simp [heq]
    · simpa using (hlast b hin).2.2.2
  rw [confInit, hstream, readLines_lines [] hlines hlast]
  split <;> rfl

/-- A file is read without harm exactly if its end is not in a comment and fits, every other line
fits up to the first slash of its comment, and behind the first group so does the text of every line
that is not the name of a group. -/
theorem confInit_isSome_iff (lines : List Str) (last : Str)
    (hlines : ∀ line ∈ lines, IsPlain line) (hlast : IsPlain last) :
    (confInit (lines.flatMap (· ++ [0x0A]) ++ last)).isSome ↔
      EndFits last ∧ ∀ before line after, lines = before ++ line :: after → LineFits line ∧
        ((∃ line' ∈ before, BeginsGroup line') → ¬ BeginsGroup line → TextFits line) := by
  rw [confInit_lines lines last hlines hlast]
  by_cases hfits : EndFits last
  · rw [if_pos hfits, Option.isSome_map, foldlM_takeLine_isSome_iff]
    simp [hfits]
  · simp [hfits]

/-- A file that ends in a comment is not read to its end. -/
theorem confInit_ends_in_comment : ¬ (confInit (ascii "[a]\n//")).isSome := by
  intro h
  have hfile : ascii "[a]\n//" = [ascii "[a]"].flatMap (· ++ [0x0A]) ++ ascii "//" := by decide
  rw [hfile, confInit_isSome_iff [ascii "[a]"] (ascii "//") (by decide)
    (by decide)] at h
  exact absurd h.1 (by decide)

end Multicrew.Core
