import ConfigLang.Text.Indentation
import Mathlib.Data.List.Basic

/-!
# What is removed from an indented text

The lines after the first lose the spaces and tabs that they have in common, and nothing else. How far
the lines that are not blank reach in determines what is removed, so the result does not depend on how
deeply the whole block is indented.

* `IsCommonIndentation` - a number of spaces and tabs that lines have in common, and no more than that.
* `IsUnindented` - a text without the common indentation of another one.
* `isCommonIndentation_iff` - `commonIndentation` is the only number of that kind.
* `unindentChars_eq` - the result in terms of the lines of the text.
* `unindent_eq_iff_isUnindented` - the result is the only text without the common indentation.
* `unindent_indentBy` - an indentation of the whole block makes no difference.
-/

namespace ConfigLang.Text

variable {first line indent text : List Char} {lines : List (List Char)} {k m : Nat}

/-! ### One line -/

theorem isIndent_iff {c : Char} : isIndent c = true ↔ c = ' ' ∨ c = '\t' := by
  simp only [isIndent, Bool.or_eq_true, beq_iff_eq]

theorem isBlank_of_isIndent {c : Char} (h : isIndent c = true) : isBlank c = true := by
  rcases isIndent_iff.1 h with rfl | rfl <;> decide

theorem isBlankLine_of_isIndent (h : ∀ c ∈ line, isIndent c = true) : isBlankLine line = true :=
  List.all_eq_true.2 fun c hc => isBlank_of_isIndent (h c hc)

theorem isBlankLine_append (h : ∀ c ∈ indent, isIndent c = true) (line : List Char) :
    isBlankLine (indent ++ line) = isBlankLine line := by
  have hindent : indent.all isBlank = true := isBlankLine_of_isIndent h
  rw [isBlankLine, List.all_append, hindent, Bool.true_and, isBlankLine]

theorem indentation_append (h : ∀ c ∈ indent, isIndent c = true) (line : List Char) :
    indentation (indent ++ line) = indent.length + indentation line := by
  rw [indentation, List.takeWhile_append_of_pos h, List.length_append, indentation]

/-- A line of spaces and tabs up to another character is indented that far. -/
theorem indentation_of_drop {c : Char} {rest : List Char} (hindent : ∀ c ∈ line.take m, isIndent c = true)
    (hdrop : line.drop m = c :: rest) (hc : isIndent c = false) : indentation line = m := by
  have hlength : m < line.length := by
    refine List.length_lt_of_drop_ne_nil ?_
    rw [hdrop]
    exact List.cons_ne_nil c rest
  have hbehind : indentation (line.drop m) = 0 := by
    rw [hdrop, indentation, List.takeWhile_cons_of_neg (by rw [hc]; decide), List.length_nil]
  rw [← List.take_append_drop m line, indentation_append hindent, hbehind,
    List.length_take_of_le (Nat.le_of_lt hlength), Nat.add_zero]

/-- As far as it is indented at least, a line begins with spaces and tabs. -/
theorem isIndent_of_mem_take (h : m ≤ indentation line) : ∀ c ∈ line.take m, isIndent c = true := by
  have hstart : line.take m <+: line.takeWhile isIndent := by
    refine List.prefix_of_prefix_length_le (List.take_prefix m line) (List.takeWhile_prefix isIndent) ?_
    exact Nat.le_trans (List.length_take_le m line) h
  intro c hc
  exact List.all_eq_true.1 List.all_takeWhile c (hstart.subset hc)

theorem indentation_le_length (line : List Char) : indentation line ≤ line.length :=
  (List.takeWhile_prefix isIndent).length_le

/-- Behind its indentation a line goes on with another character, unless it is blank. -/
theorem exists_behind_indentation (h : isBlankLine line = false) :
    ∃ c rest, line.drop (indentation line) = c :: rest ∧ isIndent c = false := by
  have hline := @List.takeWhile_append_dropWhile _ isIndent line
  cases hbehind : line.dropWhile isIndent with
  | nil =>
    rw [hbehind, List.append_nil] at hline
    have hblank : isBlankLine line = true :=
      isBlankLine_of_isIndent (List.all_eq_true.1 (hline ▸ List.all_takeWhile))
    rw [hblank] at h
    cases h
  | cons c rest =>
    have hc := @List.head_dropWhile_not _ isIndent line (by rw [hbehind]; exact List.cons_ne_nil c rest)
    simp only [hbehind, List.head_cons] at hc
    refine ⟨c, rest, ?_, hc⟩
    calc line.drop (indentation line)
        = (line.takeWhile isIndent ++ line.dropWhile isIndent).drop (indentation line) := by rw [hline]
      _ = line.dropWhile isIndent := List.drop_left' rfl
      _ = c :: rest := hbehind

/-! ### What lines have in common -/

theorem commonIndentation_le (hline : line ∈ lines) (hseen : isBlankLine line = false) :
    commonIndentation lines ≤ indentation line := by
  refine List.min?_getD_le_of_mem (List.mem_map_of_mem (List.mem_filter.2 ⟨hline, ?_⟩))
  rw [hseen, Bool.not_false]

theorem commonIndentation_of_blank (h : ∀ line ∈ lines, isBlankLine line = true) :
    commonIndentation lines = 0 := by
  have hnone : lines.filter (!isBlankLine ·) = [] := by
    refine List.filter_eq_nil_iff.2 fun line hline => ?_
    rw [h line hline]
    decide
  rw [commonIndentation, hnone]
  rfl

/-- One of the lines that are not blank is indented no further. -/
theorem exists_indentation_eq (h : ∃ line ∈ lines, isBlankLine line = false) :
    ∃ line ∈ lines, isBlankLine line = false ∧ indentation line = commonIndentation lines := by
  obtain ⟨seen, hmem, hseen⟩ := h
  cases hmin : ((lines.filter (!isBlankLine ·)).map indentation).min? with
  | none =>
    have hnone := List.map_eq_nil_iff.1 (List.min?_eq_none_iff.1 hmin)
    have hfilter := List.filter_eq_nil_iff.1 hnone seen hmem
    rw [hseen] at hfilter
    exact absurd rfl hfilter
  | some least =>
    obtain ⟨line, hline, hleast⟩ := List.mem_map.1 (List.min?_eq_some_iff.1 hmin).1
    obtain ⟨hline, hshown⟩ := List.mem_filter.1 hline
    refine ⟨line, hline, by simpa using hshown, ?_⟩
    rw [commonIndentation, hmin, hleast]
    rfl

/-- A number of spaces and tabs that lines have in common, and no more than that. -/
structure IsCommonIndentation (lines : List (List Char)) (m : Nat) : Prop where
  /-- The first `m` characters of a line that is not blank are spaces and tabs. -/
  indented : ∀ line ∈ lines, isBlankLine line = false →
    m ≤ line.length ∧ ∀ c ∈ line.take m, c = ' ' ∨ c = '\t'
  /-- One of these lines goes on with another character. -/
  reached : (∃ line ∈ lines, isBlankLine line = false) → ∃ line ∈ lines, isBlankLine line = false ∧
    ∃ c rest, line.drop m = c :: rest ∧ c ≠ ' ' ∧ c ≠ '\t'
  /-- Lines that are all blank have nothing in common. -/
  eq_zero : (∀ line ∈ lines, isBlankLine line = true) → m = 0

theorem isCommonIndentation_commonIndentation (lines : List (List Char)) :
    IsCommonIndentation lines (commonIndentation lines) where
  indented := by
    intro line hline hseen
    have hle := commonIndentation_le hline hseen
    exact ⟨Nat.le_trans hle (indentation_le_length line),
      fun c hc => isIndent_iff.1 (isIndent_of_mem_take hle c hc)⟩
  reached := by
    intro h
    obtain ⟨line, hline, hseen, heq⟩ := exists_indentation_eq h
    obtain ⟨c, rest, hdrop, hc⟩ := exists_behind_indentation hseen
    refine ⟨line, hline, hseen, c, rest, heq ▸ hdrop, ?_⟩
    exact not_or.1 (mt isIndent_iff.2 (by rw [hc]; decide))
  eq_zero := commonIndentation_of_blank

theorem IsCommonIndentation.eq_commonIndentation (h : IsCommonIndentation lines m) :
    m = commonIndentation lines := by
  by_cases hseen : ∃ line ∈ lines, isBlankLine line = false
  · obtain ⟨line, hline, hnot, c, rest, hdrop, hc⟩ := h.reached hseen
    have hindent : ∀ c ∈ line.take m, isIndent c = true :=
      fun c hc => isIndent_iff.2 ((h.indented line hline hnot).2 c hc)
    have hother : isIndent c = false := by
      rw [Bool.eq_false_iff]
      exact mt isIndent_iff.1 (not_or.2 hc)
    have hle := commonIndentation_le hline hnot
    rw [indentation_of_drop hindent hdrop hother] at hle
    obtain ⟨least, hleast, hnot', heq⟩ := exists_indentation_eq hseen
    obtain ⟨hlength, htake⟩ := h.indented least hleast hnot'
    have hge : m ≤ indentation least := by
      have happend := indentation_append (fun c hc => isIndent_iff.2 (htake c hc)) (least.drop m)
      rw [List.take_append_drop, List.length_take_of_le hlength] at happend
      omega
    omega
  · have hblank : ∀ line ∈ lines, isBlankLine line = true := by
      intro line hline
      rw [← Bool.not_eq_false]
      exact fun hnot => hseen ⟨line, hline, hnot⟩
    rw [h.eq_zero hblank, commonIndentation_of_blank hblank]

theorem isCommonIndentation_iff : IsCommonIndentation lines m ↔ m = commonIndentation lines :=
  ⟨IsCommonIndentation.eq_commonIndentation, fun h => h ▸ isCommonIndentation_commonIndentation lines⟩

/-! ### The result in terms of lines -/

/-- The text begins with a line break. -/
def BeginsWithBreak (text : List Char) : Prop := ['\n'] <+: text ∨ ['\r', '\n'] <+: text

theorem opensEmpty_iff_beginsWithBreak : opensEmpty text = true ↔ BeginsWithBreak text := by
  unfold BeginsWithBreak opensEmpty
  split
  next rest => simp
  next rest => simp
  next hfeed hreturn =>
    have hnot : ¬ (['\n'] <+: text ∨ ['\r', '\n'] <+: text) := by
      rintro (⟨rest, rfl⟩ | ⟨rest, rfl⟩)
      · exact hfeed rest rfl
      · exact hreturn rest rfl
    simpa using hnot

/-- Whether a text begins with a line break can be seen from its lines. -/
theorem beginsWithBreak_iff (h : splitAt '\n' text = first :: lines) :
    BeginsWithBreak text ↔ lines ≠ [] ∧ (first = [] ∨ first = ['\r']) := by
  constructor
  · intro hbreak
    obtain ⟨opening, rest, rfl, hopening⟩ :
        ∃ opening rest, text = opening ++ '\n' :: rest ∧ (opening = [] ∨ opening = ['\r']) := by
      rcases hbreak with ⟨rest, rfl⟩ | ⟨rest, rfl⟩
      · exact ⟨[], rest, rfl, Or.inl rfl⟩
      · exact ⟨['\r'], rest, rfl, Or.inr rfl⟩
    have hnot : '\n' ∉ opening := by
      rcases hopening with rfl | rfl <;> decide
    rw [splitAt_append_cons hnot] at h
    obtain ⟨rfl, rfl⟩ := List.cons.inj h
    exact ⟨splitAt_ne_nil '\n' rest, hopening⟩
  · rintro ⟨hlines, hfirst⟩
    obtain ⟨next, others, rfl⟩ := List.exists_cons_of_ne_nil hlines
    have htext := intercalate_splitAt '\n' text
    rw [h, List.intercalate_cons_cons, List.append_assoc] at htext
    rcases hfirst with rfl | rfl
    · exact Or.inl ⟨_, htext⟩
    · exact Or.inr ⟨_, htext⟩

/-- What is kept of the opening line: nothing if there is nothing on it and another line follows. -/
def keptOpening (first : List Char) (lines : List (List Char)) : List (List Char) :=
  if lines ≠ [] ∧ (first = [] ∨ first = ['\r']) then [] else [first]

theorem keptOpening_append_ne_nil (first : List Char) (lines : List (List Char)) :
    keptOpening first lines ++ unindentLines lines ≠ [] := by
  unfold keptOpening
  split
  next hempty => simpa [unindentLines] using hempty.1
  next => exact List.cons_ne_nil first _

theorem unindentChars_eq (h : splitAt '\n' text = first :: lines) :
    unindentChars text = List.intercalate ['\n'] (keptOpening first lines ++ unindentLines lines) := by
  have hopens := opensEmpty_iff_beginsWithBreak.trans (beginsWithBreak_iff h)
  unfold unindentChars keptOpening
  simp only [h, hopens]
  split <;> rfl

/-- No line break is lost but that of the opening line. -/
theorem splitAt_unindentChars (h : splitAt '\n' text = first :: lines) :
    splitAt '\n' (unindentChars text) = keptOpening first lines ++ unindentLines lines := by
  have hpieces : ∀ piece ∈ first :: lines, '\n' ∉ piece := fun piece hpiece =>
    not_mem_of_mem_splitAt (h ▸ hpiece)
  rw [unindentChars_eq h]
  refine splitAt_intercalate (keptOpening_append_ne_nil first lines) fun piece hpiece => ?_
  rcases List.mem_append.1 hpiece with hfirst | hrest
  · unfold keptOpening at hfirst
    split at hfirst
    · exact absurd hfirst List.not_mem_nil
    · exact hpieces piece (List.mem_singleton.1 hfirst ▸ List.mem_cons_self)
  · obtain ⟨line, hline, rfl⟩ := List.mem_map.1 hrest
    exact fun hfeed => hpieces line (List.mem_cons_of_mem first hline) (List.mem_of_mem_drop hfeed)

/-! ### Texts without their common indentation -/

/-- The text `out` is the text without the indentation that its lines after the first have in common. If the
text begins with a line break, the opening line is left out together with that break; otherwise it is kept as
it is. Each other line is a line of `out`, without as many characters as the lines have spaces and tabs in
common. -/
def IsUnindented (text out : List Char) : Prop :=
  ∃ first lines m, splitAt '\n' text = first :: lines ∧ IsCommonIndentation lines m ∧
    (BeginsWithBreak text → splitAt '\n' out = lines.map (·.drop m)) ∧
    (¬ BeginsWithBreak text → splitAt '\n' out = first :: lines.map (·.drop m))

theorem isUnindented_unindentChars (text : List Char) : IsUnindented text (unindentChars text) := by
  obtain ⟨first, lines, h⟩ := List.exists_cons_of_ne_nil (splitAt_ne_nil '\n' text)
  refine ⟨first, lines, commonIndentation lines, h, isCommonIndentation_iff.2 rfl,
    fun hbreak => ?_, fun hbreak => ?_⟩
  · rw [splitAt_unindentChars h, keptOpening, if_pos ((beginsWithBreak_iff h).1 hbreak)]
    rfl
  · rw [splitAt_unindentChars h, keptOpening, if_neg (mt (beginsWithBreak_iff h).2 hbreak)]
    rfl

theorem IsUnindented.eq_unindentChars {out : List Char} (h : IsUnindented text out) :
    out = unindentChars text := by
  obtain ⟨first, lines, m, hsplit, hcommon, hbroken, hwhole⟩ := h
  obtain rfl := isCommonIndentation_iff.1 hcommon
  have hlines : splitAt '\n' out = splitAt '\n' (unindentChars text) := by
    rw [splitAt_unindentChars hsplit, keptOpening]
    split
    next hempty => exact hbroken ((beginsWithBreak_iff hsplit).2 hempty)
    next hempty => exact hwhole (mt (beginsWithBreak_iff hsplit).1 hempty)
  exact splitAt_inj.1 hlines

/-- Removing the common indentation gives the text without it, and there is no other text of that kind. -/
theorem unindent_eq_iff_isUnindented {source result : String} :
    unindent source = result ↔ IsUnindented source.toList result.toList := by
  constructor
  · rintro rfl
    rw [unindent, String.toList_ofList]
    exact isUnindented_unindentChars source.toList
  · intro h
    rw [unindent, ← h.eq_unindentChars, String.ofList_toList]

/-! ### Indented blocks -/

/-- The text with an indentation in front of each line after the first. -/
def indentBy (indents : List (List Char)) (source : String) : String :=
  let lines := splitAt '\n' source.toList
  String.ofList (List.intercalate ['\n'] (lines.take 1 ++ List.zipWith (· ++ ·) indents lines.tail))

section Blocks

variable {block : List (List Char × List Char)}

/-- What the lines of a block have in common grows by the indentation in front of them. -/
theorem isCommonIndentation_indented
    (hindents : ∀ p ∈ block, p.1.length = k ∧ ∀ c ∈ p.1, isIndent c = true)
    (hseen : ∃ line ∈ block.map (·.2), isBlankLine line = false)
    (h : IsCommonIndentation (block.map (·.2)) m) :
    IsCommonIndentation (block.map fun p => p.1 ++ p.2) (k + m) where
  indented := by
    intro line hline hnot
    obtain ⟨p, hp, rfl⟩ := List.mem_map.1 hline
    obtain ⟨rfl, hindent⟩ := hindents p hp
    rw [isBlankLine_append hindent] at hnot
    obtain ⟨hlength, htake⟩ := h.indented p.2 (List.mem_map_of_mem hp) hnot
    rw [List.length_append, List.take_length_add_append]
    refine ⟨Nat.add_le_add_left hlength _, fun c hc => ?_⟩
    rcases List.mem_append.1 hc with hc | hc
    · exact isIndent_iff.1 (hindent c hc)
    · exact htake c hc
  reached := by
    intro _
    obtain ⟨line, hline, hnot, c, rest, hdrop, hc⟩ := h.reached hseen
    obtain ⟨p, hp, rfl⟩ := List.mem_map.1 hline
    obtain ⟨rfl, hindent⟩ := hindents p hp
    refine ⟨p.1 ++ p.2, List.mem_map_of_mem hp, (isBlankLine_append hindent p.2).trans hnot, c, rest, ?_, hc⟩
    rw [List.drop_length_add_append]
    exact hdrop
  eq_zero := by
    intro hblank
    obtain ⟨line, hline, hnot⟩ := hseen
    obtain ⟨p, hp, rfl⟩ := List.mem_map.1 hline
    have hp' := hblank (p.1 ++ p.2) (List.mem_map_of_mem hp)
    rw [isBlankLine_append (hindents p hp).2, hnot] at hp'
    cases hp'

theorem unindentLines_indented
    (hindents : ∀ p ∈ block, p.1.length = k ∧ ∀ c ∈ p.1, isIndent c = true)
    (hseen : ∃ line ∈ block.map (·.2), isBlankLine line = false) :
    unindentLines (block.map fun p => p.1 ++ p.2) = unindentLines (block.map (·.2)) := by
  have hcommon := isCommonIndentation_indented hindents hseen (isCommonIndentation_iff.2 rfl)
  unfold unindentLines
  simp only [← isCommonIndentation_iff.1 hcommon, List.map_map]
  refine List.map_congr_left fun p hp => ?_
  obtain ⟨rfl, -⟩ := hindents p hp
  exact List.drop_length_add_append _

end Blocks

/-- The lines of the indented text: no indentation breaks a line. -/
theorem splitAt_indentBy {source : String} {indents : List (List Char)}
    (hindents : ∀ indent ∈ indents, ∀ c ∈ indent, isIndent c = true)
    (h : splitAt '\n' source.toList = first :: lines) :
    splitAt '\n' (indentBy indents source).toList = first :: List.zipWith (· ++ ·) indents lines := by
  have hpieces : ∀ piece ∈ first :: lines, '\n' ∉ piece := fun piece hpiece =>
    not_mem_of_mem_splitAt (h ▸ hpiece)
  rw [indentBy, String.toList_ofList, h]
  refine splitAt_intercalate (List.cons_ne_nil first _) fun piece hpiece => ?_
  rcases List.mem_cons.1 hpiece with rfl | hpiece
  · exact hpieces piece List.mem_cons_self
  · rw [List.tail_cons, ← List.map_uncurry_zip_eq_zipWith] at hpiece
    obtain ⟨p, hp, rfl⟩ := List.mem_map.1 hpiece
    intro hfeed
    rcases List.mem_append.1 hfeed with hfeed | hfeed
    · exact absurd (hindents p.1 (List.of_mem_zip hp).1 '\n' hfeed) (by decide)
    · exact hpieces p.2 (List.mem_cons_of_mem first (List.of_mem_zip hp).2) hfeed

/-- However deeply the lines after the first are indented together, the result is the same, as long as one of
them is not blank. The spaces and tabs of the indentation may be mixed differently on each line. -/
theorem unindent_indentBy {source : String} {indents : List (List Char)}
    (hlength : indents.length = (splitAt '\n' source.toList).tail.length)
    (hindents : ∀ indent ∈ indents, indent.length = k ∧ ∀ c ∈ indent, c = ' ' ∨ c = '\t')
    (hseen : ∃ line ∈ (splitAt '\n' source.toList).tail, isBlankLine line = false) :
    unindent (indentBy indents source) = unindent source := by
  obtain ⟨first, lines, hsplit⟩ := List.exists_cons_of_ne_nil (splitAt_ne_nil '\n' source.toList)
  rw [hsplit, List.tail_cons] at hlength hseen
  have hspaces : ∀ indent ∈ indents, ∀ c ∈ indent, isIndent c = true :=
    fun indent hindent c hc => isIndent_iff.2 ((hindents indent hindent).2 c hc)
  have hblock : ∀ p ∈ indents.zip lines, p.1.length = k ∧ ∀ c ∈ p.1, isIndent c = true := by
    intro p hp
    have hindent := (List.of_mem_zip hp).1
    exact ⟨(hindents p.1 hindent).1, hspaces p.1 hindent⟩
  have hlines : (indents.zip lines).map (·.2) = lines := List.map_snd_zip (Nat.le_of_eq hlength.symm)
  have hindented := splitAt_indentBy hspaces hsplit
  rw [← List.map_uncurry_zip_eq_zipWith] at hindented
  have hunindent := unindentLines_indented hblock (hlines.symm ▸ hseen)
  -- There is a line after the first in both texts, so both keep the opening line or neither does.
  have hkept : keptOpening first ((indents.zip lines).map fun p => p.1 ++ p.2) = keptOpening first lines := by
    have hne : lines ≠ [] := by
      obtain ⟨line, hline, -⟩ := hseen
      exact List.ne_nil_of_mem hline
    have hzip : indents.zip lines ≠ [] := fun hnil => hne (by rw [← hlines, hnil, List.map_nil])
    have hmap : ((indents.zip lines).map fun p => p.1 ++ p.2) ≠ [] := mt List.map_eq_nil_iff.1 hzip
    simp only [keptOpening, ne_eq, hne, hmap]
  calc unindent (indentBy indents source)
      = String.ofList (unindentChars (indentBy indents source).toList) := rfl
    _ = String.ofList (List.intercalate ['\n'] (keptOpening first lines ++ unindentLines lines)) := by
      rw [unindentChars_eq hindented]
      simp only [Function.uncurry_def]
      rw [hkept, hunindent, hlines]
    _ = unindent source := by rw [← unindentChars_eq hsplit, unindent]

/-- Three lines, one of them blank, behind two characters each: the result keeps the one space that the second
line has more than the last one. -/
theorem unindent_indentBy_mixed_tabs :
    unindent "s:\n\t   a\n \t\n   b" = unindent "s:\n  a\n\n b" ∧
      unindent "s:\n  a\n\n b" = "s:\n a\n\nb" := by
  have hindented : indentBy [['\t', ' '], [' ', '\t'], [' ', ' ']] "s:\n  a\n\n b" =
      "s:\n\t   a\n \t\n   b" := by
    decide +kernel
  have hsame := @unindent_indentBy 2 "s:\n  a\n\n b" [['\t', ' '], [' ', '\t'], [' ', ' ']]
    (by decide +kernel) (by simp) (by decide +kernel)
  rw [hindented] at hsame
  exact ⟨hsame, by decide +kernel⟩

end ConfigLang.Text
