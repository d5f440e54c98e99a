import ConfigLang.Proofs.Text.Indentation

/-!
# Indented texts with carriage returns

A document may end its lines with a carriage return and a line feed. A carriage return in front of a line
feed then stands at the end of a line: it is blank and no part of an indentation, so what lines have in
common does not depend on it. But a blank line that is shorter than the common indentation becomes empty,
and loses its carriage return.

* `crlf` - the text with a carriage return in front of each line feed.
* `endLines` - lines with a carriage return at the end of each but the last.
* `splitAt_crlfChars` - these are the lines of a text with carriage returns.
* `unindent_crlf_iff` - when removing the common indentation keeps all carriage returns.
* `short_blank_line_loses_its_return` - a text with which it does not.
-/

namespace ConfigLang.Text

variable {text line : List Char} {lines : List (List Char)} {m : Nat}

/-! ### Texts with carriage returns -/

/-- The characters with a carriage return in front of each line feed. -/
def crlfChars (text : List Char) : List Char :=
  text.flatMap fun c => if c = '\n' then ['\r', '\n'] else [c]

/-- The text with a carriage return in front of each line feed. -/
def crlf (text : String) : String := String.ofList (crlfChars text.toList)

/-- The lines with a carriage return at the end of each but the last. -/
def endLines : List (List Char) → List (List Char)
  | [] => []
  | [last] => [last]
  | line :: next :: lines => (line ++ ['\r']) :: endLines (next :: lines)

theorem endLines_cons (line : List Char) (h : lines ≠ []) :
    endLines (line :: lines) = (line ++ ['\r']) :: endLines lines := by
  obtain ⟨next, lines, rfl⟩ := List.exists_cons_of_ne_nil h
  rw [endLines]

theorem endLines_ne_nil (h : lines ≠ []) : endLines lines ≠ [] := by
  obtain ⟨line, lines, rfl⟩ := List.exists_cons_of_ne_nil h
  cases lines with
  | nil => exact List.cons_ne_nil line []
  | cons next lines => exact List.cons_ne_nil _ _

/-- The lines of a text with carriage returns. -/
theorem splitAt_crlfChars (text : List Char) : splitAt '\n' (crlfChars text) = endLines (splitAt '\n' text) := by
  induction text with
  | nil => rfl
  | cons c rest ih =>
    rw [crlfChars] at ih ⊢
    rw [List.flatMap_cons]
    by_cases hc : c = '\n'
    · have hsplit := splitAt_append_cons (show '\n' ∉ ['\r'] by decide) (crlfChars rest)
      rw [hc, if_pos rfl, splitAt, if_pos rfl, endLines_cons [] (splitAt_ne_nil '\n' rest), ← ih]
      exact hsplit
    · obtain ⟨piece, pieces, hsplit⟩ := List.exists_cons_of_ne_nil (splitAt_ne_nil '\n' rest)
      rw [if_neg hc, List.singleton_append, splitAt, if_neg hc, ih, splitAt, if_neg hc, hsplit]
      cases pieces with
      | nil => rfl
      | cons next pieces => rfl

/-! ### What lines have in common -/

theorem isBlankLine_append_return (line : List Char) : isBlankLine (line ++ ['\r']) = isBlankLine line := by
  have hreturn : ['\r'].all isBlank = true := by
    decide
  rw [isBlankLine, List.all_append, hreturn, Bool.and_true, isBlankLine]

theorem indentation_append_return (line : List Char) : indentation (line ++ ['\r']) = indentation line := by
  have hreturn : ['\r'].takeWhile isIndent = [] := by
    decide
  rw [indentation, List.takeWhile_append, hreturn, List.append_nil]
  split
  next hall => rw [← hall, indentation]
  next => rw [indentation]

/-- What lines have in common does not depend on carriage returns at their ends. -/
theorem commonIndentation_endLines (lines : List (List Char)) :
    commonIndentation (endLines lines) = commonIndentation lines := by
  have hsame : ((endLines lines).filter (!isBlankLine ·)).map indentation =
      (lines.filter (!isBlankLine ·)).map indentation := by
    induction lines using endLines.induct with
    | case1 => rfl
    | case2 last => rfl
    | case3 line next lines ih =>
      rw [endLines, List.filter_cons, List.filter_cons, isBlankLine_append_return]
      split
      · rw [List.map_cons, List.map_cons, indentation_append_return, ih]
      · exact ih
  rw [commonIndentation, hsame, commonIndentation]

/-! ### Lines that are cut -/

/-- A line keeps its carriage return if it is not shorter than what is cut off. -/
theorem drop_append_return_iff : (line ++ ['\r']).drop m = line.drop m ++ ['\r'] ↔ m ≤ line.length := by
  constructor
  · intro h
    have hlength := congrArg List.length h
    simp only [List.length_drop, List.length_append, List.length_singleton] at hlength
    omega
  · exact fun hle => List.drop_append_of_le_length hle

theorem map_drop_endLines_iff :
    (endLines lines).map (·.drop m) = endLines (lines.map (·.drop m)) ↔
      ∀ line ∈ lines.dropLast, m ≤ line.length := by
  induction lines using endLines.induct with
  | case1 => simp [endLines]
  | case2 last => simp [endLines]
  | case3 line next lines ih =>
    have hne : (next :: lines).map (·.drop m) ≠ [] := List.cons_ne_nil _ _
    rw [List.dropLast_cons_cons, List.forall_mem_cons, ← ih, ← drop_append_return_iff, endLines,
      List.map_cons, List.map_cons, endLines_cons _ hne, List.cons.injEq]

/-! ### Carriage returns left out -/

/-- The characters without the carriage returns. -/
def withoutReturns (text : List Char) : List Char := text.filter (· ≠ '\r')

theorem withoutReturns_of_not_mem (h : '\r' ∉ text) : withoutReturns text = text :=
  List.filter_eq_self.2 fun _ hc => decide_eq_true fun hreturn => h (hreturn ▸ hc)

theorem withoutReturns_append (text behind : List Char) :
    withoutReturns (text ++ behind) = withoutReturns text ++ withoutReturns behind :=
  List.filter_append text behind

theorem withoutReturns_intercalate (lines : List (List Char)) :
    withoutReturns (List.intercalate ['\n'] lines) = List.intercalate ['\n'] (lines.map withoutReturns) := by
  induction lines with
  | nil => rfl
  | cons line lines ih =>
    cases lines with
    | nil => rw [List.map_singleton, List.intercalate_singleton, List.intercalate_singleton]
    | cons next lines =>
      rw [List.map_cons] at ih
      rw [List.map_cons, List.map_cons, List.intercalate_cons_cons, List.intercalate_cons_cons,
        withoutReturns_append, withoutReturns_append, ih]
      rfl

/-- Whether or not a line loses its carriage return, it loses the same characters otherwise. -/
theorem withoutReturns_drop_append_return (h : '\r' ∉ line) :
    withoutReturns ((line ++ ['\r']).drop m) = line.drop m := by
  have hline : '\r' ∉ line.drop m := mt List.mem_of_mem_drop h
  rw [List.drop_append, withoutReturns_append, withoutReturns_of_not_mem hline]
  cases m - line.length with
  | zero => exact List.append_nil _
  | succ n => rw [List.drop_succ_cons, List.drop_nil]; exact List.append_nil _

theorem map_withoutReturns_drop_endLines (h : ∀ line ∈ lines, '\r' ∉ line) :
    ((endLines lines).map (·.drop m)).map withoutReturns = lines.map (·.drop m) := by
  induction lines using endLines.induct with
  | case1 => rfl
  | case2 last =>
    have hlast : '\r' ∉ last.drop m := mt List.mem_of_mem_drop (h last List.mem_cons_self)
    rw [endLines, List.map_singleton, List.map_singleton, withoutReturns_of_not_mem hlast]
  | case3 line next lines ih =>
    obtain ⟨hline, hrest⟩ := List.forall_mem_cons.1 h
    rw [endLines, List.map_cons, List.map_cons, List.map_cons, ih hrest, withoutReturns_drop_append_return hline]

/-! ### The result -/

theorem map_withoutReturns_keptOpening {first : List Char} (h : '\r' ∉ first) :
    ((keptOpening first lines).map (· ++ ['\r'])).map withoutReturns = keptOpening first lines := by
  unfold keptOpening
  split
  · rfl
  · rw [List.map_singleton, List.map_singleton, withoutReturns_append, withoutReturns_of_not_mem h]
    exact congrArg (fun first => [first]) (List.append_nil first)

/-- An opening line with a carriage return is left out in the same cases as without. -/
theorem keptOpening_append_return {first : List Char} (h : '\r' ∉ first) (hlines : lines ≠ []) :
    keptOpening (first ++ ['\r']) (endLines lines) = (keptOpening first lines).map (· ++ ['\r']) := by
  have hfirst : first ≠ ['\r'] := fun hreturn => h (hreturn ▸ List.mem_cons_self)
  have hempty : first ++ ['\r'] = ['\r'] ↔ first = [] := List.append_left_eq_self
  have hne : first ++ ['\r'] ≠ [] := List.append_ne_nil_of_right_ne_nil first (List.cons_ne_nil _ _)
  have hended := endLines_ne_nil hlines
  unfold keptOpening
  simp only [ne_eq, hended, hlines, hne, hempty, hfirst, not_false_eq_true, true_and, false_or, or_false]
  split <;> rfl

theorem endLines_keptOpening_append {first : List Char} {behind : List (List Char)} (hbehind : behind ≠ []) :
    endLines (keptOpening first lines ++ behind) =
      (keptOpening first lines).map (· ++ ['\r']) ++ endLines behind := by
  unfold keptOpening
  split
  · rfl
  · exact endLines_cons first hbehind

/-- A text of several lines with carriage returns. -/
theorem splitAt_unindentChars_crlfChars {first : List Char} (hreturn : '\r' ∉ first) (hlines : lines ≠ [])
    (h : splitAt '\n' text = first :: lines) :
    splitAt '\n' (unindentChars (crlfChars text)) =
      (keptOpening first lines).map (· ++ ['\r']) ++ (endLines lines).map (·.drop (commonIndentation lines)) := by
  have hsplit := splitAt_crlfChars text
  rw [h, endLines_cons first hlines] at hsplit
  rw [splitAt_unindentChars hsplit, keptOpening_append_return hreturn hlines, unindentLines,
    commonIndentation_endLines]

/-- A text of one line has no line feed. -/
theorem crlfChars_of_singleton {first : List Char} (h : splitAt '\n' text = [first]) :
    crlfChars text = text := by
  rw [← splitAt_inj, splitAt_crlfChars, h, endLines]

theorem unindentChars_of_singleton {first : List Char} (h : splitAt '\n' text = [first]) :
    unindentChars text = text := by
  have htext := intercalate_splitAt '\n' text
  rw [h] at htext
  rw [unindentChars_eq h]
  exact htext

theorem unindentChars_crlfChars_iff {first : List Char} (hreturn : '\r' ∉ text)
    (h : splitAt '\n' text = first :: lines) :
    unindentChars (crlfChars text) = crlfChars (unindentChars text) ↔
      ∀ line ∈ lines.dropLast, commonIndentation lines ≤ line.length := by
  by_cases hlines : lines = []
  · subst hlines
    rw [unindentChars_of_singleton h, crlfChars_of_singleton h, unindentChars_of_singleton h]
    exact iff_of_true rfl fun line hline => absurd hline List.not_mem_nil
  · have hfirst : '\r' ∉ first := fun hmem =>
      hreturn (mem_and_ne_of_mem_splitAt (h ▸ List.mem_cons_self) hmem).1
    have hne : unindentLines lines ≠ [] := mt List.map_eq_nil_iff.1 hlines
    rw [← splitAt_inj, splitAt_unindentChars_crlfChars hfirst hlines h, splitAt_crlfChars,
      splitAt_unindentChars h, endLines_keptOpening_append hne, List.append_right_inj]
    exact map_drop_endLines_iff

theorem withoutReturns_unindentChars_crlfChars (hreturn : '\r' ∉ text) :
    withoutReturns (unindentChars (crlfChars text)) = unindentChars text := by
  obtain ⟨first, lines, h⟩ := List.exists_cons_of_ne_nil (splitAt_ne_nil '\n' text)
  have hpieces : ∀ piece ∈ first :: lines, '\r' ∉ piece := fun piece hpiece hmem =>
    hreturn (mem_and_ne_of_mem_splitAt (h ▸ hpiece) hmem).1
  by_cases hlines : lines = []
  · subst hlines
    rw [crlfChars_of_singleton h, unindentChars_of_singleton h, withoutReturns_of_not_mem hreturn]
  · obtain ⟨hfirst, hrest⟩ := List.forall_mem_cons.1 hpieces
    rw [← intercalate_splitAt '\n' (unindentChars (crlfChars text)),
      splitAt_unindentChars_crlfChars hfirst hlines h, withoutReturns_intercalate, List.map_append,
      map_withoutReturns_keptOpening hfirst, map_withoutReturns_drop_endLines hrest, unindentChars_eq h]
    rfl

/-- It makes no difference whether the common indentation is removed before or after carriage returns are put
in front of the line feeds, exactly if no line between the first and the last is shorter than that indentation.
Only a blank line can be. In any case the two results differ in carriage returns only. -/
theorem unindent_crlf_iff {source : String} (hreturn : '\r' ∉ source.toList) :
    (unindent (crlf source) = crlf (unindent source) ↔
      ∀ line ∈ (splitAt '\n' source.toList).tail.dropLast,
        commonIndentation (splitAt '\n' source.toList).tail ≤ line.length) ∧
    withoutReturns (unindent (crlf source)).toList = (unindent source).toList := by
  obtain ⟨first, lines, h⟩ := List.exists_cons_of_ne_nil (splitAt_ne_nil '\n' source.toList)
  constructor
  · rw [h, List.tail_cons, ← unindentChars_crlfChars_iff hreturn h]
    simp only [unindent, crlf, String.toList_ofList, String.ofList_inj]
  · simp only [unindent, crlf, String.toList_ofList]
    exact withoutReturns_unindentChars_crlfChars hreturn

/-- A blank line of three spaces is long enough for the common indentation of two, and keeps one of them in
front of its carriage return. -/
theorem unindent_crlf_with_long_blank_line :
    '\r' ∉ "\n  a\n   \n  b".toList ∧ unindent "\r\n  a\r\n   \r\n  b" = "a\r\n \r\nb" := by
  have hreturn : '\r' ∉ "\n  a\n   \n  b".toList := by
    decide +kernel
  have hlong : ∀ line ∈ (splitAt '\n' "\n  a\n   \n  b".toList).tail.dropLast,
      commonIndentation (splitAt '\n' "\n  a\n   \n  b".toList).tail ≤ line.length := by
    decide +kernel
  have hsame := (unindent_crlf_iff hreturn).1.2 hlong
  have hcrlf : crlf "\n  a\n   \n  b" = "\r\n  a\r\n   \r\n  b" := by
    decide +kernel
  have hresult : crlf (unindent "\n  a\n   \n  b") = "a\r\n \r\nb" := by
    decide +kernel
  rw [hcrlf, hresult] at hsame
  exact ⟨hreturn, hsame⟩

/-- An empty line in front of an indented one has no space that could be removed, and the carriage return is
removed in place of it. -/
theorem short_blank_line_loses_its_return :
    '\r' ∉ "\n\n a".toList ∧ unindent (crlf "\n\n a") = "\na" ∧ crlf (unindent "\n\n a") = "\r\na" ∧
      ¬ ∀ source : String, '\r' ∉ source.toList → unindent (crlf source) = crlf (unindent source) := by
  have hreturn : '\r' ∉ "\n\n a".toList := by
    decide +kernel
  have hshort : unindent (crlf "\n\n a") = "\na" := by
    decide +kernel
  have hlong : crlf (unindent "\n\n a") = "\r\na" := by
    decide +kernel
  refine ⟨hreturn, hshort, hlong, fun hall => ?_⟩
  have hsame := hall "\n\n a" hreturn
  rw [hshort, hlong] at hsame
  exact absurd hsame (by decide)

end ConfigLang.Text
