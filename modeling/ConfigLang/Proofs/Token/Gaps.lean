import ConfigLang.Token.Cursor

/-!
# Gaps

What may stand between two tokens outside string literals: spaces, and comments that last to the end of
their line. The gap skipped in front of a token is the longest one there.

* `IsGap` - the runs of spaces and comments in front of a text.
* `IsLongestGap` - such a run that no other one is longer than.
* `gap_behind_gap` - a gap is skipped once and for all.
* `gap_true_eq` - a comment, up to the line break behind it.
* `isLongestGap_gap` - the gap that is skipped.
* `IsLongestGap.eq` - there is one longest gap.
* `IsGap.gap_append` - a gap in front of another text.
* `gap_append_eq_nil` - no gap in front of a token, whatever stands behind it.

A comment takes everything up to the end of its line, so what stands behind it matters: `IsGap` speaks of
a gap together with the text behind the gap.
-/

namespace ConfigLang

/-! ### Runs of spaces and comments -/

/-- The text is empty or begins with a line break. -/
def EndsLine (text : List Char) : Prop :=
  ∀ c, text.head? = some c → c = '\n'

/-- Spaces and comments, one after the other, with a text behind them. -/
inductive IsGap : List Char → List Char → Prop
  | nil {behind : List Char} : IsGap [] behind
  | space {c : Char} {rest behind : List Char} (hc : Lexeme.isSpace c = true)
    (hrest : IsGap rest behind) : IsGap (c :: rest) behind
  /-- Two slashes and the rest of their line, without its line break. -/
  | comment {line rest behind : List Char} (hline : ∀ c ∈ line, c ≠ '\n')
    (hend : EndsLine (rest ++ behind)) (hrest : IsGap rest behind) :
    IsGap ('/' :: '/' :: (line ++ rest)) behind

/-- A run of spaces and comments that is the longest at the start of the text. -/
structure IsLongestGap (run behind : List Char) : Prop where
  isGap : IsGap run behind
  longest : ∀ other rest, other ++ rest = run ++ behind → IsGap other rest →
    other.length ≤ run.length

/-! ### What is skipped -/

section Skipping

variable {text : List Char}

theorem gap_isPrefix (inComment : Bool) (text : List Char) : gap inComment text <+: text := by
  fun_induction gap inComment text with
  | case1 => exact List.nil_prefix
  | case2 c rest ih => exact List.cons_prefix_cons.2 ⟨rfl, ih⟩
  | case3 rest ih => simpa using ih
  | case4 c rest _ _ ih => exact List.cons_prefix_cons.2 ⟨rfl, ih⟩
  | case5 => exact List.nil_prefix

/-- The gap with what is left behind it is the whole text. -/
theorem gap_append_drop (text : List Char) :
    gap false text ++ text.drop (gap false text).length = text := by
  obtain ⟨behind, h⟩ := gap_isPrefix false text
  have hdrop : text.drop (gap false text).length = behind := by
    conv => lhs; arg 2; rw [← h]
    exact List.drop_left
  rw [hdrop, h]

/-- Behind a gap there is none. -/
theorem gap_behind_gap {inComment : Bool} {text behind : List Char}
    (h : text = gap inComment text ++ behind) : gap false behind = [] := by
  fun_induction gap inComment text with
  | case1 => rw [(List.append_eq_nil_iff.1 h.symm).2, gap]
  | case2 c rest ih => exact ih (List.cons.inj h).2
  | case3 rest ih => exact ih (List.cons.inj (List.cons.inj h).2).2
  | case4 c rest _ _ ih => exact ih (List.cons.inj h).2
  | case5 c rest hcomment hspace =>
    rw [List.nil_append] at h
    rw [← h, gap, if_neg hspace]
    exact hcomment

theorem gap_space {c : Char} (hc : Lexeme.isSpace c = true) (rest : List Char) :
    gap false (c :: rest) = c :: gap false rest := by
  have hslash : c ≠ '/' := by
    rintro rfl
    exact absurd hc (by decide)
  rw [gap, if_pos hc]
  intro tail heq
  exact absurd heq hslash

/-- Skipping a comment takes the rest of its line and goes on with the line break. -/
theorem gap_true_eq {line rest : List Char} (hline : ∀ c ∈ line, c ≠ '\n') (hend : EndsLine rest) :
    gap true (line ++ rest) = line ++ gap false rest := by
  induction line with
  | nil =>
    cases rest with
    | nil => rfl
    | cons c rest =>
      obtain rfl := hend c rfl
      rw [List.nil_append, List.nil_append, gap_space rfl, gap]
      rfl
  | cons c line ih =>
    have hc : (c != '\n') = true := bne_iff_ne.2 (hline c List.mem_cons_self)
    rw [List.cons_append, gap, hc, ih fun d hd => hline d (List.mem_cons_of_mem c hd)]
    rfl

/-- A text is the rest of a line and what begins with the break behind it. -/
theorem exists_line (text : List Char) :
    ∃ line rest, text = line ++ rest ∧ (∀ c ∈ line, c ≠ '\n') ∧ EndsLine rest := by
  refine ⟨text.takeWhile (· != '\n'), text.dropWhile (· != '\n'),
    List.takeWhile_append_dropWhile.symm, ?_, ?_⟩
  · intro c hc
    have hline := List.all_eq_true.1 (List.all_takeWhile (p := (· != '\n')) (l := text)) c hc
    exact bne_iff_ne.1 hline
  · intro c hc
    have hend := List.head?_dropWhile_not (· != '\n') text
    rw [hc] at hend
    simpa using hend

/-- The gap is a run of spaces and comments. -/
theorem isGap_gap (text : List Char) :
    IsGap (gap false text) (text.drop (gap false text).length) := by
  -- A comment ends behind an arbitrary number of characters, so the induction is on the length.
  induction hlength : text.length using Nat.strongRecOn generalizing text with
  | _ n ih =>
    subst hlength
    by_cases hcomment : ∃ rest, text = '/' :: '/' :: rest
    · obtain ⟨body, rfl⟩ := hcomment
      obtain ⟨line, rest, rfl, hline, hend⟩ := exists_line body
      have hrest := ih rest.length (by simp; omega) rest rfl
      have hgap : gap false ('/' :: '/' :: (line ++ rest)) =
          '/' :: '/' :: (line ++ gap false rest) := by
        rw [gap, gap_true_eq hline hend]
      have hdrop : ('/' :: '/' :: (line ++ rest)).drop
          ('/' :: '/' :: (line ++ gap false rest)).length = rest.drop (gap false rest).length := by
        rw [List.length_cons, List.length_cons, List.drop_succ_cons, List.drop_succ_cons,
          List.length_append, List.drop_length_add_append]
      rw [hgap, hdrop]
      refine .comment hline ?_ hrest
      rwa [gap_append_drop]
    · cases text with
      | nil => exact .nil
      | cons c rest =>
        cases hc : Lexeme.isSpace c with
        | true =>
          rw [gap_space hc]
          exact .space hc (ih rest.length (by simp) rest rfl)
        | false =>
          have hgap : gap false (c :: rest) = [] := by
            rw [gap, if_neg (by simp [hc])]
            intro tail hc heq
            exact hcomment ⟨tail, by rw [hc, heq]⟩
          rw [hgap]
          exact .nil

/-- No run of spaces and comments is longer than the gap. -/
theorem IsGap.length_le {run behind : List Char} (h : IsGap run behind) :
    run.length ≤ (gap false (run ++ behind)).length := by
  induction h with
  | nil => exact Nat.zero_le _
  | space hc _ ih =>
    rw [List.cons_append, gap_space hc]
    exact Nat.succ_le_succ ih
  | @comment line rest behind hline hend _ ih =>
    have hgap : gap false ('/' :: '/' :: (line ++ rest) ++ behind) =
        '/' :: '/' :: (line ++ gap false (rest ++ behind)) := by
      rw [List.cons_append, List.cons_append, List.append_assoc, gap, gap_true_eq hline hend]
    rw [hgap]
    simpa using ih

/-- What is skipped in front of a token is the longest run of spaces and comments there. -/
theorem isLongestGap_gap (text : List Char) :
    IsLongestGap (gap false text) (text.drop (gap false text).length) := by
  refine ⟨isGap_gap text, fun other rest heq hother => ?_⟩
  have hle := hother.length_le
  rwa [heq, gap_append_drop] at hle

end Skipping

/-! ### Gaps in front of other texts -/

theorem gap_append_of_spaces {spaces : List Char} (hspaces : ∀ c ∈ spaces, Lexeme.isSpace c = true)
    (text : List Char) : gap false (spaces ++ text) = spaces ++ gap false text := by
  induction spaces with
  | nil => rfl
  | cons c spaces ih =>
    rw [List.cons_append, gap_space (hspaces c List.mem_cons_self),
      ih fun d hd => hspaces d (List.mem_cons_of_mem c hd), List.cons_append]

/-- Whether spaces and comments go on behind a gap is seen from the first character there. -/
theorem IsGap.gap_append {run behind text : List Char} (h : IsGap run behind)
    (hfirst : text.head? = behind.head?) : gap false (run ++ text) = run ++ gap false text := by
  induction h with
  | nil => rfl
  | space hc _ ih => rw [List.cons_append, gap_space hc, ih hfirst, List.cons_append]
  | @comment line rest behind hline hend _ ih =>
    have hend' : EndsLine (rest ++ text) := by
      cases rest with
      | nil => exact fun c hc => hend c (hfirst ▸ hc)
      | cons d rest => exact hend
    rw [List.cons_append, List.cons_append, List.append_assoc, gap, gap_true_eq hline hend', ih hfirst,
      ← List.append_assoc, ← List.cons_append, ← List.cons_append]

theorem gap_eq_nil_iff {text : List Char} :
    gap false text = [] ↔
      (∀ c, text.head? = some c → Lexeme.isSpace c = false) ∧ ∀ rest, text ≠ '/' :: '/' :: rest := by
  constructor
  · intro h
    refine ⟨fun c hc => ?_, fun rest heq => ?_⟩
    · obtain ⟨rest, rfl⟩ := List.head?_eq_some_iff.1 hc
      refine Bool.eq_false_iff.2 fun hspace => ?_
      rw [gap_space hspace] at h
      cases h
    · rw [heq, gap] at h
      cases h
  · rintro ⟨hspace, hcomment⟩
    cases text with
    | nil => rfl
    | cons c rest =>
      rw [gap, if_neg (by simp [hspace c rfl])]
      rintro tail hc rfl
      exact hcomment tail (by rw [hc])

/-- In front of a token there is still no gap if another text stands behind it, unless two slashes come
together. -/
theorem gap_append_eq_nil {spelling behind text : List Char} (hne : spelling ≠ [])
    (h : gap false (spelling ++ behind) = []) (htext : text.head? = some '/' → behind.head? = some '/') :
    gap false (spelling ++ text) = [] := by
  obtain ⟨hspace, hslash⟩ := gap_eq_nil_iff.1 h
  obtain ⟨first, more, rfl⟩ := List.exists_cons_of_ne_nil hne
  refine gap_eq_nil_iff.2 ⟨fun c hc => hspace c hc, fun rest heq => ?_⟩
  cases more with
  | nil =>
    obtain ⟨rfl, rfl⟩ := List.cons.inj heq
    obtain ⟨tail, htail⟩ := List.head?_eq_some_iff.1 (htext rfl)
    exact hslash tail (by rw [htail]; rfl)
  | cons second more =>
    simp only [List.cons_append, List.cons.injEq] at heq
    exact hslash (more ++ behind) (by rw [heq.1, heq.2.1]; rfl)

theorem IsLongestGap.eq {run run' behind behind' : List Char} (h : IsLongestGap run behind)
    (h' : IsLongestGap run' behind') (heq : run ++ behind = run' ++ behind') : run = run' := by
  have hle := h'.longest run behind heq h.isGap
  have hle' := h.longest run' behind' heq.symm h'.isGap
  exact List.append_inj_left heq (Nat.le_antisymm hle hle')

theorem IsLongestGap.gap_eq_nil {run behind : List Char} (h : IsLongestGap run behind) :
    gap false behind = [] := by
  have hrun := h.eq (isLongestGap_gap (run ++ behind)) (gap_append_drop _).symm
  have htext : run ++ behind = gap false (run ++ behind) ++ behind := by rw [← hrun]
  exact gap_behind_gap htext

/-- A gap ends in a backslash only where its line ends. -/
theorem IsGap.getLast?_ne {run behind : List Char} {c : Char} (h : IsGap run (c :: behind))
    (hc : c ≠ '\n') : run.getLast? ≠ some '\\' := by
  generalize htext : c :: behind = text at h
  induction h with
  | nil => simp
  | @space d rest _ hd _ ih =>
    subst htext
    cases rest with
    | nil =>
      intro hlast
      obtain rfl : d = '\\' := Option.some.inj hlast
      cases hd
    | cons e rest =>
      rw [List.getLast?_cons_cons]
      exact ih rfl
  | @comment line rest _ hline hend _ ih =>
    subst htext
    cases rest with
    | nil => exact absurd (hend c rfl) hc
    | cons e rest =>
      rw [List.getLast?_cons_cons, ← List.cons_append, List.getLast?_append, List.getLast?_cons, Option.some_or,
        ← List.getLast?_cons]
      exact ih rfl

end ConfigLang
