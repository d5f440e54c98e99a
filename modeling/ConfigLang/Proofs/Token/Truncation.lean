import ConfigLang.Proofs.Token.Gaps
import ConfigLang.Proofs.Token.Spelled
import Mathlib.Data.List.TakeDrop

/-!
# Reading from a part of a text

A text is cut off somewhere behind a token. The token is still read from what is kept, by the same rule: a
reader that has read the token ends at the same character as before, and one that has read nothing finds
nothing in less text either.

* `gap_of_append` - a gap ends at the same character, too.
* `Lexeme.EndsBy`, `Reader.endsBy` - the character behind a token decides whether it goes on.
* `Reader.read_of_append` - a token that is read in front of more text is read without it.
* `Reader.exists_read_append` - a reader that finds a token finds one with more text behind.
* `Mode.read_eq_none_of_append` - a rule that has not read anything does not read the start of the text.
* `Mode.read_of_append` - the result for a mode.

The readers of integers are no part of `Reader.exists_read_append`: they read nothing if the number is out of
range, and with fewer digits it may be in range. That matters where a hexadecimal number is cut off in its
digits, because the reader of decimal integers comes behind and takes the zero for itself. So
`Mode.read_eq_none_of_append` and `Mode.read_of_append` have a hypothesis about this case.
-/

namespace ConfigLang

/-! ### Runs of characters -/

section Runs

variable {p : Char → Bool} {run behind text kept cutOff : List Char}

/-- What stands behind a run does not go on with it. -/
theorem beginsWithout_of_takeWhile (h : (run ++ behind).takeWhile p = run) : BeginsWithout p behind := by
  have hrun : ∀ c ∈ run, p c = true := by
    rw [← h]
    exact forall_mem_takeWhile p _
  rw [List.takeWhile_append_of_pos hrun] at h
  have hnone : behind.takeWhile p = [] := List.append_right_eq_self.1 h
  intro c hc
  obtain ⟨rest, rfl⟩ := List.head?_eq_some_iff.1 hc
  by_contra hp
  rw [List.takeWhile_cons_of_pos (Bool.of_not_eq_false hp)] at hnone
  cases hnone

/-- A run that ends in front of a text ends in front of every text that does not go on with it. -/
theorem takeWhile_append_eq (h : (run ++ behind).takeWhile p = run) (htext : BeginsWithout p text) :
    (run ++ text).takeWhile p = run := by
  refine takeWhile_append_of_beginsWithout ?_ htext
  rw [← h]
  exact forall_mem_takeWhile p _

theorem BeginsWithout.of_append (h : BeginsWithout p (kept ++ cutOff)) : BeginsWithout p kept := by
  intro c hc
  obtain ⟨rest, rfl⟩ := List.head?_eq_some_iff.1 hc
  exact h c rfl

/-- A run at the start of a text goes on if more text is added. -/
theorem takeWhile_append_ne_nil (h : kept.takeWhile p ≠ []) (cutOff : List Char) :
    (kept ++ cutOff).takeWhile p ≠ [] := by
  cases kept with
  | nil => exact absurd rfl h
  | cons c kept =>
    by_cases hc : p c = true
    · rw [List.cons_append, List.takeWhile_cons_of_pos hc]
      exact List.cons_ne_nil _ _
    · exact absurd (List.takeWhile_cons_of_neg hc) h

end Runs

/-! ### Gaps -/

/-- A gap that ends in front of a text ends in front of each start of it. -/
theorem gap_of_append {inComment : Bool} {run kept cutOff : List Char}
    (h : gap inComment (run ++ (kept ++ cutOff)) = run) : gap inComment (run ++ kept) = run := by
  generalize htext : run ++ (kept ++ cutOff) = text at h
  fun_induction gap inComment text generalizing run with
  | case1 =>
    obtain rfl := h
    obtain ⟨rfl, -⟩ := List.append_eq_nil_iff.1 ((List.nil_append _).symm.trans htext)
    rw [List.nil_append, gap]
  | case2 c rest ih =>
    obtain rfl := h
    rw [List.cons_append, gap, ih (List.cons.inj htext).2 rfl]
  | case3 rest ih =>
    obtain rfl := h
    rw [List.cons_append, List.cons_append, gap, ih (List.cons.inj (List.cons.inj htext).2).2 rfl]
  | case4 c rest _ hspace ih =>
    obtain rfl := h
    rw [List.cons_append, gap_space hspace, ih (List.cons.inj htext).2 rfl]
  | case5 c rest hcomment hspace =>
    obtain rfl := h
    cases kept with
    | nil => rfl
    | cons d kept =>
      obtain ⟨rfl, rfl⟩ := List.cons.inj htext
      rw [List.nil_append, gap, if_neg hspace]
      rintro tail hslash rfl
      exact hcomment _ hslash rfl

namespace Lexeme

variable {behind kept cutOff spelling key sign digits exponent : List Char} {l : Lexeme}

/-! ### Tokens that are runs of characters -/

/-- The token goes on with the characters of a class: it ends in front of the text, and it is read in front of
every text that it cannot go on with. -/
structure EndsBy (read : List Char → Option Lexeme) (p : Char → Bool) (l : Lexeme) (behind : List Char) :
    Prop where
  beginsWithout : BeginsWithout p behind
  read_append : ∀ {text}, BeginsWithout p text → read (l.spelling ++ text) = some l

/-- A token that is a run of characters of one class, as bare keys and the characters of a string are. -/
def run? (p : Char → Bool) (token : String → Token) (text : List Char) : Option Lexeme :=
  if text.takeWhile p = [] then none
  else some ⟨token (String.ofList (text.takeWhile p)), text.takeWhile p⟩

theorem bareSegment?_eq_run? (text : List Char) :
    bareSegment? text = run? isBareChar .segment text := rfl

theorem characters?_eq_run? (text : List Char) :
    characters? text = run? isTextChar .characters text := rfl

section Runs

variable {p : Char → Bool} {token : String → Token}

theorem run?_endsBy (h : run? p token (l.spelling ++ behind) = some l) :
    EndsBy (run? p token) p l behind := by
  simp only [run?, Option.ite_none_left_eq_some, Option.some.injEq] at h
  obtain ⟨hne, h⟩ := h
  have hrun : (l.spelling ++ behind).takeWhile p = l.spelling := congrArg Lexeme.spelling h
  rw [hrun] at hne h
  refine ⟨beginsWithout_of_takeWhile hrun, fun htext => ?_⟩
  rw [run?, takeWhile_append_eq hrun htext, if_neg hne, h]

theorem exists_run?_append (h : run? p token kept = some l) (cutOff : List Char) :
    ∃ longer, run? p token (kept ++ cutOff) = some longer := by
  simp only [run?, Option.ite_none_left_eq_some] at h ⊢
  exact ⟨_, takeWhile_append_ne_nil h.1 cutOff, rfl⟩

end Runs

/-! ### Names and keys -/

/-- A name ends where its letters end. -/
theorem input?_endsBy (h : input? (l.spelling ++ behind) = some l) : EndsBy input? isNameChar l behind := by
  obtain ⟨letter, rest, heq, hletter, rfl⟩ := input?_eq_some_iff.1 h
  simp only [List.cons_append, List.cons.injEq, true_and] at heq
  have hrun := congrArg (List.takeWhile isNameChar) heq
  refine ⟨beginsWithout_of_takeWhile hrun, fun {text} htext => ?_⟩
  refine input?_eq_some_iff.2 ⟨letter, rest.takeWhile isNameChar ++ text, rfl, hletter, ?_⟩
  rw [takeWhile_append_eq hrun htext]

/-- A quoted key ends with its quote, whatever follows. -/
theorem quotedKey_spelling_append {text : List Char} (h : quotedKey text = some (key, spelling))
    (more : List Char) : quotedKey (spelling ++ more) = some (key, spelling) := by
  fun_induction quotedKey text generalizing key spelling with
  | case1 => cases h
  | case2 rest ih =>
    obtain ⟨⟨k, s⟩, hs, h⟩ := Option.map_eq_some_iff.1 h
    obtain ⟨rfl, rfl⟩ := Prod.mk.inj h
    rw [List.cons_append, List.cons_append, quotedKey, ih hs]
    rfl
  | case3 rest =>
    obtain ⟨rfl, rfl⟩ := Prod.mk.inj (Option.some.inj h)
    rw [List.cons_append, quotedKey, if_pos rfl]
    intro tail hc
    exact absurd hc (by decide)
  | case4 c rest hbare hc ih =>
    obtain ⟨⟨k, s⟩, hs, h⟩ := Option.map_eq_some_iff.1 h
    obtain ⟨rfl, rfl⟩ := Prod.mk.inj h
    rw [List.cons_append, quotedKey, if_neg hc, ih hs]
    · rfl
    · intro tail hslash hquote
      -- The spelling of the rest is not empty, so the quote would stand in the text already.
      obtain ⟨behind, rfl⟩ := quotedKey_isPrefix hs
      cases s with
      | nil => exact absurd (quotedKey_spelling hs) (by simp)
      | cons d s =>
        obtain ⟨rfl, -⟩ := List.cons.inj hquote
        exact hbare _ hslash rfl

/-! ### Escapes -/

/-- An escape ends with its letter or with its fourth digit, whatever follows. -/
theorem escape?_spelling_append {text : List Char} (h : escape? text = some l)
    (more : List Char) : escape? (l.spelling ++ more) = some l := by
  rcases escape?_eq_some_iff.1 h with
    ⟨rest, char, rfl, hlength, hdigits, hchar, rfl⟩ | ⟨letter, rest, char, rfl, hchar, rfl⟩
  · have htake : (rest.take 4 ++ more).take 4 = rest.take 4 := List.take_left' hlength
    refine escape?_eq_some_iff.2 (Or.inl ⟨rest.take 4 ++ more, char, rfl, ?_⟩)
    rw [htake]
    exact ⟨hlength, hdigits, hchar, rfl⟩
  · exact escape?_eq_some_iff.2 (Or.inr ⟨letter, more, char, rfl, hchar, rfl⟩)

/-! ### Floats -/

/-- The sign in front of digits is split off. -/
theorem exists_splitSign_digits (hsign : sign = [] ∨ sign = ['+'] ∨ sign = ['-'])
    (hdigits : IsDigits digits) (text : List Char) :
    ∃ negative, Decimal.splitSign (sign ++ (digits ++ text)) = (negative, digits ++ text) := by
  rcases hsign with rfl | rfl | rfl
  · obtain ⟨c, rest, rfl⟩ := List.exists_cons_of_ne_nil hdigits.1
    refine ⟨false, Decimal.splitSign_of_isDigit fun d hd => ?_⟩
    exact hdigits.2 d (Option.some.inj hd ▸ List.mem_cons_self)
  · exact ⟨false, rfl⟩
  · exact ⟨true, rfl⟩

/-- Each text of an exponent stands for one. -/
theorem exists_readExponent (h : IsExponentText exponent) :
    ∃ e, Decimal.readExponent exponent = some e := by
  rcases h with rfl | ⟨mark, sign, digits, hmark, hsign, hdigits, rfl⟩
  · exact ⟨0, rfl⟩
  · obtain ⟨negative, hsplit⟩ := exists_splitSign_digits hsign hdigits []
    rw [List.append_nil] at hsplit
    rw [Decimal.readExponent, if_pos hmark, hsplit]
    exact ⟨_, if_pos ⟨hdigits.1, List.all_eq_true.2 hdigits.2⟩⟩

theorem beginsWithout_isDigit_exponent (h : IsExponentText exponent) :
    BeginsWithout Char.isDigit exponent := by
  rcases h with rfl | ⟨mark, sign, digits, hmark, -, -, rfl⟩
  · exact fun c hc => nomatch hc
  · refine beginsWithout_cons ?_
    rcases hmark with rfl | rfl <;> rfl

/-- Digits on both sides of a point stand for a number. -/
theorem exists_readUnsigned {whole fraction : List Char} (hwhole : IsDigits whole)
    (hfraction : IsDigits fraction) (hexponent : IsExponentText exponent) :
    ∃ value, Decimal.readUnsigned (whole ++ '.' :: (fraction ++ exponent)) = some value := by
  have hpoint : BeginsWithout Char.isDigit ('.' :: (fraction ++ exponent)) := beginsWithout_cons rfl
  have hbehind := beginsWithout_isDigit_exponent hexponent
  obtain ⟨e, he⟩ := exists_readExponent hexponent
  unfold Decimal.readUnsigned
  simp only [List.span_eq_takeWhile_dropWhile, takeWhile_append_of_beginsWithout hwhole.2 hpoint,
    dropWhile_append_of_beginsWithout hwhole.2 hpoint, Decimal.splitFraction,
    takeWhile_append_of_beginsWithout hfraction.2 hbehind,
    dropWhile_append_of_beginsWithout hfraction.2 hbehind, hwhole.1, false_and, if_false, he]
  exact ⟨_, rfl⟩

/-- Each text of a float stands for one. -/
theorem exists_readFloat (h : IsFloatText spelling) :
    ∃ value, Decimal.readFloat spelling = some value := by
  obtain ⟨minus, whole, fraction, exponent, hminus, hwhole, hfraction, hexponent, rfl⟩ := h
  have htext : minus ++ whole ++ '.' :: fraction ++ exponent =
      minus ++ (whole ++ ('.' :: (fraction ++ exponent))) := by
    simp
  obtain ⟨negative, hsplit⟩ :=
    exists_splitSign_digits (hminus.imp_right Or.inr) hwhole ('.' :: (fraction ++ exponent))
  obtain ⟨value, hvalue⟩ := exists_readUnsigned hwhole hfraction hexponent
  rw [htext, Decimal.readFloat, hsplit]
  simp only [hvalue]
  exact ⟨_, rfl⟩

/-- With more text behind it an exponent is still read, and no less of it. -/
theorem length_le_exponentSpelling_append (h : IsExponentText exponent) (more : List Char) :
    exponent.length ≤ (exponentSpelling (exponent ++ more)).length := by
  rcases h with rfl | ⟨mark, sign, digits, hmark, hsign, hdigits, rfl⟩
  · exact Nat.zero_le _
  · have hsplit := @splitSign_digits sign digits more hsign hdigits
    have hrun : (digits ++ more).takeWhile Char.isDigit = digits ++ more.takeWhile Char.isDigit :=
      List.takeWhile_append_of_pos hdigits.2
    have hne : digits ++ more.takeWhile Char.isDigit ≠ [] := by
      simpa using fun h => absurd h hdigits.1
    rw [List.cons_append, List.append_assoc, exponentSpelling]
    simp only [hsplit, hrun]
    rw [if_pos ⟨hmark, hne⟩]
    simp only [List.length_cons, List.cons_append, List.length_append]
    omega

/-- With more text behind it a float is still read, and no less of it. -/
theorem exists_floatSpelling_append (h : IsFloatText spelling) (more : List Char) :
    ∃ longer, floatSpelling (spelling ++ more) = some longer ∧ spelling.length ≤ longer.length := by
  obtain ⟨minus, whole, fraction, exponent, hminus, hwhole, hfraction, hexponent, rfl⟩ := h
  have hall : minus ++ whole ++ '.' :: fraction ++ exponent ++ more =
      minus ++ (whole ++ '.' :: (fraction ++ (exponent ++ more))) := by
    simp
  have hpoint : BeginsWithout Char.isDigit ('.' :: (fraction ++ (exponent ++ more))) :=
    beginsWithout_cons rfl
  have hfractionRun : (fraction ++ (exponent ++ more)).takeWhile Char.isDigit =
      fraction ++ (exponent ++ more).takeWhile Char.isDigit :=
    List.takeWhile_append_of_pos hfraction.2
  have hfractionRest : (fraction ++ (exponent ++ more)).dropWhile Char.isDigit =
      (exponent ++ more).dropWhile Char.isDigit :=
    List.dropWhile_append_of_pos hfraction.2
  have hne : ¬ (whole = [] ∨ fraction ++ (exponent ++ more).takeWhile Char.isDigit = []) := by
    simpa [hwhole.1] using fun h => absurd h hfraction.1
  have hspelling : floatSpelling (minus ++ (whole ++ '.' :: (fraction ++ (exponent ++ more)))) =
      some (minus ++ whole ++ '.' :: (fraction ++ (exponent ++ more).takeWhile Char.isDigit) ++
        exponentSpelling ((exponent ++ more).dropWhile Char.isDigit)) := by
    unfold floatSpelling
    simp only [splitMinus_digits hminus hwhole, takeWhile_append_of_beginsWithout hwhole.2 hpoint,
      dropWhile_append_of_beginsWithout hwhole.2 hpoint, hfractionRun, hfractionRest, if_neg hne]
  refine ⟨_, hall ▸ hspelling, ?_⟩
  -- Without an exponent the fraction goes on, and with one it is the exponent that does.
  have hexponentLength : exponent.length ≤ ((exponent ++ more).takeWhile Char.isDigit).length +
      (exponentSpelling ((exponent ++ more).dropWhile Char.isDigit)).length := by
    cases exponent with
    | nil => exact Nat.zero_le _
    | cons mark exponent =>
      have hmark : ¬ mark.isDigit = true := by
        rw [beginsWithout_isDigit_exponent hexponent mark rfl]
        exact Bool.noConfusion
      rw [List.cons_append, List.dropWhile_cons_of_neg hmark]
      exact Nat.le_add_left_of_le (length_le_exponentSpelling_append hexponent more)
  simp only [List.length_append, List.length_cons]
  omega

/-- A float that ends in front of a text ends in front of each start of it. -/
theorem floatSpelling_of_append (h : floatSpelling (spelling ++ (kept ++ cutOff)) = some spelling) :
    floatSpelling (spelling ++ kept) = some spelling := by
  obtain ⟨longer, hlonger, hle⟩ := exists_floatSpelling_append (isFloatText_of_floatSpelling h) kept
  obtain ⟨more, hmore⟩ := floatSpelling_isPrefix hlonger
  obtain ⟨longest, hlongest, hle'⟩ :=
    exists_floatSpelling_append (isFloatText_of_floatSpelling hlonger) (more ++ cutOff)
  rw [← List.append_assoc, hmore, List.append_assoc, h] at hlongest
  obtain rfl := Option.some.inj hlongest
  have hprefix : spelling <+: longer :=
    List.prefix_of_prefix_length_le (List.prefix_append _ _) ⟨more, hmore⟩ hle
  rw [hlonger, hprefix.eq_of_length_le hle']

/-! ### Integers -/

/-- The sign of a text is that of its start. -/
theorem splitMinus_append_right {text : List Char} (h : text ≠ []) (more : List Char) :
    splitMinus (text ++ more) = ((splitMinus text).1, (splitMinus text).2 ++ more) := by
  obtain ⟨c, rest, rfl⟩ := List.exists_cons_of_ne_nil h
  by_cases hc : c = '-'
  · rw [hc]
    rfl
  · rw [List.cons_append, Reader.splitMinus_cons hc, Reader.splitMinus_cons hc]
    rfl

/-- An integer ends where its run of digits ends. -/
theorem integer?_endsBy (h : integer? (l.spelling ++ behind) = some l) :
    EndsBy integer? (fun c => c.isDigit || c == '_') l behind := by
  have hne := (Reader.ne_nil_and_isPrefix_of_read (r := .integer) h).1
  obtain ⟨run, value, hrun, hdigits, hvalue, hl⟩ := integer?_eq_some_iff.1 h
  rw [splitMinus_append_right hne] at hrun hvalue hl
  have hspelling := (congrArg Lexeme.spelling hl).symm.trans (splitMinus_append l.spelling).symm
  obtain rfl : run = (splitMinus l.spelling).2 := List.append_cancel_left hspelling
  refine ⟨beginsWithout_of_takeWhile hrun, fun htext => ?_⟩
  refine integer?_eq_some_iff.2 ⟨(splitMinus l.spelling).2, value, ?_⟩
  rw [splitMinus_append_right hne]
  exact ⟨takeWhile_append_eq hrun htext, hdigits, hvalue, hl⟩

/-- A hexadecimal integer ends where its digits end. -/
theorem hexInteger?_endsBy (h : hexInteger? (l.spelling ++ behind) = some l) :
    EndsBy hexInteger? isHexDigit l behind := by
  obtain ⟨rest, value, heq, hne, hvalue, rfl⟩ := hexInteger?_eq_some_iff.1 h
  simp only [List.cons_append, List.cons.injEq, true_and] at heq
  have hrun := congrArg (List.takeWhile isHexDigit) heq
  refine ⟨beginsWithout_of_takeWhile hrun, fun {text} htext => ?_⟩
  refine hexInteger?_eq_some_iff.2 ⟨rest.takeWhile isHexDigit ++ text, value, rfl, ?_⟩
  rw [takeWhile_append_eq hrun htext]
  exact ⟨hne, hvalue, rfl⟩

end Lexeme

/-! ### Readers -/

open Lexeme

namespace Reader

variable {r : Reader} {l : Lexeme} {behind kept cutOff : List Char}

/-- The characters that the tokens of a reader go on with. -/
def goesOn : Reader → Char → Bool
  | input => isNameChar
  | float => goesOnNumber
  | hexInteger => isHexDigit
  | integer => fun c => c.isDigit || c == '_'
  | bareSegment => isBareChar
  | characters => isTextChar
  | _ => fun _ => false

/-- One character behind a token decides whether it goes on, unless it is a float: behind that the point or
the mark of an exponent may stand without digits. -/
theorem endsBy (hfloat : r ≠ .float) (h : r.read (l.spelling ++ behind) = some l) :
    EndsBy r.read r.goesOn l behind := by
  cases r with
  | symbol s =>
    obtain ⟨-, rfl⟩ := symbol?_eq_some_iff.1 h
    exact ⟨fun _ _ => rfl, fun _ => symbol?_eq_some_iff.2 ⟨List.prefix_append _ _, rfl⟩⟩
  | input => exact input?_endsBy h
  | float => exact absurd rfl hfloat
  | hexInteger => exact hexInteger?_endsBy h
  | integer => exact integer?_endsBy h
  | quotedSegment =>
    obtain ⟨rest, key, spelling, -, hkey, rfl⟩ := quotedSegment?_eq_some_iff.1 h
    refine ⟨fun _ _ => rfl, fun {text} _ => ?_⟩
    exact quotedSegment?_eq_some_iff.2 ⟨_, key, spelling, rfl, quotedKey_spelling_append hkey text, rfl⟩
  | bareSegment => exact run?_endsBy h
  | escape => exact ⟨fun _ _ => rfl, fun {text} _ => escape?_spelling_append h text⟩
  | characters => exact run?_endsBy h

/-- A token that is read in front of more text is read without it. -/
theorem read_of_append (h : r.read (l.spelling ++ (kept ++ cutOff)) = some l) :
    r.read (l.spelling ++ kept) = some l := by
  by_cases hfloat : r = .float
  · rw [hfloat] at h ⊢
    obtain ⟨spelling, value, hspelling, hvalue, rfl⟩ := float?_eq_some_iff.1 h
    exact float?_eq_some_iff.2 ⟨spelling, value, floatSpelling_of_append hspelling, hvalue, rfl⟩
  · have hends := endsBy hfloat h
    exact hends.read_append hends.beginsWithout.of_append

/-- A reader that finds a token finds one with more text behind, unless it reads integers. -/
theorem exists_read_append (hhex : r ≠ .hexInteger) (hinteger : r ≠ .integer)
    (h : r.read kept = some l) (cutOff : List Char) : ∃ longer, r.read (kept ++ cutOff) = some longer := by
  cases r with
  | symbol s =>
    obtain ⟨hkept, rfl⟩ := symbol?_eq_some_iff.1 h
    exact ⟨_, symbol?_eq_some_iff.2 ⟨hkept.trans (List.prefix_append kept cutOff), rfl⟩⟩
  | input =>
    obtain ⟨letter, rest, rfl, hletter, -⟩ := input?_eq_some_iff.1 h
    exact ⟨_, input?_eq_some_iff.2 ⟨letter, rest ++ cutOff, rfl, hletter, rfl⟩⟩
  | float =>
    obtain ⟨spelling, -, hspelling, -, -⟩ := float?_eq_some_iff.1 h
    obtain ⟨more, rfl⟩ := floatSpelling_isPrefix hspelling
    obtain ⟨longer, hlonger, -⟩ :=
      exists_floatSpelling_append (isFloatText_of_floatSpelling hspelling) (more ++ cutOff)
    obtain ⟨value, hvalue⟩ := exists_readFloat (isFloatText_of_floatSpelling hlonger)
    rw [← List.append_assoc] at hlonger
    exact ⟨_, float?_eq_some_iff.2 ⟨longer, value, hlonger, hvalue, rfl⟩⟩
  | hexInteger => exact absurd rfl hhex
  | integer => exact absurd rfl hinteger
  | quotedSegment =>
    obtain ⟨rest, key, spelling, rfl, hkey, -⟩ := quotedSegment?_eq_some_iff.1 h
    obtain ⟨behind, rfl⟩ := quotedKey_isPrefix hkey
    rw [List.cons_append, List.append_assoc]
    exact ⟨_, quotedSegment?_eq_some_iff.2 ⟨_, key, spelling, rfl, quotedKey_spelling_append hkey _, rfl⟩⟩
  | bareSegment =>
    rw [read, bareSegment?_eq_run?] at h ⊢
    exact exists_run?_append h cutOff
  | escape =>
    obtain ⟨-, behind, rfl⟩ := ne_nil_and_isPrefix_of_read h
    rw [List.append_assoc]
    exact ⟨l, escape?_spelling_append h _⟩
  | characters =>
    rw [read, characters?_eq_run?] at h ⊢
    exact exists_run?_append h cutOff

/-- Where a hexadecimal number stands, the reader of decimal integers takes only the zero. -/
theorem spelling_of_integer_of_hexInteger {text : List Char} {number : Lexeme}
    (hhex : hexInteger.read text = some number) (h : integer.read text = some l) :
    l.spelling = ['0'] := by
  obtain ⟨rest, -, rfl, -, -, -⟩ := hexInteger?_eq_some_iff.1 hhex
  rw [read] at h
  obtain ⟨run, value, rfl, -, -, rfl⟩ := integer?_eq_some_iff.1 h
  rfl

end Reader

/-! ### Modes -/

namespace Mode

variable {mode : Mode} {text kept cutOff : List Char} {l : Lexeme} {transition : Transition}

/-- Behind the rules for integers there is only one for the symbol that ends an array. -/
theorem reader_of_integer_earlier (mode : Mode) : ∀ rule ∈ mode.rules,
    ∀ earlier ∈ mode.rules.takeWhile (· ≠ rule),
      earlier.reader = .hexInteger ∨ earlier.reader = .integer →
        rule.reader = .symbol .bracketClose ∨
          rule.reader = .integer ∧ earlier.reader = .hexInteger := by
  cases mode <;> decide

/-- Where a rule in front of the one that reads the token has read nothing, it reads nothing in less text
either. The hypothesis is about a hexadecimal number that is out of range: it must not be cut in its digits. -/
theorem read_eq_none_of_append {rule earlier : Rule} (hrule : rule ∈ mode.rules)
    (hearlier : earlier ∈ mode.rules.takeWhile (· ≠ rule))
    (hread : rule.reader.read (l.spelling ++ (kept ++ cutOff)) = some l)
    (hnone : earlier.reader.read (l.spelling ++ (kept ++ cutOff)) = none)
    (hhex : hexInteger? ('0' :: (kept ++ cutOff)) = none → hexInteger? ('0' :: kept) = none) :
    earlier.reader.read (l.spelling ++ kept) = none := by
  have hkept := Reader.read_of_append hread
  refine Option.eq_none_iff_forall_ne_some.2 fun other hother => ?_
  by_cases hinteger : earlier.reader = .hexInteger ∨ earlier.reader = .integer
  · rcases reader_of_integer_earlier mode rule hrule earlier hearlier hinteger with
      hclose | ⟨hdecimal, hhexadecimal⟩
    · -- The text begins with the symbol, so no number is there.
      rw [hclose] at hkept
      rw [(symbol?_eq_some_iff.1 hkept).2] at hother
      have hbegins : earlier.reader.begins ']' = false := by
        rcases hinteger with h | h <;> rw [h] <;> decide
      exact Option.some_ne_none _ (hother.symm.trans (Reader.read_eq_none hbegins kept))
    · rw [hdecimal] at hkept
      rw [hhexadecimal] at hother hnone
      have hzero := Reader.spelling_of_integer_of_hexInteger hother hkept
      rw [hzero] at hother hnone
      exact Option.some_ne_none _ (hother.symm.trans (hhex hnone))
  · obtain ⟨hhex, hinteger⟩ := not_or.1 hinteger
    obtain ⟨longer, hlonger⟩ := Reader.exists_read_append hhex hinteger hother cutOff
    rw [List.append_assoc, hnone] at hlonger
    cases hlonger

/-- A token that is read in front of more text is read without it. -/
theorem read_of_append (h : mode.read (l.spelling ++ (kept ++ cutOff)) = some (l, transition))
    (hhex : hexInteger? ('0' :: (kept ++ cutOff)) = none → hexInteger? ('0' :: kept) = none) :
    mode.read (l.spelling ++ kept) = some (l, transition) := by
  obtain ⟨rule, hrule, hread, rfl, hnone⟩ := exists_rule_of_read h
  refine read_eq_some hrule (fun earlier hearlier => ?_) (Reader.read_of_append hread)
  exact read_eq_none_of_append hrule hearlier hread (hnone earlier hearlier) hhex

end Mode

end ConfigLang
