import ConfigLang.Token.Rule

/-!
# Spellings are read at the start of the text

Every reader that succeeds has read at least one character, and has read it at the start of the
text. So each token moves on in the document, and cutting a spelling off loses nothing.

* `Lexeme.symbol?_eq_some_iff`, `Lexeme.input?_eq_some_iff`, and so on - what each reader reads, and where.
* `Reader.ne_nil_and_isPrefix_of_read` - both facts for one kind of token.
* `Mode.ne_nil_and_isPrefix_of_read` - both facts for the rules of a mode.
-/

namespace ConfigLang

open Lexeme

/-! ### Parts of a number -/

theorem splitMinus_append (text : List Char) :
    (splitMinus text).1 ++ (splitMinus text).2 = text := by
  unfold splitMinus
  split <;> rfl

theorem splitMinus_fst (text : List Char) : (splitMinus text).1 = [] ∨ (splitMinus text).1 = ['-'] := by
  unfold splitMinus
  split
  · exact Or.inr rfl
  · exact Or.inl rfl

theorem splitSign_append (text : List Char) : (splitSign text).1 ++ (splitSign text).2 = text := by
  unfold splitSign
  split
  · rfl
  · exact splitMinus_append _

theorem forall_mem_takeWhile (p : Char → Bool) (text : List Char) :
    ∀ c ∈ text.takeWhile p, p c = true :=
  List.all_eq_true.1 List.all_takeWhile

/-- A run of characters with the start of what follows it is the start of the text. -/
theorem takeWhile_append_isPrefix {p : Char → Bool} {text tail : List Char}
    (h : tail <+: text.dropWhile p) : text.takeWhile p ++ tail <+: text := by
  conv => rhs; rw [← List.takeWhile_append_dropWhile (p := p) (l := text)]
  exact (List.prefix_append_right_inj _).2 h

theorem minus_append_isPrefix {text tail : List Char} (h : tail <+: (splitMinus text).2) :
    (splitMinus text).1 ++ tail <+: text := by
  conv => rhs; rw [← splitMinus_append text]
  exact (List.prefix_append_right_inj _).2 h

theorem exponentSpelling_isPrefix (text : List Char) : exponentSpelling text <+: text := by
  cases text with
  | nil => simp [exponentSpelling]
  | cons mark rest =>
    simp only [exponentSpelling]
    split
    · conv => rhs; rw [← splitSign_append rest]
      simpa using List.takeWhile_prefix _
    · exact List.nil_prefix

theorem floatSpelling_isPrefix {text spelling : List Char}
    (h : floatSpelling text = some spelling) : spelling <+: text := by
  simp only [floatSpelling] at h
  split at h
  next rest hrest =>
    split at h
    · simp at h
    · obtain rfl := Option.some.inj h
      simp only [List.append_assoc, List.cons_append]
      refine minus_append_isPrefix (takeWhile_append_isPrefix ?_)
      rw [hrest, List.cons_prefix_cons]
      exact ⟨rfl, takeWhile_append_isPrefix (exponentSpelling_isPrefix _)⟩
  · simp at h

theorem floatSpelling_ne_nil {text spelling : List Char}
    (h : floatSpelling text = some spelling) : spelling ≠ [] := by
  simp only [floatSpelling] at h
  split at h
  · split at h
    · simp at h
    · obtain rfl := Option.some.inj h
      simp
  · simp at h

/-- The underscores among the digits of an integer have no value. -/
theorem readInt64_filter {minus run : List Char} (hminus : minus = [] ∨ minus = ['-'])
    (hrun : ∀ c ∈ run, (c.isDigit || c == '_') = true) :
    Decimal.readInt64 ((minus ++ run).filter (· != '_')) =
      if run.filter (· != '_') = [] then none
      else Decimal.toInt64?
        (Decimal.signed (minus != []) (Decimal.natOfDigits 10 (run.filter (· != '_')))) := by
  have hfilter : minus.filter (· != '_') = minus := by
    rcases hminus with rfl | rfl <;> rfl
  have hdigits : ∀ c ∈ run.filter (· != '_'), c.isDigit = true := by
    intro c hc
    obtain ⟨hmem, hne⟩ := List.mem_filter.1 hc
    have hclass := hrun c hmem
    rwa [beq_eq_false_iff_ne.2 (bne_iff_ne.1 hne), Bool.or_false] at hclass
  rw [List.filter_append, hfilter]
  exact Decimal.readInt64_append hminus hdigits

theorem quotedKey_isPrefix {text key spelling : List Char}
    (h : quotedKey text = some (key, spelling)) : spelling <+: text := by
  fun_induction quotedKey text generalizing key spelling with
  | case1 => simp at h
  | case2 rest ih =>
    obtain ⟨⟨k, s⟩, hs, h⟩ := Option.map_eq_some_iff.1 h
    obtain ⟨rfl, rfl⟩ := Prod.mk.inj h
    simpa using ih hs
  | case3 rest =>
    obtain ⟨rfl, rfl⟩ := Prod.mk.inj (Option.some.inj h)
    simp
  | case4 c rest _ hc ih =>
    obtain ⟨⟨k, s⟩, hs, h⟩ := Option.map_eq_some_iff.1 h
    obtain ⟨rfl, rfl⟩ := Prod.mk.inj h
    simpa using ih hs

/-! ### What each reader reads -/

namespace Lexeme

variable {text : List Char} {l : Lexeme}

theorem symbol?_eq_some_iff {s : Symbol} :
    symbol? s text = some l ↔ s.spelling <+: text ∧ l = ⟨.symbol s, s.spelling⟩ := by
  rw [symbol?, Option.ite_none_right_eq_some, List.isPrefixOf_iff_prefix, Option.some.injEq, eq_comm (a := l)]

theorem input?_eq_some_iff :
    input? text = some l ↔ ∃ letter rest, text = '$' :: letter :: rest ∧ letter.isAlpha = true ∧
      l = ⟨.input (String.ofList ('$' :: letter :: rest.takeWhile isNameChar)),
        '$' :: letter :: rest.takeWhile isNameChar⟩ := by
  constructor
  · intro h
    simp only [input?] at h
    split at h
    next letter rest =>
      obtain ⟨hletter, h⟩ := Option.ite_none_right_eq_some.1 h
      exact ⟨letter, rest, rfl, hletter, (Option.some.inj h).symm⟩
    · cases h
  · rintro ⟨letter, rest, rfl, hletter, rfl⟩
    exact if_pos hletter

theorem float?_eq_some_iff :
    float? text = some l ↔ ∃ spelling value, floatSpelling text = some spelling ∧
      Decimal.readFloat spelling = some value ∧ l = ⟨.float value, spelling⟩ := by
  simp only [float?, Option.bind_eq_bind, Option.bind_eq_some_iff, Option.some.injEq, eq_comm (b := l), exists_and_left]

theorem hexInteger?_eq_some_iff :
    hexInteger? text = some l ↔ ∃ rest value, text = '0' :: 'x' :: rest ∧ rest.takeWhile isHexDigit ≠ [] ∧
      Decimal.toInt64? (Decimal.natOfDigits 16 (rest.takeWhile isHexDigit)) = some value ∧
      l = ⟨.integer value, '0' :: 'x' :: rest.takeWhile isHexDigit⟩ := by
  constructor
  · intro h
    simp only [hexInteger?] at h
    split at h
    next rest =>
      obtain ⟨hne, h⟩ := Option.ite_none_left_eq_some.1 h
      obtain ⟨value, hvalue, h⟩ := Option.bind_eq_some_iff.1 h
      exact ⟨rest, value, rfl, hne, hvalue, (Option.some.inj h).symm⟩
    · cases h
  · rintro ⟨rest, value, rfl, hne, hvalue, rfl⟩
    simp only [hexInteger?, if_neg hne, hvalue]
    rfl

theorem integer?_eq_some_iff :
    integer? text = some l ↔ ∃ run value,
      (splitMinus text).2.takeWhile (fun c => c.isDigit || c == '_') = run ∧ run.filter (· != '_') ≠ [] ∧
      Decimal.toInt64? (Decimal.signed ((splitMinus text).1 != [])
        (Decimal.natOfDigits 10 (run.filter (· != '_')))) = some value ∧
      l = ⟨.integer value, (splitMinus text).1 ++ run⟩ := by
  have hread := readInt64_filter (splitMinus_fst text)
    (forall_mem_takeWhile (fun c => c.isDigit || c == '_') (splitMinus text).2)
  constructor
  · intro h
    obtain ⟨value, hvalue, h⟩ := Option.bind_eq_some_iff.1 h
    obtain ⟨hne, hvalue⟩ := Option.ite_none_left_eq_some.1 (hread.symm.trans hvalue)
    exact ⟨_, value, rfl, hne, hvalue, (Option.some.inj h).symm⟩
  · rintro ⟨run, value, rfl, hne, hvalue, rfl⟩
    rw [if_neg hne, hvalue] at hread
    exact Option.bind_eq_some_iff.2 ⟨value, hread, rfl⟩

theorem quotedSegment?_eq_some_iff :
    quotedSegment? text = some l ↔ ∃ rest key spelling, text = '\'' :: rest ∧
      quotedKey rest = some (key, spelling) ∧ l = ⟨.segment (String.ofList key), '\'' :: spelling⟩ := by
  constructor
  · intro h
    simp only [quotedSegment?] at h
    split at h
    next rest =>
      obtain ⟨⟨key, spelling⟩, hkey, rfl⟩ := Option.map_eq_some_iff.1 h
      exact ⟨rest, key, spelling, rfl, hkey, rfl⟩
    · cases h
  · rintro ⟨rest, key, spelling, rfl, hkey, rfl⟩
    simp only [quotedSegment?, hkey, Option.map_some]

theorem bareSegment?_eq_some_iff :
    bareSegment? text = some l ↔ text.takeWhile isBareChar ≠ [] ∧
      l = ⟨.segment (String.ofList (text.takeWhile isBareChar)), text.takeWhile isBareChar⟩ := by
  rw [bareSegment?, Option.ite_none_left_eq_some, Option.some.injEq, eq_comm (a := l)]

theorem characters?_eq_some_iff :
    characters? text = some l ↔ text.takeWhile isTextChar ≠ [] ∧
      l = ⟨.characters (String.ofList (text.takeWhile isTextChar)), text.takeWhile isTextChar⟩ := by
  rw [characters?, Option.ite_none_left_eq_some, Option.some.injEq, eq_comm (a := l)]

theorem escape?_eq_some_iff :
    escape? text = some l ↔
      (∃ rest char, text = '\\' :: 'u' :: rest ∧ (rest.take 4).length = 4 ∧
        (∀ d ∈ rest.take 4, isHexDigit d = true) ∧
        charOfCode (Decimal.natOfDigits 16 (rest.take 4)) = some char ∧
        l = ⟨.escape char, '\\' :: 'u' :: rest.take 4⟩) ∨
      ∃ letter rest char, text = '\\' :: letter :: rest ∧ escapedChar letter = some char ∧
        l = ⟨.escape char, ['\\', letter]⟩ := by
  constructor
  · intro h
    simp only [escape?] at h
    split at h
    next rest =>
      obtain ⟨⟨hlength, hdigits⟩, h⟩ := Option.ite_none_right_eq_some.1 h
      obtain ⟨char, hchar, h⟩ := Option.bind_eq_some_iff.1 h
      exact Or.inl ⟨rest, char, rfl, hlength, List.all_eq_true.1 hdigits, hchar, (Option.some.inj h).symm⟩
    next letter rest _ =>
      obtain ⟨char, hchar, rfl⟩ := Option.map_eq_some_iff.1 h
      exact Or.inr ⟨letter, rest, char, rfl, hchar, rfl⟩
    · cases h
  · rintro (⟨rest, char, rfl, hlength, hdigits, hchar, rfl⟩ | ⟨letter, rest, char, rfl, hchar, rfl⟩)
    · simp only [escape?, hlength, List.all_eq_true.2 hdigits, hchar]
      rfl
    · rw [escape?, hchar]
      · rfl
      · rintro rfl
        cases hchar

end Lexeme

/-! ### Readers -/

/-- A reader that succeeds has read at least one character, at the start of the text. -/
theorem Reader.ne_nil_and_isPrefix_of_read {r : Reader} {text : List Char} {l : Lexeme}
    (h : r.read text = some l) : l.spelling ≠ [] ∧ l.spelling <+: text := by
  cases r with
  | symbol s =>
    obtain ⟨hs, rfl⟩ := symbol?_eq_some_iff.1 h
    exact ⟨s.spelling_ne_nil, hs⟩
  | input =>
    obtain ⟨letter, rest, rfl, -, rfl⟩ := input?_eq_some_iff.1 h
    simpa using List.takeWhile_prefix _
  | float =>
    obtain ⟨spelling, value, hs, -, rfl⟩ := float?_eq_some_iff.1 h
    exact ⟨floatSpelling_ne_nil hs, floatSpelling_isPrefix hs⟩
  | hexInteger =>
    obtain ⟨rest, value, rfl, -, -, rfl⟩ := hexInteger?_eq_some_iff.1 h
    simpa using List.takeWhile_prefix _
  | integer =>
    obtain ⟨run, value, rfl, hdigits, -, rfl⟩ := integer?_eq_some_iff.1 h
    refine ⟨?_, minus_append_isPrefix (List.takeWhile_prefix _)⟩
    intro hnil
    exact hdigits (by rw [(List.append_eq_nil_iff.1 hnil).2]; rfl)
  | quotedSegment =>
    obtain ⟨rest, key, spelling, rfl, hkey, rfl⟩ := quotedSegment?_eq_some_iff.1 h
    simpa using quotedKey_isPrefix hkey
  | bareSegment =>
    obtain ⟨hne, rfl⟩ := bareSegment?_eq_some_iff.1 h
    exact ⟨hne, List.takeWhile_prefix _⟩
  | escape =>
    rcases escape?_eq_some_iff.1 h with ⟨rest, char, rfl, -, -, -, rfl⟩ | ⟨letter, rest, char, rfl, -, rfl⟩
    · simpa using List.take_prefix _ _
    · simp
  | characters =>
    obtain ⟨hne, rfl⟩ := characters?_eq_some_iff.1 h
    exact ⟨hne, List.takeWhile_prefix _⟩

/-! ### Modes -/

/-- A mode that reads a token has read at least one character, at the start of the text. -/
theorem Mode.ne_nil_and_isPrefix_of_read {mode : Mode} {text : List Char} {l : Lexeme} {t : Transition}
    (h : mode.read text = some (l, t)) : l.spelling ≠ [] ∧ l.spelling <+: text := by
  obtain ⟨rule, -, h⟩ := List.exists_of_findSome?_eq_some h
  obtain ⟨_, hl, h⟩ := Option.map_eq_some_iff.1 h
  obtain ⟨rfl, rfl⟩ := Prod.mk.inj h
  exact Reader.ne_nil_and_isPrefix_of_read hl

end ConfigLang
