import ConfigLang.Proofs.Token.Priority

/-!
# How tokens are spelled

A token can be spelled in more ways than it is written in: keys without quotes, integers with underscores
or in hexadecimal, escapes by a letter. Whatever a reader takes from a text is a spelling of the token that
it answers with.

* `Token.SpelledAs` - the spellings of tokens.
* `Reader.spelledAs_of_read` - the result for one reader.
* `Mode.spelledAs_of_read` - the result for a mode, which reads tokens of the kinds that it has a rule for.
-/

namespace ConfigLang

/-- The spellings of a token. -/
inductive Token.SpelledAs : Token → List Char → Prop
  | symbol (s : Symbol) : SpelledAs (.symbol s) s.spelling
  | input (name : String) : SpelledAs (.input name) name.toList
  | characters (text : String) : SpelledAs (.characters text) text.toList
  | bareSegment (key : String) : SpelledAs (.segment key) key.toList
  | quotedSegment (key : String) : SpelledAs (.segment key) (quotedSpelling key.toList)
  | float {value : Float} {text : List Char} (htext : IsFloatText text)
    (hvalue : Decimal.readFloat text = some value) : SpelledAs (.float value) text
  /-- Digits with underscores anywhere among them, and perhaps a minus sign in front. -/
  | decimal {n : Int64} {minus run : List Char} (hminus : minus = [] ∨ minus = ['-'])
    (hrun : ∀ c ∈ run, c.isDigit = true ∨ c = '_') (hdigit : ∃ c ∈ run, c.isDigit = true)
    (hvalue : n.toInt =
      Decimal.signed (minus != []) (Decimal.natOfDigits 10 (run.filter (· != '_')))) :
    SpelledAs (.integer n) (minus ++ run)
  | hexadecimal {n : Int64} {digits : List Char} (hne : digits ≠ [])
    (hdigits : ∀ c ∈ digits, Lexeme.isHexDigit c = true)
    (hvalue : n.toInt = Decimal.natOfDigits 16 digits) :
    SpelledAs (.integer n) ('0' :: 'x' :: digits)
  | letterEscape {letter c : Char} (hletter : Lexeme.escapedChar letter = some c) :
    SpelledAs (.escape c) ['\\', letter]
  | codeEscape {c : Char} {digits : List Char} (hlength : digits.length = 4)
    (hdigits : ∀ d ∈ digits, Lexeme.isHexDigit d = true)
    (hvalue : c.toNat = Decimal.natOfDigits 16 digits) :
    SpelledAs (.escape c) ('\\' :: 'u' :: digits)

namespace Lexeme

variable {text spelling : List Char} {l : Lexeme}

/-! ### Numbers -/

theorem splitSign_fst (text : List Char) :
    (splitSign text).1 = [] ∨ (splitSign text).1 = ['+'] ∨ (splitSign text).1 = ['-'] := by
  unfold splitSign
  split
  · exact Or.inr (Or.inl rfl)
  · rcases splitMinus_fst text with h | h
    · exact Or.inl h
    · exact Or.inr (Or.inr h)

theorem isExponentText_exponentSpelling (text : List Char) :
    IsExponentText (exponentSpelling text) := by
  cases text with
  | nil => exact Or.inl rfl
  | cons mark rest =>
    simp only [exponentSpelling]
    split
    next h =>
      refine Or.inr ⟨mark, _, _, h.1, splitSign_fst rest, ⟨h.2, forall_mem_takeWhile _ _⟩, ?_⟩
      rw [List.cons_append]
    next => exact Or.inl rfl

theorem isFloatText_of_floatSpelling (h : floatSpelling text = some spelling) :
    IsFloatText spelling := by
  simp only [floatSpelling] at h
  split at h
  next rest _ =>
    split at h
    · cases h
    next hne =>
      obtain rfl := Option.some.inj h
      obtain ⟨hwhole, hfraction⟩ := not_or.1 hne
      exact ⟨_, _, _, _, splitMinus_fst text, ⟨hwhole, forall_mem_takeWhile _ _⟩,
        ⟨hfraction, forall_mem_takeWhile _ _⟩, isExponentText_exponentSpelling _, rfl⟩
  · cases h

theorem toInt_of_toInt64? {n : Int} {value : Int64} (h : Decimal.toInt64? n = some value) :
    value.toInt = n := by
  unfold Decimal.toInt64? at h
  split at h
  next hrange =>
    obtain rfl := Option.some.inj h
    exact Int64.toInt_ofInt_of_le hrange.1 (by
      have hhigh := hrange.2
      rw [Int64.toInt_maxValue] at hhigh
      omega)
  · cases h

/-! ### Keys and escapes -/

theorem quotedKey_spelling {key : List Char} (h : quotedKey text = some (key, spelling)) :
    spelling = key.flatMap escapeQuote ++ ['\''] := by
  fun_induction quotedKey text generalizing key spelling with
  | case1 => cases h
  | case2 rest ih =>
    obtain ⟨⟨k, s⟩, hs, h⟩ := Option.map_eq_some_iff.1 h
    obtain ⟨rfl, rfl⟩ := Prod.mk.inj h
    rw [ih hs]
    rfl
  | case3 rest =>
    obtain ⟨rfl, rfl⟩ := Prod.mk.inj (Option.some.inj h)
    rfl
  | case4 c rest _ hc ih =>
    obtain ⟨⟨k, s⟩, hs, h⟩ := Option.map_eq_some_iff.1 h
    obtain ⟨rfl, rfl⟩ := Prod.mk.inj h
    rw [ih hs, List.flatMap_cons, escapeQuote, if_neg hc]
    rfl

theorem toNat_of_charOfCode {n : Nat} {c : Char} (h : charOfCode n = some c) : c.toNat = n := by
  unfold charOfCode at h
  split at h
  next hvalid =>
    rw [← Option.some.inj h, Char.ofNat, dif_pos hvalid]
    rfl
  · cases h

end Lexeme

/-! ### Readers -/

open Lexeme

namespace Reader

variable {text : List Char} {l : Lexeme}

theorem spelledAs_of_integer? (h : integer? text = some l) :
    l.token.kind = .integer ∧ l.token.SpelledAs l.spelling := by
  obtain ⟨run, value, rfl, hdigits, hvalue, rfl⟩ := integer?_eq_some_iff.1 h
  have hrun : ∀ c ∈ (splitMinus text).2.takeWhile fun c => c.isDigit || c == '_',
      c.isDigit = true ∨ c = '_' := by
    intro c hc
    simpa using forall_mem_takeWhile _ _ c hc
  refine ⟨rfl, .decimal (splitMinus_fst text) hrun ?_ (toInt_of_toInt64? hvalue)⟩
  obtain ⟨c, hc⟩ := List.exists_mem_of_ne_nil _ hdigits
  obtain ⟨hmem, hne⟩ := List.mem_filter.1 hc
  exact ⟨c, hmem, (hrun c hmem).resolve_right (bne_iff_ne.1 hne)⟩

theorem spelledAs_of_hexInteger? (h : hexInteger? text = some l) :
    l.token.kind = .integer ∧ l.token.SpelledAs l.spelling := by
  obtain ⟨rest, value, rfl, hne, hvalue, rfl⟩ := hexInteger?_eq_some_iff.1 h
  exact ⟨rfl, .hexadecimal hne (forall_mem_takeWhile _ _) (toInt_of_toInt64? hvalue)⟩

/-- What a reader takes from a text is a spelling of the token, which is of the reader's kind. -/
theorem spelledAs_of_read {r : Reader} (h : r.read text = some l) :
    l.token.kind = r.kind ∧ l.token.SpelledAs l.spelling := by
  cases r with
  | symbol s =>
    obtain ⟨-, rfl⟩ := symbol?_eq_some_iff.1 h
    exact ⟨rfl, .symbol s⟩
  | input =>
    obtain ⟨letter, rest, rfl, -, rfl⟩ := input?_eq_some_iff.1 h
    refine ⟨rfl, ?_⟩
    have hspelled := Token.SpelledAs.input (String.ofList ('$' :: letter :: rest.takeWhile isNameChar))
    rwa [String.toList_ofList] at hspelled
  | float =>
    obtain ⟨spelling, value, hspelling, hvalue, rfl⟩ := float?_eq_some_iff.1 h
    exact ⟨rfl, .float (isFloatText_of_floatSpelling hspelling) hvalue⟩
  | hexInteger => exact spelledAs_of_hexInteger? h
  | integer => exact spelledAs_of_integer? h
  | quotedSegment =>
    obtain ⟨rest, key, spelling, rfl, hkey, rfl⟩ := quotedSegment?_eq_some_iff.1 h
    refine ⟨rfl, ?_⟩
    have hspelled := Token.SpelledAs.quotedSegment (String.ofList key)
    rwa [String.toList_ofList, quotedSpelling, List.cons_append, ← quotedKey_spelling hkey] at hspelled
  | bareSegment =>
    obtain ⟨-, rfl⟩ := bareSegment?_eq_some_iff.1 h
    refine ⟨rfl, ?_⟩
    have hspelled := Token.SpelledAs.bareSegment (String.ofList (text.takeWhile isBareChar))
    rwa [String.toList_ofList] at hspelled
  | escape =>
    rcases escape?_eq_some_iff.1 h with
      ⟨rest, char, rfl, hlength, hdigits, hchar, rfl⟩ | ⟨letter, rest, char, rfl, hchar, rfl⟩
    · exact ⟨rfl, .codeEscape hlength hdigits (toNat_of_charOfCode hchar)⟩
    · exact ⟨rfl, .letterEscape hchar⟩
  | characters =>
    obtain ⟨-, rfl⟩ := characters?_eq_some_iff.1 h
    refine ⟨rfl, ?_⟩
    have hspelled := Token.SpelledAs.characters (String.ofList (text.takeWhile isTextChar))
    rwa [String.toList_ofList] at hspelled

end Reader

/-! ### Modes -/

namespace Mode

variable {mode : Mode} {text : List Char} {l : Lexeme} {transition : Transition}

/-- Rules of one mode for tokens of the same kind have the same effect. -/
theorem transition?_of_mem_rules {rule : Rule} (h : rule ∈ mode.rules) :
    mode.transition? rule.reader.kind = some rule.transition := by
  revert h rule
  cases mode <;> decide

/-- What a mode reads is a spelling of a token that it has a rule for. -/
theorem spelledAs_of_read (h : mode.read text = some (l, transition)) :
    mode.transition? l.token.kind = some transition ∧ l.token.SpelledAs l.spelling := by
  obtain ⟨rule, hrule, hread, rfl, -⟩ := exists_rule_of_read h
  obtain ⟨hkind, hspelled⟩ := Reader.spelledAs_of_read hread
  exact ⟨hkind ▸ transition?_of_mem_rules hrule, hspelled⟩

end Mode

end ConfigLang
