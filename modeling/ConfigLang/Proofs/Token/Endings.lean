import ConfigLang.Proofs.Token.Truncation

/-!
# Where a token ends

A token that has been read is read with another text behind it, too, as long as it cannot go on with the first
character of that text. No token outside string literals goes on with a space. Inside one the next character is
part of the literal, so there it stays the same.

* `Reader.read_append` - a token ends where it cannot go on.
* `Lexeme.isTight`, `Reader.isTight_of_read` - fixed symbols, names and numbers hold no space and no backslash.
* `Lexeme.Escapes`, `Lexeme.quotedSegment?_eq_none_iff` - the texts that close no quoted key.
* `Mode.read_before_space` - outside string literals a token is read in front of a space.
* `Mode.read_append_space` - there it is read if a space stands further behind, too.
* `Mode.read_in_string` - at and inside a string literal it is read in front of the same character.
* `Mode.not_quote_behind_backslash` - a token that ends in a backslash has no quote behind it.

A quoted key is the one token that is not decided by the text right behind it: without a closing quote in the
whole rest of the document it is a bare key. So `Mode.read_before_space` has a hypothesis about this reader.
-/

namespace ConfigLang

open Lexeme

/-! ### Runs of characters -/

section Runs

variable {p : Char → Bool} {run behind text : List Char}

theorem BeginsWithout.of_head?_eq (h : BeginsWithout p behind) (htext : text.head? = behind.head?) :
    BeginsWithout p text :=
  fun c hc => h c (htext ▸ hc)

/-- A run of characters is not longer in front of a character that it cannot go on with. -/
theorem takeWhile_append_of_not {c : Char} (hc : p c = false) :
    (text ++ c :: behind).takeWhile p = text.takeWhile p := by
  have hnone : (c :: behind).takeWhile p = [] := List.takeWhile_cons_of_neg (Bool.eq_false_iff.1 hc)
  rw [List.takeWhile_append, hnone, List.append_nil]
  split
  next hall => rw [(List.takeWhile_prefix p).eq_of_length hall]
  next => rfl

theorem BeginsWithout.append_cons {c : Char} (h : BeginsWithout p text) (hc : p c = false) :
    BeginsWithout p (text ++ c :: behind) := by
  cases text with
  | nil => exact beginsWithout_cons hc
  | cons d text => exact h.of_head?_eq rfl

/-- A prefix that lacks a character ends in front of it. -/
theorem prefix_of_prefix_append_cons {c : Char} (h : run <+: text ++ c :: behind) (hc : c ∉ run) :
    run <+: text := by
  rcases List.prefix_or_prefix_of_prefix h (List.prefix_append text _) with hshort | ⟨tail, rfl⟩
  · exact hshort
  · cases tail with
    | nil => simp
    | cons d tail =>
      have htail := (List.prefix_append_right_inj text).1 h
      rw [(List.cons_prefix_cons.1 htail).1] at hc
      exact absurd (List.mem_append_right _ List.mem_cons_self) hc

end Runs

namespace Lexeme

variable {l : Lexeme} {text behind : List Char}

/-! ### Characters of a spelling -/

/-- The character is neither a space nor a backslash. -/
def isTight (c : Char) : Bool := !isSpace c && c != '\\'

theorem isTight_of_class {p : Char → Bool}
    (hp : [' ', '\t', '\r', '\n', '\\'].all (fun c => !p c) = true) {c : Char} (hc : p c = true) :
    isTight c = true := by
  by_contra hloose
  have hother := Bool.eq_false_iff.2 hloose
  simp only [isTight, isSpace, Bool.and_eq_false_iff, Bool.not_eq_false', Bool.or_eq_true, beq_iff_eq,
    bne_eq_false_iff_eq] at hother
  have hmem : c ∈ [' ', '\t', '\r', '\n', '\\'] := by
    rcases hother with (((rfl | rfl) | rfl) | rfl) | rfl <;> decide
  have hnot := List.all_eq_true.1 hp c hmem
  rw [hc] at hnot
  cases hnot

theorem isTight_of_isDigits {digits : List Char} (h : IsDigits digits) : ∀ c ∈ digits, isTight c = true :=
  fun c hc => isTight_of_class (by decide) (h.2 c hc)

theorem isTight_of_isExponentText {exponent : List Char} (h : IsExponentText exponent) :
    ∀ c ∈ exponent, isTight c = true := by
  rcases h with rfl | ⟨mark, sign, digits, hmark, hsign, hdigits, rfl⟩
  · exact fun c hc => absurd hc List.not_mem_nil
  · have hmarkTight : isTight mark = true := by
      rcases hmark with rfl | rfl <;> decide
    have hsignTight : ∀ c ∈ sign, isTight c = true := by
      rcases hsign with rfl | rfl | rfl <;> exact List.all_eq_true.1 (by decide)
    refine List.forall_mem_cons.2 ⟨hmarkTight, List.forall_mem_append.2 ⟨hsignTight, ?_⟩⟩
    exact isTight_of_isDigits hdigits

theorem isTight_of_isFloatText {spelling : List Char} (h : IsFloatText spelling) :
    ∀ c ∈ spelling, isTight c = true := by
  obtain ⟨minus, whole, fraction, exponent, hminus, hwhole, hfraction, hexponent, rfl⟩ := h
  have hminusTight : ∀ c ∈ minus, isTight c = true := by
    rcases hminus with rfl | rfl <;> exact List.all_eq_true.1 (by decide)
  refine List.forall_mem_append.2 ⟨List.forall_mem_append.2 ⟨?_, ?_⟩, isTight_of_isExponentText hexponent⟩
  · exact List.forall_mem_append.2 ⟨hminusTight, isTight_of_isDigits hwhole⟩
  · exact List.forall_mem_cons.2 ⟨by decide, isTight_of_isDigits hfraction⟩

theorem isTight_of_spelledAs {t : Token} {spelling : List Char} (hkind : t.kind = .integer)
    (h : t.SpelledAs spelling) : ∀ c ∈ spelling, isTight c = true := by
  cases h with
  | @decimal n minus run hminus hrun =>
    have hminusTight : ∀ c ∈ minus, isTight c = true := by
      rcases hminus with rfl | rfl <;> exact List.all_eq_true.1 (by decide)
    refine List.forall_mem_append.2 ⟨hminusTight, fun c hc => ?_⟩
    rcases hrun c hc with hdigit | rfl
    · exact isTight_of_class (by decide) hdigit
    · decide
  | hexadecimal hne hdigits =>
    refine List.forall_mem_cons.2 ⟨by decide, List.forall_mem_cons.2 ⟨by decide, fun c hc => ?_⟩⟩
    exact isTight_of_class (by decide) (hdigits c hc)
  | _ => cases hkind

/-- A quoted key ends with its quote. -/
theorem getLast?_of_quotedSegment? (h : quotedSegment? text = some l) : l.spelling.getLast? = some '\'' := by
  obtain ⟨rest, key, spelling, -, hkey, rfl⟩ := quotedSegment?_eq_some_iff.1 h
  rw [quotedKey_spelling hkey, ← List.cons_append, List.getLast?_concat]

/-! ### Keys that are not closed -/

/-- The second character may follow the first one in a text that closes no quoted key: a quote stands behind
a backslash. -/
def Escapes (a b : Char) : Prop := b = '\'' → a = '\\'

/-- A key is not closed if each quote in the text has its backslash. The character in front of the text is no
backslash that belongs to a quote. -/
theorem quotedKey_eq_none_iff {before : Char} {text : List Char}
    (hbefore : ∀ tail, before = '\\' → text = '\'' :: tail → False) :
    quotedKey text = none ↔ List.IsChain Escapes (before :: text) := by
  fun_induction quotedKey text generalizing before with
  | case1 => simp
  | case2 rest ih =>
    have hrest : quotedKey rest = none ↔ List.IsChain Escapes ('\'' :: rest) := ih (by simp)
    rw [Option.map_eq_none_iff, hrest, List.isChain_cons_cons, List.isChain_cons_cons]
    simp [Escapes]
  | case3 rest =>
    have hslash : before ≠ '\\' := fun h => hbefore rest h rfl
    simp [Escapes, hslash]
  | case4 c rest hbare hc ih =>
    rw [Option.map_eq_none_iff, ih hbare, List.isChain_cons_cons]
    simp [Escapes, hc]

theorem quotedSegment?_eq_none_iff {text : List Char} :
    quotedSegment? text = none ↔ (text.head? = some '\'' → List.IsChain Escapes text) := by
  cases text with
  | nil => simp [quotedSegment?]
  | cons c rest =>
    by_cases hc : c = '\''
    · have hrest : quotedKey rest = none ↔ List.IsChain Escapes ('\'' :: rest) :=
        quotedKey_eq_none_iff (by simp)
      rw [hc, quotedSegment?, Option.map_eq_none_iff, hrest]
      simp
    · rw [quotedSegment?]
      · simp [hc]
      · intro tail heq
        exact hc (List.cons.inj heq).1

end Lexeme

/-! ### Readers -/

namespace Reader

variable {r : Reader} {l other : Lexeme} {c : Char} {text behind : List Char}

/-- The reader of a fixed symbol, of a name or of a number. -/
def isTight : Reader → Bool
  | quotedSegment => false
  | bareSegment => false
  | escape => false
  | characters => false
  | _ => true

/-- A token ends in front of a character that it cannot go on with. -/
theorem read_append (h : r.read (l.spelling ++ behind) = some l) (htext : BeginsWithout r.goesOn text) :
    r.read (l.spelling ++ text) = some l := by
  by_cases hfloat : r = .float
  · rw [hfloat] at h htext ⊢
    obtain ⟨spelling, value, hspelling, hvalue, rfl⟩ := float?_eq_some_iff.1 h
    exact float?_append (isFloatText_of_floatSpelling hspelling) hvalue htext
  · exact (endsBy hfloat h).read_append htext

/-- No token outside string literals goes on with a space. -/
theorem goesOn_of_isSpace (hr : r ≠ .characters) (hc : isSpace c = true) : r.goesOn c = false := by
  simp only [isSpace, Bool.or_eq_true, beq_iff_eq] at hc
  cases r with
  | characters => exact absurd rfl hr
  | _ => rcases hc with ((rfl | rfl) | rfl) | rfl <;> rfl

/-- Fixed symbols, names and numbers hold neither a space nor a backslash. -/
theorem isTight_of_read (hr : r.isTight = true) (h : r.read text = some l) :
    ∀ c ∈ l.spelling, Lexeme.isTight c = true := by
  cases r with
  | symbol s =>
    obtain ⟨-, rfl⟩ := symbol?_eq_some_iff.1 h
    cases s <;> exact List.all_eq_true.1 (by decide)
  | input =>
    obtain ⟨letter, rest, rfl, hletter, rfl⟩ := input?_eq_some_iff.1 h
    refine List.forall_mem_cons.2 ⟨by decide, List.forall_mem_cons.2 ⟨?_, ?_⟩⟩
    · exact isTight_of_class (by decide) hletter
    · exact fun c hc => isTight_of_class (by decide) (forall_mem_takeWhile isNameChar rest c hc)
  | float =>
    obtain ⟨spelling, value, hspelling, -, rfl⟩ := float?_eq_some_iff.1 h
    exact isTight_of_isFloatText (isFloatText_of_floatSpelling hspelling)
  | hexInteger =>
    obtain ⟨hkind, hspelled⟩ := spelledAs_of_hexInteger? h
    exact isTight_of_spelledAs hkind hspelled
  | integer =>
    obtain ⟨hkind, hspelled⟩ := spelledAs_of_integer? h
    exact isTight_of_spelledAs hkind hspelled
  | quotedSegment => cases hr
  | bareSegment => cases hr
  | escape => cases hr
  | characters => cases hr

/-- A token without spaces that is read in front of a space is read without it. -/
theorem read_of_read_before_space (hr : r.isTight = true) (hc : isSpace c = true)
    (h : r.read (l.spelling ++ c :: text) = some other) : r.read l.spelling = some other := by
  obtain ⟨-, hprefix⟩ := ne_nil_and_isPrefix_of_read h
  have htight := isTight_of_read hr h
  have hnot : c ∉ other.spelling := by
    intro hmem
    have hloose := htight c hmem
    rw [Lexeme.isTight, hc] at hloose
    cases hloose
  obtain ⟨more, hmore⟩ := prefix_of_prefix_append_cons hprefix hnot
  rw [← hmore] at h ⊢
  rw [List.append_assoc] at h
  exact read_of_append h

/-- Outside string literals all tokens but quoted keys are read in front of a space as they are at the end of
the text. -/
theorem read_append_space (hr : r.isTight = true ∨ r = .bareSegment) (hc : isSpace c = true) :
    r.read (text ++ c :: behind) = r.read text := by
  rcases hr with htight | rfl
  · have hcut : ∀ {other}, r.read (text ++ c :: behind) = some other → r.read text = some other :=
      fun hother => @read_of_read_before_space r ⟨.symbol .dot, text⟩ _ c behind htight hc hother
    cases hread : r.read text with
    | none =>
      refine Option.eq_none_iff_forall_ne_some.2 fun other hother => ?_
      cases hread.symm.trans (hcut hother)
    | some l =>
      obtain ⟨longer, hlonger⟩ : ∃ longer, r.read (text ++ c :: behind) = some longer := by
        by_cases hfloat : r = .float
        · subst hfloat
          exact exists_read_append Reader.noConfusion Reader.noConfusion hread (c :: behind)
        · obtain ⟨-, more, rfl⟩ := ne_nil_and_isPrefix_of_read hread
          have hends := endsBy hfloat hread
          have hcharacters : r ≠ .characters := by
            rintro rfl
            cases htight
          refine ⟨l, ?_⟩
          rw [List.append_assoc]
          exact hends.read_append (hends.beginsWithout.append_cons (goesOn_of_isSpace hcharacters hc))
      rw [hlonger, ← hcut hlonger, hread]
  · have hbare : isBareChar c = false := by
      rw [isBareChar, hc]
      rfl
    simp only [read, bareSegment?, takeWhile_append_of_not hbare]

end Reader

/-! ### Modes -/

namespace Mode

variable {mode : Mode} {rule earlier : Rule} {transition : Transition} {l : Lexeme} {c : Char}
  {text behind : List Char}

/-- In front of a rule there is none for runs of text, and a quoted key is the only other token with spaces
that is looked for. -/
theorem isTight_of_earlier (hmode : mode ≠ .string) : ∀ rule ∈ mode.rules,
    rule.reader ≠ .characters ∧ ∀ earlier ∈ mode.rules.takeWhile (· ≠ rule),
      earlier.reader.isTight = true ∨ earlier.reader = .quotedSegment := by
  cases mode with
  | string => exact absurd rfl hmode
  | _ => decide

/-- Outside string literals a token is read in front of a space. The hypothesis is about an unterminated
quoted key: no closing quote may come with the text. -/
theorem read_before_space (h : mode.read (l.spelling ++ behind) = some (l, transition))
    (hmode : mode ≠ .string) (hc : isSpace c = true)
    (hquote : quotedSegment? (l.spelling ++ behind) = none →
      quotedSegment? (l.spelling ++ c :: text) = none) :
    mode.read (l.spelling ++ c :: text) = some (l, transition) := by
  obtain ⟨rule, hrule, hread, rfl, hnone⟩ := exists_rule_of_read h
  obtain ⟨hcharacters, htight⟩ := isTight_of_earlier hmode rule hrule
  have hends : BeginsWithout rule.reader.goesOn (c :: text) :=
    beginsWithout_cons (Reader.goesOn_of_isSpace hcharacters hc)
  refine read_eq_some hrule (fun earlier hearlier => ?_)
    (Reader.read_append hread hends)
  rcases htight earlier hearlier with htight | hquoted
  · have halone : earlier.reader.read (l.spelling ++ []) = none :=
      read_eq_none_of_append hrule hearlier hread (hnone earlier hearlier) fun _ => rfl
    -- A token without spaces would end in front of the space, so it would have been read before.
    refine Option.eq_none_iff_forall_ne_some.2 fun other hother => ?_
    rw [List.append_nil, Reader.read_of_read_before_space htight hc hother] at halone
    cases halone
  · have hbehind := hnone earlier hearlier
    rw [hquoted] at hbehind ⊢
    exact hquote hbehind

/-- Outside string literals the rules look for fixed symbols, names, numbers and keys. -/
theorem reader_of_not_string (hmode : mode ≠ .string) : ∀ rule ∈ mode.rules,
    rule.reader.isTight = true ∨ rule.reader = .bareSegment ∨ rule.reader = .quotedSegment := by
  cases mode with
  | string => exact absurd rfl hmode
  | _ => decide

/-- Outside string literals a token is read in front of a space as it is at the end of the text, if the text
behind the space does not close a quoted key. -/
theorem read_append_space (h : mode.read text = some (l, transition)) (hmode : mode ≠ .string)
    (hc : isSpace c = true) (hquote : quotedSegment? (text ++ c :: behind) = quotedSegment? text) :
    mode.read (text ++ c :: behind) = some (l, transition) := by
  have hsame : ∀ rule ∈ mode.rules, rule.reader.read (text ++ c :: behind) = rule.reader.read text := by
    intro rule hrule
    rcases reader_of_not_string hmode rule hrule with htight | hbare | hquoted
    · exact Reader.read_append_space (Or.inl htight) hc
    · exact Reader.read_append_space (Or.inr hbare) hc
    · rw [hquoted]
      exact hquote
  obtain ⟨rule, hrule, hread, rfl, hnone⟩ := exists_rule_of_read h
  refine read_eq_some hrule (fun earlier hearlier => ?_) ((hsame rule hrule).trans hread)
  rw [hsame earlier ((List.takeWhile_sublist _).subset hearlier)]
  exact hnone earlier hearlier

/-- The rules for tokens that open a string literal, stand inside one or close it: no two of them read tokens
that begin alike, and only the quote leaves the literal. -/
theorem reader_of_string (mode : Mode) : ∀ rule ∈ mode.rules,
    mode = .string ∨ rule.transition = .push .string ∨ rule.transition = .replace .string →
      rule.reader.rivals = [] ∧ rule.reader ≠ .bareSegment ∧ rule.reader ≠ .float ∧
        (rule.transition = .pop → rule.reader = .symbol .doubleQuote) := by
  cases mode <;> decide

/-- At and inside a string literal a token is read in front of the same character, and the quote that closes
the literal is read in front of any. -/
theorem read_in_string (h : mode.read (l.spelling ++ behind) = some (l, transition))
    (hstring : mode = .string ∨ transition = .push .string ∨ transition = .replace .string)
    (htext : transition ≠ .pop → text.head? = behind.head?) :
    mode.read (l.spelling ++ text) = some (l, transition) := by
  obtain ⟨rule, hrule, hread, rfl, -⟩ := exists_rule_of_read h
  obtain ⟨hrivals, hbare, hfloat, hquote⟩ := reader_of_string mode rule hrule hstring
  have hends : BeginsWithout rule.reader.goesOn text := by
    by_cases hpop : rule.transition = .pop
    · rw [hquote hpop]
      exact fun _ _ => rfl
    · exact (Reader.endsBy hfloat hread).beginsWithout.of_head?_eq (htext hpop)
  obtain ⟨first, tail, hspelling⟩ :=
    List.exists_cons_of_ne_nil (Reader.ne_nil_and_isPrefix_of_read hread).1
  have hbegins : rule.reader.begins first = true := by
    rw [hspelling, List.cons_append] at hread
    exact Reader.begins_of_read hread
  refine read_eq_some hrule (fun earlier hearlier => ?_) (Reader.read_append hread hends)
  rw [hspelling]
  refine Reader.read_eq_none (begins_eq_false_of_earlier hrule hbare hearlier ?_ hbegins) _
  rw [hrivals]
  exact List.not_mem_nil

/-- The tokens that can end in a backslash, except for those behind which a string literal goes on. -/
theorem reader_of_backslash (mode : Mode) : ∀ rule ∈ mode.rules,
    mode ≠ .string ∨ rule.transition = .pop →
      rule.reader.isTight = true ∨ rule.reader = .quotedSegment ∨ rule.reader = .bareSegment := by
  cases mode <;> decide

/-- A token that ends in a backslash is a bare key or stands inside a string literal, and a bare key goes on
with a quote. -/
theorem not_quote_behind_backslash (h : mode.read (l.spelling ++ behind) = some (l, transition))
    (hmode : mode ≠ .string ∨ transition = .pop) (hlast : l.spelling.getLast? = some '\\') :
    behind.head? ≠ some '\'' := by
  obtain ⟨rule, hrule, hread, rfl, -⟩ := exists_rule_of_read h
  rcases reader_of_backslash mode rule hrule hmode with htight | hquoted | hbare
  · have hslash := Reader.isTight_of_read htight hread _ (List.mem_of_getLast? hlast)
    exact absurd hslash (by decide)
  · rw [hquoted] at hread
    rw [getLast?_of_quotedSegment? hread] at hlast
    exact absurd (Option.some.inj hlast) (by decide)
  · rw [hbare] at hread
    intro hhead
    exact absurd ((Reader.endsBy Reader.noConfusion hread).beginsWithout _ hhead) (by decide)

end Mode

end ConfigLang
