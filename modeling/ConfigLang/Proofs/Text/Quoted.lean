import ConfigLang.Proofs.Token.IntegerSpellings
import ConfigLang.Text.Quoted

/-!
# Quoted texts and their ends

In a text between quotes the closing quote is the first one that no backslash belongs to. So a quoted text shows
where it ends and what it stands for, whatever characters are in it and whatever follows it.

* `readEscaped` - the character that an escaped text begins with.
* `readEscaped_escape` - it is the one that was escaped, and nothing more is read.
* `quoteString_append_inj`, `quoteChar_append_inj` - the result, for texts and for characters.
-/

namespace ConfigLang.Text

/-- The character that the beginning of an escaped text stands for, and the text behind it. -/
def readEscaped : List Char → Option (Char × List Char)
  | '\\' :: '0' :: rest => some ('\x00', rest)
  | '\\' :: 't' :: rest => some ('\t', rest)
  | '\\' :: 'r' :: rest => some ('\r', rest)
  | '\\' :: 'n' :: rest => some ('\n', rest)
  | '\\' :: 'u' :: '\x7b' :: rest =>
    some (Char.ofNat (Decimal.natOfDigits 16 (rest.takeWhile (· != '\x7d'))),
      (rest.dropWhile (· != '\x7d')).tail)
  | '\\' :: c :: rest => some (c, rest)
  | c :: rest => some (c, rest)
  | [] => none

theorem readEscaped_of_ne_backslash {c : Char} (hc : c ≠ '\\') (rest : List Char) :
    readEscaped (c :: rest) = some (c, rest) := by
  unfold readEscaped
  split <;> simp_all

/-- The digits of a code point end at the closing brace. -/
theorem readEscaped_codePointEscape (c : Char) (rest : List Char) :
    readEscaped (codePointEscape c ++ rest) = some (c, rest) := by
  have hdigits : ∀ d ∈ Nat.toDigits 16 c.toNat, (d != '\x7d') = true := by
    intro d hd
    have hhex := Decimal.isHexDigit_of_mem_toDigits hd
    rw [bne_iff_ne]
    rintro rfl
    exact absurd hhex (by decide)
  have hbrace : BeginsWithout (· != '\x7d') ('\x7d' :: rest) := beginsWithout_cons (by decide)
  have htext : codePointEscape c ++ rest =
      '\\' :: 'u' :: '\x7b' :: (Nat.toDigits 16 c.toNat ++ '\x7d' :: rest) := by
    simp [codePointEscape]
  rw [htext, readEscaped, takeWhile_append_of_beginsWithout hdigits hbrace,
    dropWhile_append_of_beginsWithout hdigits hbrace,
    Decimal.natOfDigits_toDigits (by decide) (by decide), Char.ofNat_toNat, List.tail_cons]

section Quotes

variable {quote : Char}

/-- An escaped character is read as this character, and nothing behind it is read. -/
theorem readEscaped_escape (hquote : quote = '"' ∨ quote = '\'') (c : Char) (rest : List Char) :
    readEscaped (escape quote c ++ rest) = some (c, rest) := by
  by_cases hbackslash : c = '\\' ∨ c = quote
  · rcases hbackslash with rfl | rfl
    · rcases hquote with rfl | rfl <;> rfl
    · rcases hquote with rfl | rfl <;> rfl
  · rw [escape]
    split_ifs with h0 ht hr hn hplain
    · rw [h0]
      rfl
    · rw [ht]
      rfl
    · rw [hr]
      rfl
    · rw [hn]
      rfl
    · exact readEscaped_of_ne_backslash (fun h => hbackslash (Or.inl h)) rest
    · exact readEscaped_codePointEscape c rest

/-- An escaped character never begins with the closing quote. -/
theorem exists_escape_eq_cons (hquote : quote = '"' ∨ quote = '\'') (c : Char) :
    ∃ first others, escape quote c = first :: others ∧ first ≠ quote := by
  have hne : '\\' ≠ quote := by
    rcases hquote with rfl | rfl <;> decide
  rw [escape]
  split_ifs with h0 ht hr hn hbackslash hplain
  · exact ⟨_, _, rfl, hne⟩
  · exact ⟨_, _, rfl, hne⟩
  · exact ⟨_, _, rfl, hne⟩
  · exact ⟨_, _, rfl, hne⟩
  · exact ⟨_, _, rfl, hne⟩
  · exact ⟨_, _, rfl, fun h => hbackslash (Or.inr h)⟩
  · exact ⟨_, _, rfl, hne⟩

theorem escape_append_inj (hquote : quote = '"' ∨ quote = '\'') {c d : Char} {rest rest' : List Char}
    (h : escape quote c ++ rest = escape quote d ++ rest') : c = d ∧ rest = rest' := by
  have hread := congrArg readEscaped h
  rw [readEscaped_escape hquote, readEscaped_escape hquote] at hread
  exact Prod.mk.inj (Option.some.inj hread)

/-- The closing quote is not the beginning of an escaped character. -/
theorem quote_ne_escape_append (hquote : quote = '"' ∨ quote = '\'') (c : Char) (rest rest' : List Char) :
    quote :: rest ≠ escape quote c ++ rest' := by
  obtain ⟨first, others, hescape, hne⟩ := exists_escape_eq_cons hquote c
  rw [hescape]
  intro h
  exact hne (List.cons.inj h).1.symm

/-- Escaped characters up to the closing quote are known one by one, and so is the text behind the quote. -/
theorem escaped_append_inj (hquote : quote = '"' ∨ quote = '\'') {text text' rest rest' : List Char}
    (h : text.flatMap (escape quote) ++ quote :: rest = text'.flatMap (escape quote) ++ quote :: rest') :
    text = text' ∧ rest = rest' := by
  induction text generalizing text' with
  | nil =>
    cases text' with
    | nil => exact ⟨rfl, (List.cons.inj h).2⟩
    | cons d text' =>
      rw [List.flatMap_cons, List.append_assoc] at h
      exact absurd h (quote_ne_escape_append hquote d _ _)
  | cons c text ih =>
    rw [List.flatMap_cons, List.append_assoc] at h
    cases text' with
    | nil => exact absurd h.symm (quote_ne_escape_append hquote c _ _)
    | cons d text' =>
      rw [List.flatMap_cons, List.append_assoc] at h
      obtain ⟨rfl, hbehind⟩ := escape_append_inj hquote h
      obtain ⟨rfl, hrest⟩ := ih hbehind
      exact ⟨rfl, hrest⟩

end Quotes

/-- A text in double quotes shows what it stands for and where it ends. -/
theorem quoteString_append_inj {s t : String} {rest rest' : List Char}
    (h : (quoteString s).toList ++ rest = (quoteString t).toList ++ rest') : s = t ∧ rest = rest' := by
  simp only [quoteString, String.toList_ofList, List.cons_append, List.append_assoc, List.nil_append] at h
  obtain ⟨hchars, hrest⟩ := escaped_append_inj (Or.inl rfl) (List.cons.inj h).2
  exact ⟨String.toList_injective hchars, hrest⟩

/-- So does a character in single quotes. -/
theorem quoteChar_append_inj {c d : Char} {rest rest' : List Char}
    (h : (quoteChar c).toList ++ rest = (quoteChar d).toList ++ rest') : c = d ∧ rest = rest' := by
  simp only [quoteChar, String.toList_ofList, List.cons_append, List.append_assoc, List.nil_append] at h
  obtain ⟨rfl, hbehind⟩ := escape_append_inj (Or.inr rfl) (List.cons.inj h).2
  exact ⟨rfl, (List.cons.inj hbehind).2⟩

end ConfigLang.Text
