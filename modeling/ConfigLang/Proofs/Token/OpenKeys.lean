import ConfigLang.Proofs.Token.Endings
import Mathlib.Data.List.Chain

/-!
# Open keys

A key may begin with a quote that nothing in the rest of the document closes. It is read without quotes then,
and the quote is a part of it. Whether it is closed may be decided far behind it: what a text behind a key
does to it depends on the quotes in the text only.

* `Lexeme.IsOpenKey` - a key that begins with a quote and is read without quotes.
* `Mode.closed_or_open_of_quote` - all that can be read where a quote is.
* `Mode.isChain_of_isOpenKey` - no quote behind an open key closes it.
* `Mode.not_segment_of_backslash` - a key that ends in a backslash is not read from its quotes.
* `quotedSegment?_eq_none_of_same_token` - a key is the same open key only if it is not closed.
-/

namespace ConfigLang

open Lexeme

/-- The token is a key with the characters that spell it, and it begins with a quote: no quote closes it. -/
def Lexeme.IsOpenKey (l : Lexeme) : Prop :=
  l.token = .segment (String.ofList l.spelling) ∧ l.spelling.head? = some '\''

theorem Lexeme.IsOpenKey.head?_append {l : Lexeme} (h : l.IsOpenKey) (text : List Char) :
    (l.spelling ++ text).head? = some '\'' := by
  rw [List.head?_append, h.2]
  rfl

variable {mode : Mode} {l other : Lexeme} {transition : Transition} {c : Char} {text kept behind : List Char}

/-- A key in quotes and how it is spelled. -/
theorem exists_key_of_quotedSegment? (h : quotedSegment? text = some l) :
    ∃ key, l.token = .segment (String.ofList key) ∧ l.spelling = quotedSpelling key := by
  obtain ⟨rest, key, spelling, -, hkey, rfl⟩ := quotedSegment?_eq_some_iff.1 h
  refine ⟨key, rfl, ?_⟩
  rw [quotedKey_spelling hkey, quotedSpelling, List.cons_append]

theorem length_lt_quotedSpelling (key : List Char) : key.length < (quotedSpelling key).length := by
  have hle : key.length ≤ (key.flatMap escapeQuote).length := by
    induction key with
    | nil => exact Nat.le_refl 0
    | cons c key ih =>
      have hc : 1 ≤ (escapeQuote c).length := by
        unfold escapeQuote
        split <;> simp
      rw [List.flatMap_cons, List.length_append, List.length_cons]
      omega
  rw [quotedSpelling, List.length_append, List.length_cons]
  omega

theorem mem_quotedSpelling {key : List Char} (h : c ∈ quotedSpelling key) :
    c = '\'' ∨ c = '\\' ∨ c ∈ key := by
  rw [quotedSpelling, List.mem_append, List.mem_cons, List.mem_flatMap, List.mem_singleton] at h
  rcases h with (rfl | ⟨d, hd, hc⟩) | rfl
  · exact Or.inl rfl
  · rw [escapeQuote] at hc
    split at hc
    · rcases List.mem_pair.1 hc with rfl | rfl
      · exact Or.inr (Or.inl rfl)
      · exact Or.inl rfl
    · rw [List.mem_singleton.1 hc]
      exact Or.inr (Or.inr hd)
  · exact Or.inl rfl

/-- A key that is closed is not open. -/
theorem not_isOpenKey_of_quotedSegment? (h : quotedSegment? text = some l) : ¬ l.IsOpenKey := by
  rintro ⟨htoken, -⟩
  obtain ⟨key, hkey, hspelling⟩ := exists_key_of_quotedSegment? h
  have hsame : l.spelling = key := String.ofList_injective (Token.segment.inj (htoken.symm.trans hkey))
  have hlt := length_lt_quotedSpelling key
  rw [← hspelling, hsame] at hlt
  exact Nat.lt_irrefl _ hlt

/-- Outside string literals only keys begin with a quote, and those in quotes have priority. -/
theorem Mode.reader_of_quote (mode : Mode) : ∀ rule ∈ mode.rules, mode ≠ .string →
    rule.reader.begins '\'' = true → rule.reader = .quotedSegment ∨
      rule.reader = .bareSegment ∧ ⟨.quotedSegment, .stay⟩ ∈ mode.rules.takeWhile (· ≠ rule) := by
  cases mode <;> decide

/-- Outside string literals a token that begins with a quote is a key. Either a quote closes it, or none in the
text does. -/
theorem Mode.closed_or_open_of_quote (h : mode.read text = some (l, transition)) (hmode : mode ≠ .string)
    (hquote : text.head? = some '\'') :
    quotedSegment? text = some l ∨
      quotedSegment? text = none ∧ l.IsOpenKey ∧ l.spelling = text.takeWhile isBareChar := by
  obtain ⟨rest, rfl⟩ := List.head?_eq_some_iff.1 hquote
  obtain ⟨rule, hrule, hread, -, hnone⟩ := exists_rule_of_read h
  rcases Mode.reader_of_quote mode rule hrule hmode (Reader.begins_of_read hread) with hquoted | ⟨hbare, hearlier⟩
  · rw [hquoted] at hread
    exact Or.inl hread
  · rw [hbare, Reader.read] at hread
    obtain ⟨-, rfl⟩ := bareSegment?_eq_some_iff.1 hread
    exact Or.inr ⟨hnone _ hearlier, ⟨rfl, rfl⟩, rfl⟩

/-- An open key stands outside string literals, and no quote in the rest of the document closes it. -/
theorem Mode.isChain_of_isOpenKey (h : mode.read (l.spelling ++ behind) = some (l, transition))
    (hopen : l.IsOpenKey) : mode ≠ .string ∧ List.IsChain Escapes (l.spelling ++ behind) := by
  have hmode : mode ≠ .string := by
    rintro rfl
    have htransition := (Mode.spelledAs_of_read h).1
    rw [hopen.1] at htransition
    cases htransition
  have hquote := hopen.head?_append behind
  rcases Mode.closed_or_open_of_quote h hmode hquote with hclosed | ⟨hnone, -⟩
  · exact absurd hopen (not_isOpenKey_of_quotedSegment? hclosed)
  · exact ⟨hmode, quotedSegment?_eq_none_iff.1 hnone hquote⟩

/-- A key in quotes does not end in a backslash: this would take the closing quote for a part of the key. -/
theorem getLast?_of_quotedKey {key spelling : List Char} (h : quotedKey text = some (key, spelling)) :
    key.getLast? ≠ some '\\' := by
  fun_induction quotedKey text generalizing key spelling with
  | case1 => cases h
  | case2 rest ih =>
    obtain ⟨⟨inner, _⟩, hinner, h⟩ := Option.map_eq_some_iff.1 h
    obtain ⟨rfl, -⟩ := Prod.mk.inj h
    cases inner with
    | nil => decide
    | cons d inner =>
      rw [List.getLast?_cons_cons]
      exact ih hinner
  | case3 =>
    obtain ⟨rfl, -⟩ := Prod.mk.inj (Option.some.inj h)
    simp
  | case4 c rest hbare hc ih =>
    obtain ⟨⟨inner, spelling⟩, hinner, h⟩ := Option.map_eq_some_iff.1 h
    obtain ⟨rfl, -⟩ := Prod.mk.inj h
    cases inner with
    | nil =>
      -- The key ends here, so a quote is next, and no backslash is in front of a quote that closes.
      have hquote := quotedKey_isPrefix hinner
      rw [quotedKey_spelling hinner] at hquote
      obtain ⟨tail, htail⟩ := hquote
      exact fun hslash => hbare tail (Option.some.inj hslash) htail.symm
    | cons d inner =>
      rw [List.getLast?_cons_cons]
      exact ih hinner

/-- In quotes a key that ends in a backslash is read as another one, or as one without quotes. -/
theorem Mode.not_segment_of_backslash {key : List Char}
    (h : mode.read (quotedSpelling key ++ text) = some (l, transition)) (hmode : mode ≠ .string)
    (hkey : key.getLast? = some '\\') : l.token ≠ .segment (String.ofList key) := by
  intro htoken
  rcases closed_or_open_of_quote h hmode rfl with hclosed | ⟨-, hopen, hspelling⟩
  · obtain ⟨rest, inner, spelling, -, hinner, rfl⟩ := quotedSegment?_eq_some_iff.1 hclosed
    obtain rfl : inner = key := String.ofList_injective (Token.segment.inj htoken)
    exact getLast?_of_quotedKey hinner hkey
  · have hsame : l.spelling = key :=
      String.ofList_injective (Token.segment.inj (hopen.1.symm.trans htoken))
    rw [hsame] at hspelling
    -- Without quotes the key would be at least as long as the text in quotes.
    have hbare : ∀ c ∈ quotedSpelling key, isBareChar c = true := by
      intro c hc
      rcases mem_quotedSpelling hc with rfl | rfl | hc
      · rfl
      · rfl
      · rw [hspelling] at hc
        exact forall_mem_takeWhile isBareChar _ c hc
    rw [List.takeWhile_append_of_pos hbare] at hspelling
    have hlength := congrArg List.length hspelling
    have hlt := length_lt_quotedSpelling key
    rw [List.length_append] at hlength
    omega

/-- What does not close a key with more text behind does not close it without. -/
theorem quotedSegment?_eq_none_of_append (h : quotedSegment? (text ++ behind) = none) :
    quotedSegment? text = none := by
  refine Option.eq_none_iff_forall_ne_some.2 fun l hl => ?_
  obtain ⟨longer, hlonger⟩ := Reader.exists_read_append (r := .quotedSegment) Reader.noConfusion
    Reader.noConfusion hl behind
  cases h.symm.trans hlonger

/-- A key that is closed behind a character and not in front of it has the character in its spelling. -/
theorem mem_spelling_of_quotedSegment? (hnone : quotedSegment? text = none)
    (h : quotedSegment? (text ++ c :: behind) = some l) : c ∈ l.spelling := by
  by_contra hc
  obtain ⟨-, hprefix⟩ := Reader.ne_nil_and_isPrefix_of_read (r := .quotedSegment) h
  obtain ⟨more, rfl⟩ := prefix_of_prefix_append_cons hprefix hc
  rw [List.append_assoc] at h
  cases hnone.symm.trans (Reader.read_of_append (r := .quotedSegment) h)

/-- An open key is read as the same key in front of a space only if nothing behind the space closes it: a key
that is closed there has the space in it. -/
theorem quotedSegment?_eq_none_of_same_token
    (hread : mode.read (l.spelling ++ kept ++ behind) = some (l, transition)) (hopen : l.IsOpenKey)
    (hc : isSpace c = true) {transition' : Transition}
    (hread' : mode.read (l.spelling ++ kept ++ c :: text) = some (other, transition'))
    (htoken : other.token = l.token) : quotedSegment? (l.spelling ++ kept ++ c :: text) = none := by
  have hquote : ∀ tail, (l.spelling ++ kept ++ tail).head? = some '\'' := by
    intro tail
    rw [List.append_assoc]
    exact hopen.head?_append _
  have hmode : mode ≠ .string := by
    rw [List.append_assoc] at hread
    exact (Mode.isChain_of_isOpenKey hread hopen).1
  obtain ⟨hnone, -, hbare⟩ := (Mode.closed_or_open_of_quote hread hmode (hquote _)).resolve_left
    fun hclosed => not_isOpenKey_of_quotedSegment? hclosed hopen
  rcases Mode.closed_or_open_of_quote hread' hmode (hquote _) with hclosed | ⟨hnone', -⟩
  · obtain ⟨key, hkey, hspelling⟩ := exists_key_of_quotedSegment? hclosed
    have hsame : l.spelling = key :=
      String.ofList_injective (Token.segment.inj (hopen.1.symm.trans (htoken.symm.trans hkey)))
    have hmem := mem_spelling_of_quotedSegment? (quotedSegment?_eq_none_of_append hnone) hclosed
    rw [hspelling] at hmem
    rcases mem_quotedSpelling hmem with rfl | rfl | hmem
    · cases hc
    · cases hc
    · rw [← hsame, hbare] at hmem
      have hspace := forall_mem_takeWhile isBareChar _ c hmem
      rw [isBareChar, hc] at hspace
      cases hspace
  · exact hnone'

end ConfigLang
