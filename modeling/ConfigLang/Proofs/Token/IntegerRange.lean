import ConfigLang.Proofs.Token.Priority
import ConfigLang.Proofs.Token.Steps

/-!
# Integers out of range

An integer that does not fit into 64 bits is no token. Written in decimal it is read by no other rule either,
so reading stops in front of it. Written in hexadecimal it begins with a zero, which is a decimal integer, and
that is what is read.

* `BeginsWithDecimal`, `BeginsWithHexadecimal` - the texts that begin with an integer of a given value.
* `Mode.read_eq_none_of_decimal` - where a value is due, no rule reads any part of a decimal integer that is
  out of range.
* `Mode.read_of_hexadecimal` - of a hexadecimal one, the rule for decimal integers reads the zero.
* `large_integers_are_unreadable_in_decimal` - what this means for the next token.
-/

namespace ConfigLang

open Lexeme

/-! ### Integers at the start of a text -/

/-- The text begins with a decimal integer of the given value. It lasts as long as there are digits and
underscores, and is no part of a float: no point and digit stand behind it. -/
inductive BeginsWithDecimal : List Char → Int → Prop
  | intro {minus run text : List Char} (h : IsDecimalText minus run)
    (hend : BeginsWithout (fun c => c.isDigit || c == '_') text)
    (hpoint : ∀ rest, text = '.' :: rest → BeginsWithout Char.isDigit rest) :
    BeginsWithDecimal (minus ++ (run ++ text))
      (Decimal.signed (minus != []) (Decimal.natOfDigits 10 (run.filter (· != '_'))))

/-- The text begins with a hexadecimal integer of the given value: `0x` and then as many digits as there are. -/
inductive BeginsWithHexadecimal : List Char → Int → Prop
  | intro {digits text : List Char} (hne : digits ≠ []) (hdigits : ∀ c ∈ digits, isHexDigit c = true)
    (hend : BeginsWithout isHexDigit text) :
    BeginsWithHexadecimal ('0' :: 'x' :: (digits ++ text)) (Decimal.natOfDigits 16 digits)

/-- The integer does not fit into 64 bits. -/
def IsOutOfRange (n : Int) : Prop := n < Int64.minValue.toInt ∨ Int64.maxValue.toInt < n

variable {text : List Char} {n : Int}

theorem toInt64?_eq_none_iff : Decimal.toInt64? n = none ↔ IsOutOfRange n := by
  unfold Decimal.toInt64? IsOutOfRange
  split
  next hin => exact iff_of_false (Option.some_ne_none _) (by omega)
  next hout => exact iff_of_true rfl (by omega)

theorem BeginsWithDecimal.exists_cons_begins (h : BeginsWithDecimal text n) :
    ∃ c tail, text = c :: tail ∧ Reader.integer.begins c = true := by
  obtain ⟨htext, -, -⟩ := h
  exact htext.exists_cons_begins _

theorem BeginsWithHexadecimal.exists_cons (h : BeginsWithHexadecimal text n) :
    ∃ tail, text = '0' :: tail := by
  cases h
  exact ⟨_, rfl⟩

/-! ### What is read of them -/

namespace Mode

variable {mode : Mode}

/-- Where a value is due, only the rules for numbers are for tokens that begin like an integer. -/
theorem firsts_beside_integer (hmode : mode = .value ∨ mode = .array) : ∀ rule ∈ mode.rules,
    rule.reader = .float ∨ rule.reader = .hexInteger ∨ rule.reader = .integer ∨
      rule.reader ≠ .bareSegment ∧ rule.reader ≠ .characters ∧
        rule.reader.firsts.any Reader.integer.begins = false := by
  rcases hmode with rfl | rfl <;> decide

/-- So the other rules read nothing where an integer begins. -/
theorem read_eq_none_beside_integer (hmode : mode = .value ∨ mode = .array) {rule : Rule}
    (hrule : rule ∈ mode.rules) {c : Char} (hc : Reader.integer.begins c = true) (tail : List Char) :
    rule.reader = .float ∨ rule.reader = .hexInteger ∨ rule.reader = .integer ∨
      rule.reader.read (c :: tail) = none := by
  rcases firsts_beside_integer hmode rule hrule with h | h | h | ⟨hbare, hcharacters, hdisjoint⟩
  · exact Or.inl h
  · exact Or.inr (Or.inl h)
  · exact Or.inr (Or.inr (Or.inl h))
  · have hnot := Reader.begins_eq_false_of_disjoint hbare hcharacters hdisjoint hc
    exact Or.inr (Or.inr (Or.inr (Reader.read_eq_none hnot tail)))

/-- No rule reads any part of a decimal integer that is out of range. -/
theorem read_eq_none_of_decimal (hmode : mode = .value ∨ mode = .array) (h : BeginsWithDecimal text n)
    (hn : IsOutOfRange n) : mode.read text = none := by
  obtain @⟨minus, run, text, htext, hend, hpoint⟩ := h
  refine List.findSome?_eq_none_iff.2 fun rule hrule => ?_
  rw [Rule.read, Option.map_eq_none_iff]
  obtain ⟨c, tail, hcons, hc⟩ := htext.exists_cons_begins text
  rcases read_eq_none_beside_integer hmode hrule hc tail with hfloat | hhex | hinteger | hother
  · rw [hfloat]
    exact htext.float?_append hend hpoint
  · rw [hhex]
    refine htext.hexInteger?_append fun hminus hzero _ => ?_
    -- The zero in front of the x is in range.
    subst hminus hzero
    exact absurd hn (by unfold IsOutOfRange; decide)
  · rw [hinteger, Reader.read, htext.integer?_append hend, toInt64?_eq_none_iff.2 hn]
    rfl
  · rw [hcons]
    exact hother

/-- Of a hexadecimal integer that is out of range the zero is read, as a decimal integer. -/
theorem read_of_hexadecimal (hmode : mode = .value ∨ mode = .array) (h : BeginsWithHexadecimal text n)
    (hn : IsOutOfRange n) :
    ∃ transition, mode.read text = some (⟨.integer 0, ['0']⟩, transition) := by
  obtain @⟨digits, text, hne, hdigits, hend⟩ := h
  have hzero : IsDecimalText [] ['0'] := ⟨Or.inl rfl, by simp, by simp⟩
  have hx : BeginsWithout (fun c => c.isDigit || c == '_') ('x' :: (digits ++ text)) := beginsWithout_cons rfl
  obtain ⟨transition, htransition⟩ : ∃ transition, mode.transition? .integer = some transition := by
    rcases hmode with rfl | rfl <;> exact ⟨_, rfl⟩
  have hbare : Reader.integer ≠ .bareSegment := by
    decide
  have hfirst : Reader.integer.begins '0' = true := by
    decide
  refine ⟨transition, read_eq_some_of_rivals (mem_rules_of_transition? htransition) hbare hfirst
    (fun r hr => ?_) (hzero.integer?_append hx)⟩
  rcases List.mem_cons.1 hr with rfl | hr
  · exact hzero.float?_append hx fun rest hrest => absurd (List.cons.inj hrest).1 (by decide)
  · rw [List.mem_singleton.1 hr, Reader.read, hexInteger?_append hne hdigits hend, toInt64?_eq_none_iff.2 hn]
    rfl

end Mode

/-! ### The next token -/

/-- No gap is skipped in front of an integer. -/
theorem Cursor.skipGap_of_begins {c : Cursor} {first : Char} {tail : List Char} (hrest : c.rest = first :: tail)
    (hfirst : Reader.integer.begins first = true) : c.skipGap = c := by
  refine Cursor.skipGap_of_gap_eq_nil (gap_eq_nil fun d hd => ?_)
  rw [hrest] at hd
  rw [← Option.some.inj hd]
  exact Reader.not_gap_of_mem_firsts (List.contains_iff_mem.1 hfirst)

/-- Where a value is due, a decimal integer that is out of range is not read: the error marks its first
character, and the cursor stays in front of it. Of a hexadecimal one the zero is read as a token of its own, and
the cursor goes on in front of the x. -/
theorem large_integers_are_unreadable_in_decimal {c : Cursor} (hmode : c.mode = .value ∨ c.mode = .array)
    (hn : IsOutOfRange n) :
    (BeginsWithDecimal c.rest n →
      c.next = (.error ⟨c.mode, c.offset, String.ofList (c.rest.take 16)⟩, c)) ∧
    (BeginsWithHexadecimal c.rest n →
      ∃ d, c.next = (.ok (some (.integer 0)), d) ∧ c.rest = '0' :: d.rest) := by
  constructor
  · intro h
    obtain ⟨first, tail, hrest, hfirst⟩ := h.exists_cons_begins
    have hskip := Cursor.skipGap_of_begins hrest hfirst
    have hne : c.skipGap.rest ≠ [] := by
      rw [hskip, hrest]
      exact List.cons_ne_nil first tail
    have hread : c.mode.read c.skipGap.rest = none := by
      rw [hskip]
      exact Mode.read_eq_none_of_decimal hmode h hn
    have herror := Cursor.next_eq_error hne hread
    rw [hskip] at herror
    exact herror
  · intro h
    obtain ⟨tail, hrest⟩ := h.exists_cons
    have hskip := Cursor.skipGap_of_begins hrest (by decide)
    obtain ⟨transition, hread⟩ := Mode.read_of_hexadecimal hmode h hn
    rw [hrest] at hread
    have hrest' : c.skipGap.rest = ['0'] ++ tail := by
      rw [hskip, hrest]
      rfl
    obtain ⟨d, hnext, -, hd⟩ := Cursor.next_eq_some (List.cons_ne_nil '0' []) hrest' hread
    exact ⟨d, hnext, by rw [hrest, hd]⟩

/-- The least positive integer out of range, with an underscore in it, as an item of an array. -/
theorem least_large_integer_in_decimal :
    let c : Cursor := ⟨⟨.array, [.object, .topLevel]⟩, "9223372036854775_808 ]".toList, 8⟩
    IsOutOfRange 9223372036854775808 ∧ BeginsWithDecimal c.rest 9223372036854775808 ∧
      c.next = (.error ⟨.array, 8, "9223372036854775"⟩, c) := by
  intro c
  have hn : IsOutOfRange 9223372036854775808 := Or.inr (by decide)
  have htext : IsDecimalText [] "9223372036854775_808".toList :=
    ⟨Or.inl rfl, List.all_eq_true.1 (by decide +kernel), List.any_eq_true.1 (by decide +kernel)⟩
  have hend : BeginsWithout (fun c => c.isDigit || c == '_') " ]".toList := beginsWithout_cons rfl
  have hdecimal : BeginsWithDecimal c.rest 9223372036854775808 :=
    .intro htext hend fun rest hrest => by cases hrest
  exact ⟨hn, hdecimal, (large_integers_are_unreadable_in_decimal (Or.inr rfl) hn).1 hdecimal⟩

/-- The same integer in hexadecimal, as the value of a key: the zero is the value, and the rest of the integer
is read as another key. -/
theorem least_large_integer_in_hexadecimal :
    let c : Cursor := ⟨⟨.value, [.object, .topLevel]⟩, "0x8000000000000000 \x7d".toList, 6⟩
    IsOutOfRange 9223372036854775808 ∧ BeginsWithHexadecimal c.rest 9223372036854775808 ∧
      c.next ≠ (.error ⟨c.mode, c.offset, String.ofList (c.rest.take 16)⟩, c) ∧
      tokensOf "\x7b a = 0x8000000000000000 \x7d" =
        .ok [.symbol .braceOpen, .segment "a", .symbol .equals, .integer 0, .segment "x8000000000000000",
          .symbol .braceClose] := by
  intro c
  have hn : IsOutOfRange 9223372036854775808 := Or.inr (by decide)
  have hdigits : ∀ d ∈ "8000000000000000".toList, isHexDigit d = true :=
    List.all_eq_true.1 (by decide +kernel)
  have hend : BeginsWithout isHexDigit " \x7d".toList := beginsWithout_cons rfl
  have hhexadecimal : BeginsWithHexadecimal c.rest 9223372036854775808 :=
    .intro (List.cons_ne_nil '8' _) hdigits hend
  exact ⟨hn, hhexadecimal, by decide +kernel, by decide +kernel⟩

end ConfigLang
