import ConfigLang.Proofs.Token.IntegerRange

/-!
# The spellings of an integer

An integer that fits into 64 bits has many spellings. In decimal there may be zeros in front of its digits and
underscores anywhere among them, and zero may have a minus sign; in hexadecimal there may be zeros as well, and
the letters may be of either case. Where a value is due each of them is read in one piece, as the integer.

* `Decimal.natOfDigits_zeros_append`, `Decimal.natOfDigits_toDigits`, `Decimal.digit_toLower` - what zeros,
  digits and the case of letters contribute to a number.
* `IsDecimalSpelling`, `IsHexadecimalSpelling` - the spellings.
* `IsDecimalSpelling.readFrom`, `IsHexadecimalSpelling.hexInteger?_append` - what is read of them.
* `integers_in_range_are_read_exactly` - the result.
-/

namespace ConfigLang

/-! ### Digits -/

namespace Decimal

theorem natOfDigits_concat (base : Nat) (digits : List Char) (c : Char) :
    natOfDigits base (digits ++ [c]) = base * natOfDigits base digits + digitValue c := by
  simp [natOfDigits]

/-- Zeros in front of the digits have no value. -/
theorem natOfDigits_zeros_append (base count : Nat) (digits : List Char) :
    natOfDigits base (zeros count ++ digits) = natOfDigits base digits := by
  have hzeros : natOfDigits base (zeros count) = 0 := by
    induction count with
    | zero => rfl
    | succ count ih =>
      rw [zeros, List.replicate_succ', natOfDigits_concat, ← zeros, ih]
      rfl
  rw [natOfDigits, List.foldl_append, ← natOfDigits, hzeros, natOfDigits]

/-- A number is what its digits stand for. -/
theorem natOfDigits_toDigits {base : Nat} (hlow : 1 < base) (hhigh : base ≤ 16) (n : Nat) :
    natOfDigits base (Nat.toDigits base n) = n := by
  induction n using Nat.strongRecOn with
  | _ n ih =>
    have hdigit : ∀ k < base, digitValue (Nat.digitChar k) = k :=
      fun k hk => (Lexeme.digitValue_digitChar (Nat.lt_of_lt_of_le hk hhigh)).1
    by_cases hn : n < base
    · rw [Nat.toDigits_of_lt_base hn, ← List.nil_append [_], natOfDigits_concat, hdigit n hn]
      exact Nat.zero_add n
    · have hle : base ≤ n := Nat.le_of_not_lt hn
      have hless : n / base < n := Nat.div_lt_self (by omega) hlow
      rw [Nat.toDigits_of_base_le hlow hle, natOfDigits_concat, ih _ hless,
        hdigit _ (Nat.mod_lt n (by omega)), Nat.div_add_mod]

theorem isHexDigit_of_mem_toDigits {n : Nat} {c : Char} (hc : c ∈ Nat.toDigits 16 n) :
    Lexeme.isHexDigit c = true := by
  induction n using Nat.strongRecOn with
  | _ n ih =>
    by_cases hn : n < 16
    · rw [Nat.toDigits_of_lt_base hn, List.mem_singleton] at hc
      rw [hc]
      exact (Lexeme.digitValue_digitChar hn).2
    · rw [Nat.toDigits_of_base_le (by decide) (Nat.le_of_not_lt hn)] at hc
      rcases List.mem_append.1 hc with hc | hc
      · exact ih _ (Nat.div_lt_self (by omega) (by decide)) hc
      · rw [List.mem_singleton.1 hc]
        exact (Lexeme.digitValue_digitChar (Nat.mod_lt n (by decide))).2

/-- A letter has the same value as a digit in either case. -/
theorem digit_toLower (c : Char) :
    digitValue c.toLower = digitValue c ∧ Lexeme.isHexDigit c.toLower = Lexeme.isHexDigit c := by
  by_cases hupper : 'A'.val ≤ c.val ∧ c.val ≤ 'Z'.val
  · have hrange : 65 ≤ c.toNat ∧ c.toNat ≤ 90 := by
      simpa [UInt32.le_iff_toNat_le] using hupper
    have hletters : ∀ n < 91, 65 ≤ n →
        digitValue (Char.ofNat n).toLower = digitValue (Char.ofNat n) ∧
          Lexeme.isHexDigit (Char.ofNat n).toLower = Lexeme.isHexDigit (Char.ofNat n) := by
      decide
    have hc := hletters c.toNat (by omega) hrange.1
    rwa [Char.ofNat_toNat] at hc
  · have hsame : c.toLower = c := dif_neg hupper
    rw [hsame]
    exact ⟨rfl, rfl⟩

theorem natOfDigits_toLower (base : Nat) (digits : List Char) :
    natOfDigits base (digits.map Char.toLower) = natOfDigits base digits := by
  simp only [natOfDigits, List.foldl_map, (digit_toLower _).1]

end Decimal

open Lexeme

/-! ### Spellings -/

/-- The decimal spellings of an integer: its digits behind any number of zeros, with underscores anywhere, and
in front of them a minus sign if it is negative. Zero may have a minus sign too. -/
inductive IsDecimalSpelling (n : Int) : List Char → Prop
  | intro {minus run : List Char} {count : Nat} (hminus : minus = [] ∧ 0 ≤ n ∨ minus = ['-'] ∧ n ≤ 0)
    (hrun : run.filter (· != '_') = Decimal.zeros count ++ Nat.toDigits 10 n.natAbs) :
    IsDecimalSpelling n (minus ++ run)

/-- The hexadecimal spellings of a number: its digits behind `0x` and any number of zeros, with letters of
either case. -/
inductive IsHexadecimalSpelling : Int → List Char → Prop
  | intro {n : Nat} {digits : List Char} {count : Nat}
    (hdigits : digits.map Char.toLower = Decimal.zeros count ++ Nat.toDigits 16 n) :
    IsHexadecimalSpelling n ('0' :: 'x' :: digits)

/-- Hexadecimal digits are among the characters that a number could go on with. -/
theorem Lexeme.goesOnNumber_of_isHexDigit {c : Char} (h : isHexDigit c = true) : goesOnNumber c = true := by
  have hcases : c.isDigit = true ∨ 'a' ≤ c ∧ c ≤ 'f' ∨ 'A' ≤ c ∧ c ≤ 'F' := by
    simpa [isHexDigit, or_assoc] using h
  rcases hcases with hdigit | hletter
  · exact goesOnNumber_of_isDigit hdigit
  · have hrange : 65 ≤ c.toNat ∧ c.toNat < 103 := by
      simp only [Char.le_def, UInt32.le_iff_toNat_le] at hletter
      change 97 ≤ c.toNat ∧ c.toNat ≤ 102 ∨ 65 ≤ c.toNat ∧ c.toNat ≤ 70 at hletter
      omega
    have hletters : ∀ n < 103, 65 ≤ n → isHexDigit (Char.ofNat n) = true →
        goesOnNumber (Char.ofNat n) = true := by
      decide
    have hc := hletters c.toNat hrange.2 hrange.1
    rw [Char.ofNat_toNat] at hc
    exact hc h

theorem IsHexadecimalSpelling.exists_cons {n : Int} {spelling : List Char}
    (h : IsHexadecimalSpelling n spelling) : ∃ tail, spelling = '0' :: 'x' :: tail := by
  cases h
  exact ⟨_, rfl⟩

variable {n : Int64} {spelling rest : List Char}

/-- A decimal spelling is read as its integer, and by no rule in front of the one for decimal integers. -/
theorem IsDecimalSpelling.readFrom (h : IsDecimalSpelling n.toInt spelling) :
    (Token.integer n).ReadFrom spelling := by
  obtain @⟨minus, run, count, hminus, hrun⟩ := h
  have hdigit : ∀ c ∈ run.filter (· != '_'), c.isDigit = true := by
    intro c hc
    rw [hrun] at hc
    rcases List.mem_append.1 hc with hc | hc
    · rw [List.eq_of_mem_replicate hc]
      rfl
    · exact (isDigits_toDigits n.toInt.natAbs).2 c hc
  have htext : IsDecimalText minus run := by
    refine ⟨hminus.imp And.left And.left, fun c hc => ?_, ?_⟩
    · by_cases hunderscore : c = '_'
      · rw [hunderscore]
        rfl
      · rw [hdigit c (List.mem_filter.2 ⟨hc, bne_iff_ne.2 hunderscore⟩), Bool.true_or]
    · have hne : run.filter (· != '_') ≠ [] := by
        rw [hrun]
        exact List.append_ne_nil_of_right_ne_nil _ Nat.toDigits_ne_nil
      obtain ⟨c, hc⟩ := List.exists_mem_of_ne_nil _ hne
      exact ⟨c, (List.mem_filter.1 hc).1, hdigit c hc⟩
  have hvalue : Decimal.signed (minus != []) (Decimal.natOfDigits 10 (run.filter (· != '_'))) = n.toInt := by
    rw [hrun, Decimal.natOfDigits_zeros_append, Decimal.natOfDigits_toDigits (by decide) (by decide)]
    rcases hminus with ⟨rfl, hn⟩ | ⟨rfl, hn⟩
    · exact Int.natAbs_of_nonneg hn
    · show -(n.toInt.natAbs : Int) = n.toInt
      omega
  refine ⟨?_, fun {text} hend => ?_, fun {text} hend {r} hr => ?_⟩
  · obtain ⟨c, tail, hcons, hc⟩ := htext.exists_cons_begins []
    exact ⟨c, tail, by rw [← hcons, List.append_nil], hc⟩
  · show integer? (minus ++ run ++ text) = _
    rw [List.append_assoc, htext.integer?_append (beginsWithout_of_goesOnNumber hend), hvalue,
      toInt64?_toInt]
    rfl
  · rw [List.append_assoc]
    rcases List.mem_cons.1 hr with rfl | hr
    · exact htext.float?_append (beginsWithout_of_goesOnNumber hend) fun rest hrest =>
        absurd hrest (hend.ne_cons (show goesOnNumber '.' = true by decide) rest)
    · rw [List.mem_singleton.1 hr]
      exact htext.hexInteger?_append fun _ _ hx =>
        absurd (hend 'x' hx) (show goesOnNumber 'x' ≠ false by decide)

/-- A hexadecimal spelling is read as its integer. -/
theorem IsHexadecimalSpelling.hexInteger?_append (h : IsHexadecimalSpelling n.toInt spelling)
    (hend : BeginsWithout goesOnNumber rest) :
    hexInteger? (spelling ++ rest) = some ⟨.integer n, spelling⟩ := by
  generalize hn : n.toInt = k at h
  obtain @⟨k, digits, count, hdigits⟩ := h
  have hne : digits ≠ [] := by
    rintro rfl
    have hnil := List.append_eq_nil_iff.1 hdigits.symm
    exact Nat.toDigits_ne_nil hnil.2
  have hclass : ∀ c ∈ digits, isHexDigit c = true := by
    intro c hc
    have hlower : c.toLower ∈ Decimal.zeros count ++ Nat.toDigits 16 k :=
      hdigits ▸ List.mem_map_of_mem hc
    rw [← (Decimal.digit_toLower c).2]
    rcases List.mem_append.1 hlower with hzero | hdigit
    · rw [List.eq_of_mem_replicate hzero]
      rfl
    · exact Decimal.isHexDigit_of_mem_toDigits hdigit
  have hvalue : Decimal.natOfDigits 16 digits = k := by
    rw [← Decimal.natOfDigits_toLower, hdigits, Decimal.natOfDigits_zeros_append,
      Decimal.natOfDigits_toDigits (by decide) (by decide)]
  have hhex : BeginsWithout isHexDigit rest := by
    intro c hc
    have hnot := hend c hc
    cases hdigit : isHexDigit c with
    | false => rfl
    | true => rw [← hnot, goesOnNumber_of_isHexDigit hdigit]
  show hexInteger? ('0' :: 'x' :: (digits ++ rest)) = _
  rw [Lexeme.hexInteger?_append hne hclass hhex, hvalue, ← hn, toInt64?_toInt]
  rfl

/-! ### The next token -/

/-- A spelling begins as decimal integers do. -/
theorem exists_cons_of_integer
    (h : IsDecimalSpelling n.toInt spelling ∨ IsHexadecimalSpelling n.toInt spelling) :
    ∃ first tail, spelling = first :: tail ∧ Reader.integer.begins first = true := by
  rcases h with h | h
  · exact h.readFrom.exists_cons_begins
  · obtain ⟨tail, hcons⟩ := h.exists_cons
    exact ⟨'0', 'x' :: tail, hcons, by decide⟩

/-- Where a value is due a spelling is read in one piece. It is the only value of its place, or an item of an
array with more of them behind it. -/
theorem Mode.read_of_integer {mode : Mode} (hmode : mode = .value ∨ mode = .array)
    (h : IsDecimalSpelling n.toInt spelling ∨ IsHexadecimalSpelling n.toInt spelling)
    (hend : BeginsWithout goesOnNumber rest) :
    mode.read (spelling ++ rest) =
      some (⟨.integer n, spelling⟩, if mode = .value then .pop else .stay) := by
  rcases h with h | h
  · refine Mode.read_append ?_ h.readFrom hend
    rcases hmode with rfl | rfl <;> rfl
  · have hread := h.hexInteger?_append hend
    obtain ⟨tail, rfl⟩ := h.exists_cons
    have hrule : ⟨.hexInteger, if mode = .value then .pop else .stay⟩ ∈ mode.rules := by
      rcases hmode with rfl | rfl <;> decide
    have hbare : Reader.hexInteger ≠ .bareSegment := by
      decide
    have hfirst : Reader.hexInteger.begins '0' = true := by
      decide
    refine read_eq_some_of_rivals hrule hbare hfirst (fun r hr => ?_) hread
    rw [List.mem_singleton.1 hr]
    rfl

/-- Where a value is due, every spelling of a 64-bit integer is read as that integer, and the cursor goes on right
behind it. It has to end there: what follows is nothing, or a character that no number goes on with, such as a
space or a closing bracket. -/
theorem integers_in_range_are_read_exactly {c : Cursor} (hmode : c.mode = .value ∨ c.mode = .array)
    (h : IsDecimalSpelling n.toInt spelling ∨ IsHexadecimalSpelling n.toInt spelling)
    (hrest : c.rest = spelling ++ rest) (hend : BeginsWithout goesOnNumber rest) :
    c.next = (.ok (some (.integer n)),
      ⟨c.context.apply (if c.mode = .value then .pop else .stay), rest, c.offset + byteLength spelling⟩) := by
  obtain ⟨first, tail, hcons, hfirst⟩ := exists_cons_of_integer h
  have hbegin : c.rest = first :: (tail ++ rest) := by
    rw [hrest, hcons, List.cons_append]
  have hskip := Cursor.skipGap_of_begins hbegin hfirst
  have hne : spelling ≠ [] := by
    rw [hcons]
    exact List.cons_ne_nil first tail
  have hbehind : c.skipGap.rest = spelling ++ rest := by
    rw [hskip, hrest]
  rw [Cursor.next_eq_pass hne hbehind (Mode.read_of_integer hmode h hend), hskip]
  simp only [Cursor.pass, Cursor.advance, hrest, List.drop_left]

/-- No number goes on with a space or with a closing bracket. -/
example : [' ', '\t', '\r', '\n', ']', '\x7d'].any goesOnNumber = false := by decide

/-- The least integer, with underscores and a zero in front of its digits, as the value of a key, and the greatest
one in hexadecimal, as the last item of an array. -/
theorem least_and_greatest_integer_are_read :
    let low : Cursor := ⟨⟨.value, [.object, .topLevel]⟩, "-_09_223372036854775808\n\x7d".toList, 6⟩
    let high : Cursor := ⟨⟨.array, [.object, .topLevel]⟩, "0x07FFFffffFFFFffff]".toList, 7⟩
    IsDecimalSpelling Int64.minValue.toInt "-_09_223372036854775808".toList ∧
      low.next = (.ok (some (.integer Int64.minValue)), ⟨⟨.object, [.topLevel]⟩, "\n\x7d".toList, 29⟩) ∧
      IsHexadecimalSpelling Int64.maxValue.toInt "0x07FFFffffFFFFffff".toList ∧
      high.next = (.ok (some (.integer Int64.maxValue)), ⟨high.context, "]".toList, 26⟩) := by
  intro low high
  have hlow : IsDecimalSpelling Int64.minValue.toInt "-_09_223372036854775808".toList :=
    @IsDecimalSpelling.intro _ ['-'] "_09_223372036854775808".toList 1 (Or.inr ⟨rfl, by decide⟩)
      (by decide +kernel)
  have hhigh : IsHexadecimalSpelling Int64.maxValue.toInt "0x07FFFffffFFFFffff".toList :=
    @IsHexadecimalSpelling.intro 9223372036854775807 "07FFFffffFFFFffff".toList 1 (by decide +kernel)
  exact ⟨hlow, integers_in_range_are_read_exactly (Or.inl rfl) (Or.inl hlow) rfl (beginsWithout_cons rfl),
    hhigh, integers_in_range_are_read_exactly (Or.inr rfl) (Or.inr hhigh) rfl (beginsWithout_cons rfl)⟩

end ConfigLang
