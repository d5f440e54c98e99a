import ConfigLang.Proofs.Token.Written
import ConfigLang.Token.Spelling
import Mathlib.Data.List.Basic

/-!
# Written tokens are read back

Each reader, put in front of the text of a token of its kind, reads just that text, whatever follows it
as long as the token cannot go on there.

* `BeginsWithout` - what a text must not begin with for a token in front of it to end there.
* `Lexeme.input?_append`, `Lexeme.characters?_append`, `Lexeme.quotedSegment?_append`,
  `Lexeme.escape?_append`, `Lexeme.integer?_append`, `Lexeme.float?_append` - one statement for each
  reader.
* `Lexeme.IsDecimalText` - the texts of decimal integers, with underscores among their digits.
* `Lexeme.IsDecimalText.integer?_append`, `Lexeme.hexInteger?_append` - what is read of an integer that need
  not be in range.
* `Lexeme.hexInteger?_eq_none_of_integer`, `Lexeme.float?_eq_none_of_integer` - a decimal integer is
  read by no other reader of numbers.
-/

namespace ConfigLang

/-! ### Runs of characters -/

/-- The text does not begin with a character of the class. -/
def BeginsWithout (p : Char → Bool) (text : List Char) : Prop :=
  ∀ c, text.head? = some c → p c = false

section Runs

variable {p : Char → Bool} {run text : List Char}

theorem takeWhile_append_of_beginsWithout (hrun : ∀ c ∈ run, p c = true)
    (htext : BeginsWithout p text) : (run ++ text).takeWhile p = run := by
  rw [List.takeWhile_append_of_pos hrun]
  cases text with
  | nil => rw [List.takeWhile_nil, List.append_nil]
  | cons c text => rw [List.takeWhile_cons_of_neg (by rw [htext c rfl]; decide), List.append_nil]

theorem dropWhile_append_of_beginsWithout (hrun : ∀ c ∈ run, p c = true)
    (htext : BeginsWithout p text) : (run ++ text).dropWhile p = text := by
  rw [List.dropWhile_append_of_pos hrun]
  cases text with
  | nil => rfl
  | cons c text => rw [List.dropWhile_cons_of_neg (by rw [htext c rfl]; decide)]

/-- A run and the text behind it are known if the run cannot go on there. -/
theorem run_append_inj {run' text' : List Char} (hrun : ∀ c ∈ run, p c = true) (hrun' : ∀ c ∈ run', p c = true)
    (htext : BeginsWithout p text) (htext' : BeginsWithout p text') (h : run ++ text = run' ++ text') :
    run = run' ∧ text = text' := by
  have htaken := congrArg (List.takeWhile p) h
  have hdropped := congrArg (List.dropWhile p) h
  rw [takeWhile_append_of_beginsWithout hrun htext, takeWhile_append_of_beginsWithout hrun' htext'] at htaken
  rw [dropWhile_append_of_beginsWithout hrun htext, dropWhile_append_of_beginsWithout hrun' htext'] at hdropped
  exact ⟨htaken, hdropped⟩

theorem beginsWithout_cons {c : Char} (h : p c = false) : BeginsWithout p (c :: text) := by
  intro d hd
  rw [← Option.some.inj hd]
  exact h

theorem BeginsWithout.ne_cons (h : BeginsWithout p text) {c : Char} (hc : p c = true)
    (rest : List Char) : text ≠ c :: rest := by
  rintro rfl
  rw [h c rfl] at hc
  cases hc

end Runs

namespace Lexeme

open Token

/-- The characters that a number could go on with. -/
def goesOnNumber (c : Char) : Bool := c.isAlphanum || c == '_' || c == '.'

/-! ### Names and runs of characters -/

theorem input?_append {name text : List Char} (hname : IsName name)
    (htext : BeginsWithout isNameChar text) :
    input? (name ++ text) = some ⟨.input (String.ofList name), name⟩ := by
  obtain ⟨letter, rest, rfl, hletter, hrest⟩ := hname
  have hrun := takeWhile_append_of_beginsWithout hrest htext
  rw [List.cons_append, List.cons_append, input?, if_pos hletter]
  simp only [hrun]

theorem characters?_append {run text : List Char} (hne : run ≠ [])
    (hrun : ∀ c ∈ run, c ≠ '"' ∧ c ≠ '\\' ∧ c ≠ '$') (htext : BeginsWithout isTextChar text) :
    characters? (run ++ text) = some ⟨.characters (String.ofList run), run⟩ := by
  have hclass : ∀ c ∈ run, isTextChar c = true := by
    intro c hc
    simpa [isTextChar, and_assoc] using hrun c hc
  have htake := takeWhile_append_of_beginsWithout hclass htext
  unfold characters?
  simp only [htake, if_neg hne]

/-! ### Keys -/

/-- Where a key goes on, no quote stands: a quote of the key has its backslash in front. -/
theorem quoted_ne_quote_cons {key : List Char} (hne : key ≠ []) (text tail : List Char) :
    key.flatMap escapeQuote ++ '\'' :: text ≠ '\'' :: tail := by
  obtain ⟨c, rest, rfl⟩ := List.exists_cons_of_ne_nil hne
  rw [List.flatMap_cons, escapeQuote]
  split
  · simp
  next hc => simpa using fun h => absurd h hc

theorem quotedKey_append {key : List Char} (hkey : key.getLast? ≠ some '\\') (text : List Char) :
    quotedKey (key.flatMap escapeQuote ++ '\'' :: text) =
      some (key, key.flatMap escapeQuote ++ ['\'']) := by
  induction key with
  | nil => rw [List.flatMap_nil, List.nil_append, List.nil_append, quotedKey] <;> simp
  | cons c key ih =>
    have hrest : key.getLast? ≠ some '\\' := by
      intro h
      rw [List.getLast?_cons, h] at hkey
      exact hkey rfl
    rw [List.flatMap_cons, List.append_assoc]
    by_cases hc : c = '\''
    · rw [escapeQuote, if_pos hc, List.cons_append, List.cons_append, List.nil_append, quotedKey,
        ih hrest, hc]
      rfl
    · have hbare : ∀ tail, c = '\\' → key.flatMap escapeQuote ++ '\'' :: text = '\'' :: tail →
          False := by
        intro tail hslash
        refine quoted_ne_quote_cons ?_ text tail
        rintro rfl
        exact hkey (by rw [hslash]; rfl)
      rw [escapeQuote, if_neg hc, List.cons_append, List.nil_append, quotedKey, if_neg hc, ih hrest]
      · rfl
      · exact hbare

theorem quotedSegment?_append {key : List Char} (hkey : key.getLast? ≠ some '\\')
    (text : List Char) :
    quotedSegment? (quotedSpelling key ++ text) =
      some ⟨.segment (String.ofList key), quotedSpelling key⟩ := by
  have htext : quotedSpelling key ++ text = '\'' :: (key.flatMap escapeQuote ++ '\'' :: text) := by
    simp [quotedSpelling]
  rw [htext, quotedSegment?, quotedKey_append hkey text]
  rfl

/-! ### Escapes -/

theorem digitValue_digitChar {n : Nat} (h : n < 16) :
    Decimal.digitValue (Nat.digitChar n) = n ∧ isHexDigit (Nat.digitChar n) = true := by
  revert h n
  decide

theorem natOfDigits_fourHexDigits {n : Nat} (h : n ≤ 0xFFFF) :
    Decimal.natOfDigits 16 (fourHexDigits n) = n := by
  have hvalue : ∀ k, Decimal.digitValue (Nat.digitChar (k % 16)) = k % 16 :=
    fun k => (digitValue_digitChar (Nat.mod_lt k (by decide))).1
  simp only [Decimal.natOfDigits, fourHexDigits, List.foldl, hvalue]
  omega

theorem all_isHexDigit_fourHexDigits (n : Nat) : (fourHexDigits n).all isHexDigit = true := by
  have hdigit : ∀ k, isHexDigit (Nat.digitChar (k % 16)) = true :=
    fun k => (digitValue_digitChar (Nat.mod_lt k (by decide))).2
  simp only [fourHexDigits, List.all_cons, hdigit, List.all_nil, Bool.and_true]

theorem escape?_append {c : Char} (hc : c.toNat ≤ 0xFFFF) (text : List Char) :
    escape? (codeSpelling c ++ text) = some ⟨.escape c, codeSpelling c⟩ := by
  have htake : (fourHexDigits c.toNat ++ text).take 4 = fourHexDigits c.toNat := rfl
  have hvalid : c.toNat.isValidChar := c.valid
  have hchar : charOfCode (Decimal.natOfDigits 16 (fourHexDigits c.toNat)) = some c := by
    rw [natOfDigits_fourHexDigits hc, charOfCode, if_pos hvalid, Char.ofNat_toNat]
  rw [codeSpelling, List.cons_append, List.cons_append, escape?]
  simp only [htake]
  rw [if_pos ⟨rfl, all_isHexDigit_fourHexDigits _⟩, hchar]
  rfl

/-! ### Integers -/

theorem goesOnNumber_of_isDigit {c : Char} (h : c.isDigit = true) : goesOnNumber c = true := by
  simp [goesOnNumber, Char.isAlphanum, h]

theorem beginsWithout_isDigit {text : List Char} (h : BeginsWithout goesOnNumber text) :
    BeginsWithout Char.isDigit text := by
  intro c hc
  cases hdigit : c.isDigit with
  | false => rfl
  | true => rw [← h c hc, goesOnNumber_of_isDigit hdigit]

theorem natOfDigits_eq_ofDigitChars {digits : List Char} (h : ∀ c ∈ digits, c.isDigit = true) :
    Decimal.natOfDigits 10 digits = Nat.ofDigitChars 10 digits 0 := by
  rw [Decimal.natOfDigits, Nat.ofDigitChars_eq_foldl]
  refine List.foldl_ext _ _ 0 fun n c hc => ?_
  rw [Decimal.digitValue, if_pos (h c hc)]

theorem isDigits_toDigits (n : Nat) : IsDigits (Nat.toDigits 10 n) :=
  ⟨Nat.toDigits_ne_nil, fun _ hc => Nat.isDigit_of_mem_toDigits (by decide) (by decide) hc⟩

theorem toInt64?_toInt (n : Int64) : Decimal.toInt64? n.toInt = some n := by
  have hlow := n.le_toInt
  have hhigh := n.toInt_lt
  rw [Decimal.toInt64?, if_pos, Int64.ofInt_toInt]
  rw [Int64.toInt_minValue, Int64.toInt_maxValue]
  omega

/-- What follows a minus sign, or stands without one, begins with another character. -/
theorem splitMinus_run {minus run : List Char} (hminus : minus = [] ∨ minus = ['-']) (hne : run ≠ [])
    (hrun : '-' ∉ run) (text : List Char) : splitMinus (minus ++ (run ++ text)) = (minus, run ++ text) := by
  rcases hminus with rfl | rfl
  · obtain ⟨c, rest, rfl⟩ := List.exists_cons_of_ne_nil hne
    rw [List.nil_append, List.cons_append, splitMinus]
    intro tail h
    exact hrun (List.mem_cons.2 (Or.inl (List.cons.inj h).1.symm))
  · rfl

/-- A digit begins a number that has no sign. -/
theorem splitMinus_digits {minus digits text : List Char} (hminus : minus = [] ∨ minus = ['-'])
    (hdigits : IsDigits digits) :
    splitMinus (minus ++ (digits ++ text)) = (minus, digits ++ text) :=
  splitMinus_run hminus hdigits.1 (fun h => absurd (hdigits.2 '-' h) (by decide)) text

/-- The text of a decimal integer: digits with underscores anywhere among them, and perhaps a minus sign in
front. -/
structure IsDecimalText (minus run : List Char) : Prop where
  sign : minus = [] ∨ minus = ['-']
  digits : ∀ c ∈ run, (c.isDigit || c == '_') = true
  exists_digit : ∃ c ∈ run, c.isDigit = true

section Decimal

variable {minus run text : List Char}

theorem isDecimalText_of_isDigits {digits : List Char} (hminus : minus = [] ∨ minus = ['-'])
    (hdigits : IsDigits digits) : IsDecimalText minus digits where
  sign := hminus
  digits := fun c hc => by rw [hdigits.2 c hc, Bool.true_or]
  exists_digit := by
    obtain ⟨c, hc⟩ := List.exists_mem_of_ne_nil digits hdigits.1
    exact ⟨c, hc, hdigits.2 c hc⟩

theorem IsDecimalText.not_mem (h : IsDecimalText minus run) {c : Char}
    (hc : (c.isDigit || c == '_') = false) : c ∉ run := by
  intro hmem
  rw [h.digits c hmem] at hc
  cases hc

theorem IsDecimalText.splitMinus_eq (h : IsDecimalText minus run) (text : List Char) :
    splitMinus (minus ++ (run ++ text)) = (minus, run ++ text) := by
  obtain ⟨c, hc, -⟩ := h.exists_digit
  exact splitMinus_run h.sign (List.ne_nil_of_mem hc) (h.not_mem (by decide)) text

/-- A decimal integer is read in one piece if it is in range, and not at all otherwise. -/
theorem IsDecimalText.integer?_append (h : IsDecimalText minus run)
    (htext : BeginsWithout (fun c => c.isDigit || c == '_') text) :
    integer? (minus ++ (run ++ text)) =
      (Decimal.toInt64? (Decimal.signed (minus != []) (Decimal.natOfDigits 10 (run.filter (· != '_'))))).map
        fun value => ⟨.integer value, minus ++ run⟩ := by
  obtain ⟨c, hc, hdigit⟩ := h.exists_digit
  have hne : c ≠ '_' := by
    rintro rfl
    cases hdigit
  have hdigits : run.filter (· != '_') ≠ [] :=
    List.ne_nil_of_mem (List.mem_filter.2 ⟨hc, bne_iff_ne.2 hne⟩)
  have hread := readInt64_filter h.sign h.digits
  rw [if_neg hdigits] at hread
  rw [← hread]
  unfold integer?
  simp only [h.splitMinus_eq, takeWhile_append_of_beginsWithout h.digits htext]
  cases Decimal.readInt64 _ <;> rfl

/-- A point behind a decimal integer is where its digits end. -/
theorem IsDecimalText.eq_of_dropWhile (h : IsDecimalText minus run)
    (htext : BeginsWithout (fun c => c.isDigit || c == '_') text) {rest : List Char}
    (hrest : (run ++ text).dropWhile Char.isDigit = '.' :: rest) : text = '.' :: rest := by
  rw [List.dropWhile_append] at hrest
  split at hrest
  · cases text with
    | nil => cases hrest
    | cons c text =>
      have hc : c.isDigit = false := (Bool.or_eq_false_iff.1 (htext c rfl)).1
      rwa [List.dropWhile_cons_of_neg (by rw [hc]; decide)] at hrest
  next hmore =>
    obtain ⟨d, tail, hd⟩ := List.exists_cons_of_ne_nil (mt List.isEmpty_iff.2 hmore)
    rw [hd] at hrest
    have hmem : d ∈ run := (List.dropWhile_suffix _).subset (hd ▸ List.mem_cons_self)
    rw [(List.cons.inj hrest).1] at hmem
    exact absurd hmem (h.not_mem (by decide))

/-- A decimal integer is no float, if no digit stands behind a point behind it. -/
theorem IsDecimalText.float?_append (h : IsDecimalText minus run)
    (htext : BeginsWithout (fun c => c.isDigit || c == '_') text)
    (hpoint : ∀ rest, text = '.' :: rest → BeginsWithout Char.isDigit rest) :
    float? (minus ++ (run ++ text)) = none := by
  have hspelling : floatSpelling (minus ++ (run ++ text)) = none := by
    unfold floatSpelling
    simp only [h.splitMinus_eq]
    split
    next rest hrest =>
      have hfraction : rest.takeWhile Char.isDigit = [] := by
        have hrest' := hpoint rest (h.eq_of_dropWhile htext hrest)
        exact takeWhile_append_of_beginsWithout (fun c hc => absurd hc List.not_mem_nil) hrest'
      exact if_pos (Or.inr hfraction)
    · rfl
  rw [float?, hspelling]
  rfl

/-- A decimal integer is no hexadecimal one, unless it is a zero with an x behind it. -/
theorem IsDecimalText.hexInteger?_append (h : IsDecimalText minus run)
    (hzero : minus = [] → run = ['0'] → text.head? ≠ some 'x') :
    hexInteger? (minus ++ (run ++ text)) = none := by
  unfold hexInteger?
  split
  next rest heq =>
    exfalso
    rcases h.sign with hminus | hminus
    · obtain ⟨c, hc, -⟩ := h.exists_digit
      rw [hminus, List.nil_append] at heq
      match run, hc with
      | [first], _ =>
        obtain ⟨rfl, rfl⟩ := List.cons.inj heq
        exact hzero hminus rfl rfl
      | first :: second :: others, _ =>
        refine h.not_mem (show ('x'.isDigit || 'x' == '_') = false by decide) ?_
        rw [← (List.cons.inj (List.cons.inj heq).2).1]
        exact List.mem_cons_of_mem first List.mem_cons_self
    · rw [hminus] at heq
      exact absurd (List.cons.inj heq).1 (by decide)
  · rfl

end Decimal

/-- A hexadecimal integer is read in one piece if it is in range, and not at all otherwise. -/
theorem hexInteger?_append {digits text : List Char} (hne : digits ≠ [])
    (hdigits : ∀ c ∈ digits, isHexDigit c = true) (htext : BeginsWithout isHexDigit text) :
    hexInteger? ('0' :: 'x' :: (digits ++ text)) =
      (Decimal.toInt64? (Decimal.natOfDigits 16 digits)).map
        fun value => ⟨.integer value, '0' :: 'x' :: digits⟩ := by
  simp only [hexInteger?, takeWhile_append_of_beginsWithout hdigits htext, if_neg hne]
  cases Decimal.toInt64? _ <;> rfl

theorem writeInt_toList (n : Int) :
    (Decimal.writeInt n).toList = Decimal.signText (n < 0) ++ Nat.toDigits 10 n.natAbs := by
  rw [Decimal.writeInt, String.toList_ofList, Decimal.digitsOf]

theorem signText_cases (negative : Bool) :
    (Decimal.signText negative = [] ∨ Decimal.signText negative = ['-']) ∧
      (Decimal.signText negative != []) = negative := by
  cases negative with
  | true => exact ⟨Or.inr rfl, rfl⟩
  | false => exact ⟨Or.inl rfl, rfl⟩

theorem signed_natAbs (n : Int) : Decimal.signed (n < 0) n.natAbs = n := by
  rw [Decimal.signed]
  split
  next h => simp only [decide_eq_true_eq] at h; omega
  next h => simp only [decide_eq_true_eq] at h; omega

theorem beginsWithout_of_goesOnNumber {text : List Char} (h : BeginsWithout goesOnNumber text) :
    BeginsWithout (fun c => c.isDigit || c == '_') text := by
  intro c hc
  have hnot := h c hc
  simp only [goesOnNumber, Char.isAlphanum, Bool.or_eq_false_iff] at hnot ⊢
  exact ⟨hnot.1.1.2, hnot.1.2⟩

/-- The digits of a written integer, with its sign. -/
theorem isDecimalText_writeInt (n : Int) :
    IsDecimalText (Decimal.signText (n < 0)) (Nat.toDigits 10 n.natAbs) :=
  isDecimalText_of_isDigits (signText_cases (n < 0)).1 (isDigits_toDigits n.natAbs)

theorem integer?_append (n : Int64) {text : List Char} (htext : BeginsWithout goesOnNumber text) :
    integer? ((Decimal.writeInt n.toInt).toList ++ text) =
      some ⟨.integer n, (Decimal.writeInt n.toInt).toList⟩ := by
  have hdigits := isDigits_toDigits n.toInt.natAbs
  have hfilter : (Nat.toDigits 10 n.toInt.natAbs).filter (· != '_') = Nat.toDigits 10 n.toInt.natAbs := by
    refine List.filter_eq_self.2 fun c hc => ?_
    have hne : c ≠ '_' := by
      rintro rfl
      exact absurd (hdigits.2 '_' hc) (by decide)
    simpa using hne
  have hvalue : Decimal.toInt64? (Decimal.signed (n.toInt < 0)
      (Decimal.natOfDigits 10 (Nat.toDigits 10 n.toInt.natAbs))) = some n := by
    rw [natOfDigits_eq_ofDigitChars hdigits.2, Nat.ofDigitChars_ten_toDigits, signed_natAbs,
      toInt64?_toInt]
  rw [writeInt_toList, List.append_assoc,
    (isDecimalText_writeInt n.toInt).integer?_append (beginsWithout_of_goesOnNumber htext), hfilter,
    (signText_cases (n.toInt < 0)).2, hvalue]
  rfl

/-- A decimal integer is no hexadecimal one: no x stands behind it. -/
theorem hexInteger?_eq_none_of_integer (n : Int64) {text : List Char}
    (htext : BeginsWithout goesOnNumber text) :
    hexInteger? ((Decimal.writeInt n.toInt).toList ++ text) = none := by
  rw [writeInt_toList, List.append_assoc]
  refine (isDecimalText_writeInt n.toInt).hexInteger?_append fun _ _ hx => ?_
  exact absurd (htext 'x' hx) (by decide)

/-- A decimal integer is no float: no point follows it. -/
theorem float?_eq_none_of_integer (n : Int64) {text : List Char}
    (htext : BeginsWithout goesOnNumber text) :
    float? ((Decimal.writeInt n.toInt).toList ++ text) = none := by
  rw [writeInt_toList, List.append_assoc]
  refine (isDecimalText_writeInt n.toInt).float?_append (beginsWithout_of_goesOnNumber htext) fun rest hrest => ?_
  exact absurd hrest (htext.ne_cons (by decide) rest)

/-! ### Floats -/

theorem splitSign_digits {sign digits text : List Char}
    (hsign : sign = [] ∨ sign = ['+'] ∨ sign = ['-']) (hdigits : IsDigits digits) :
    splitSign (sign ++ (digits ++ text)) = (sign, digits ++ text) := by
  rcases hsign with rfl | rfl | rfl
  · have hplus : ∀ rest, digits ++ text ≠ '+' :: rest := by
      obtain ⟨c, others, rfl⟩ := List.exists_cons_of_ne_nil hdigits.1
      intro rest h
      have hc := hdigits.2 c List.mem_cons_self
      rw [(List.cons.inj h).1] at hc
      cases hc
    have hminus : splitMinus ([] ++ (digits ++ text)) = ([], digits ++ text) :=
      splitMinus_digits (Or.inl rfl) hdigits
    rw [List.nil_append] at hminus ⊢
    rw [splitSign, hminus]
    exact hplus
  · rfl
  · rfl

theorem exponentSpelling_append {exponent text : List Char} (hexponent : IsExponentText exponent)
    (htext : BeginsWithout goesOnNumber text) : exponentSpelling (exponent ++ text) = exponent := by
  rcases hexponent with rfl | ⟨mark, sign, digits, hmark, hsign, hdigits, rfl⟩
  · cases text with
    | nil => rfl
    | cons c text =>
      have hc := htext c rfl
      have hmark : ¬ (c = 'e' ∨ c = 'E') := by
        rintro (rfl | rfl) <;> exact absurd hc (by decide)
      simp [exponentSpelling, hmark]
  · have hsplit := @splitSign_digits sign digits text hsign hdigits
    have hrun := takeWhile_append_of_beginsWithout hdigits.2 (beginsWithout_isDigit htext)
    rw [List.cons_append, List.append_assoc, exponentSpelling]
    simp only [hsplit, hrun]
    rw [if_pos ⟨hmark, hdigits.1⟩, List.cons_append]

theorem floatSpelling_append {spelling text : List Char} (h : IsFloatText spelling)
    (htext : BeginsWithout goesOnNumber text) : floatSpelling (spelling ++ text) = some spelling := by
  obtain ⟨minus, whole, fraction, exponent, hminus, hwhole, hfraction, hexponent, rfl⟩ := h
  have hall : minus ++ whole ++ '.' :: fraction ++ exponent ++ text =
      minus ++ (whole ++ '.' :: (fraction ++ (exponent ++ text))) := by
    simp
  have hpoint : BeginsWithout Char.isDigit ('.' :: (fraction ++ (exponent ++ text))) :=
    beginsWithout_cons rfl
  have hbehind : BeginsWithout Char.isDigit (exponent ++ text) := by
    rcases hexponent with rfl | ⟨mark, sign, digits, hmark, -, -, rfl⟩
    · exact beginsWithout_isDigit htext
    · refine beginsWithout_cons ?_
      rcases hmark with rfl | rfl <;> rfl
  have hwholeRun := takeWhile_append_of_beginsWithout hwhole.2 hpoint
  have hwholeRest := dropWhile_append_of_beginsWithout hwhole.2 hpoint
  have hfractionRun := takeWhile_append_of_beginsWithout hfraction.2 hbehind
  have hfractionRest := dropWhile_append_of_beginsWithout hfraction.2 hbehind
  have hexponentRun := exponentSpelling_append hexponent htext
  have hne : ¬ (whole = [] ∨ fraction = []) := not_or.2 ⟨hwhole.1, hfraction.1⟩
  rw [hall]
  unfold floatSpelling
  simp only [splitMinus_digits hminus hwhole, hwholeRun, hwholeRest, hfractionRun, hfractionRest,
    hexponentRun, if_neg hne]

theorem float?_append {spelling text : List Char} {value : Float} (h : IsFloatText spelling)
    (hvalue : Decimal.readFloat spelling = some value) (htext : BeginsWithout goesOnNumber text) :
    float? (spelling ++ text) = some ⟨.float value, spelling⟩ := by
  rw [float?, floatSpelling_append h htext]
  simp only [Option.bind_eq_bind, Option.bind_some, hvalue]

end Lexeme

end ConfigLang
