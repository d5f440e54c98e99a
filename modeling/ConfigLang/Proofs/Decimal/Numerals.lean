import ConfigLang.Decimal.Text
import ConfigLang.Proofs.Decimal.Rounding
import ConfigLang.Proofs.Token.IntegerSpellings

/-!
# Numbers are known from their texts

Two integers have different texts, and so have two floats: a float without an exponent part is written with all
digits of its shortest decimal and the point at its place, so its text says which number the decimal is.

* `splitSign_append` - a sign is read off a text that has no sign itself.
* `writeInt_injective` - integers.
* `pointValue`, `pointValue_positionalText` - the number that digits with a point stand for.
* `Binary.text_injOn` - decoded floats.
* `Binary.ofFloat_injective` - the decoding itself. There is only one float that is not a number.
* `write_plain_injective` - floats.
-/

namespace ConfigLang.Decimal

/-! ### Signs -/

/-- The characters that are taken for a sign. -/
def isSign (c : Char) : Bool := c == '-' || c == '+'

theorem splitSign_append {text : List Char} (negative : Bool) (htext : BeginsWithout isSign text) :
    splitSign (signText negative ++ text) = (negative, text) := by
  cases negative with
  | true => rfl
  | false =>
    rw [signText, if_neg (by decide), List.nil_append]
    refine splitSign_of_head? (fun h => ?_) fun h => ?_
    · exact absurd (htext '-' h) (by decide)
    · exact absurd (htext '+' h) (by decide)

/-- Texts with their signs are the same only if the signs are. -/
theorem eq_of_signText_append_eq {negative negative' : Bool} {text text' : List Char}
    (htext : BeginsWithout isSign text) (htext' : BeginsWithout isSign text')
    (h : signText negative ++ text = signText negative' ++ text') : negative = negative' ∧ text = text' := by
  have hsplit := congrArg splitSign h
  rw [splitSign_append negative htext, splitSign_append negative' htext'] at hsplit
  exact Prod.mk.inj hsplit

theorem beginsWithout_isSign_of_digits {text : List Char}
    (h : ∀ c, text.head? = some c → c.isDigit = true) : BeginsWithout isSign text := by
  intro c hc
  have hdigit := h c hc
  rw [isSign, Bool.or_eq_false_iff, beq_eq_false_iff_ne, beq_eq_false_iff_ne]
  constructor <;> rintro rfl <;> cases hdigit

/-! ### Integers -/

theorem digitsOf_injective : Function.Injective digitsOf := by
  intro m n h
  have hvalue := congrArg (natOfDigits 10) h
  rwa [digitsOf, digitsOf, natOfDigits_toDigits (by decide) (by decide),
    natOfDigits_toDigits (by decide) (by decide)] at hvalue

theorem isDigit_of_mem_digitsOf {n : Nat} {c : Char} (hc : c ∈ digitsOf n) : c.isDigit = true :=
  (Lexeme.isDigits_toDigits n).2 c hc

/-- An integer is known from its text. -/
theorem writeInt_injective : Function.Injective writeInt := by
  intro m n h
  have hbegin : ∀ k : Int, BeginsWithout isSign (digitsOf k.natAbs) := fun k =>
    beginsWithout_isSign_of_digits fun c hc => isDigit_of_mem_digitsOf (List.mem_of_mem_head? hc)
  obtain ⟨hsign, hdigits⟩ := eq_of_signText_append_eq (hbegin m) (hbegin n) (String.ofList_injective h)
  rw [← Lexeme.signed_natAbs m, ← Lexeme.signed_natAbs n, hsign, digitsOf_injective hdigits]

/-! ### Digits with a point -/

/-- The number that digits stand for, with perhaps a point among them. -/
def pointValue (text : List Char) : ℚ :=
  natOfDigits 10 (text.filter (· != '.')) / 10 ^ ((text.dropWhile (· != '.')).length - 1)

theorem natOfDigits_append_zeros (base : Nat) (digits : List Char) (count : Nat) :
    natOfDigits base (digits ++ zeros count) = natOfDigits base digits * base ^ count := by
  induction count with
  | zero => rw [zeros, List.replicate_zero, List.append_nil, Nat.pow_zero, Nat.mul_one]
  | succ count ih =>
    rw [zeros, List.replicate_succ', ← zeros, ← List.append_assoc, natOfDigits_concat, ih, Nat.pow_succ]
    show base * _ + 0 = _
    ring

section Points

variable {whole fraction digits : List Char}

theorem ne_point_of_isDigit (h : ∀ c ∈ digits, c.isDigit = true) : ∀ c ∈ digits, (c != '.') = true := by
  intro c hc
  rw [bne_iff_ne]
  rintro rfl
  cases h '.' hc

/-- Digits without a point stand for a whole number. -/
theorem pointValue_whole (hdigits : ∀ c ∈ digits, c.isDigit = true) :
    pointValue digits = natOfDigits 10 digits := by
  have hne := ne_point_of_isDigit hdigits
  have hdrop := @dropWhile_append_of_beginsWithout (· != '.') digits [] hne (fun c hc => by cases hc)
  rw [List.append_nil] at hdrop
  rw [pointValue, List.filter_eq_self.2 hne, hdrop, List.length_nil, Nat.zero_sub, pow_zero, div_one]

/-- Each digit behind the point makes the number ten times smaller. -/
theorem pointValue_point (hwhole : ∀ c ∈ whole, c.isDigit = true)
    (hfraction : ∀ c ∈ fraction, c.isDigit = true) :
    pointValue (whole ++ '.' :: fraction) = natOfDigits 10 (whole ++ fraction) / 10 ^ fraction.length := by
  have hwhole' := ne_point_of_isDigit hwhole
  have hfraction' := ne_point_of_isDigit hfraction
  have hdrop := @dropWhile_append_of_beginsWithout (· != '.') whole ('.' :: fraction) hwhole'
    (beginsWithout_cons (by decide))
  have hfilter : (whole ++ '.' :: fraction).filter (· != '.') = whole ++ fraction := by
    rw [List.filter_append, List.filter_eq_self.2 hwhole', List.filter_cons_of_neg (by decide),
      List.filter_eq_self.2 hfraction']
  rw [pointValue, hfilter, hdrop, List.length_cons, Nat.add_sub_cancel]

end Points

/-! ### Decimals without an exponent part -/

/-- How a decimal is written without an exponent part: the digits with zeros behind them, or the digits with
zeros in front of them and a point among them. -/
theorem positionalText_cases (d : Decimal) :
    (0 ≤ d.exponent ∧ positionalText .plain d = digitsOf d.digits ++ zeros d.exponent.toNat) ∨
      d.exponent < 0 ∧ ∃ whole fraction count, positionalText .plain d = whole ++ '.' :: fraction ∧
        whole ≠ [] ∧ whole ++ fraction = zeros count ++ digitsOf d.digits ∧
        fraction.length = (-d.exponent).toNat := by
  by_cases hexponent : 0 ≤ d.exponent
  · left
    refine ⟨hexponent, ?_⟩
    rw [positionalText, if_pos hexponent]
    exact List.append_nil _
  · right
    refine ⟨by omega, ?_⟩
    simp only [positionalText, if_neg hexponent, List.cons_append]
    split_ifs with hplaces
    -- The point is among the digits, or in front of them all.
    · refine ⟨_, _, 0, rfl, ?_, List.take_append_drop _ _, ?_⟩
      · rw [Ne, List.take_eq_nil_iff]
        rintro (hzero | hnil)
        · omega
        · exact absurd hnil Nat.toDigits_ne_nil
      · rw [List.length_drop]
        omega
    · refine ⟨['0'], _, (-d.exponent).toNat - (digitsOf d.digits).length + 1, rfl, List.cons_ne_nil _ _, ?_,
        ?_⟩
      · rw [zeros, zeros, List.replicate_succ]
        rfl
      · rw [List.length_append, zeros, List.length_replicate]
        omega

theorem isDigit_of_mem_zeros {count : Nat} {c : Char} (hc : c ∈ zeros count) : c.isDigit = true := by
  rw [List.eq_of_mem_replicate hc]
  rfl

theorem isDigit_of_mem_append_zeros (n count : Nat) : ∀ c ∈ digitsOf n ++ zeros count, c.isDigit = true :=
  List.forall_mem_append.2 ⟨fun _ => isDigit_of_mem_digitsOf, fun _ => isDigit_of_mem_zeros⟩

/-- Zeros in front of digits, cut in two at any place. -/
theorem isDigit_of_append_eq {whole fraction : List Char} {count n : Nat}
    (h : whole ++ fraction = zeros count ++ digitsOf n) :
    (∀ c ∈ whole, c.isDigit = true) ∧ ∀ c ∈ fraction, c.isDigit = true := by
  rw [← List.forall_mem_append, h, List.forall_mem_append]
  exact ⟨fun _ => isDigit_of_mem_zeros, fun _ => isDigit_of_mem_digitsOf⟩

/-- The text of a decimal stands for it. -/
theorem pointValue_positionalText (d : Decimal) : pointValue (positionalText .plain d) = d.value := by
  have hnumber : natOfDigits 10 (digitsOf d.digits) = d.digits :=
    natOfDigits_toDigits (by decide) (by decide) d.digits
  rcases positionalText_cases d with ⟨hexponent, htext⟩ |
    ⟨hexponent, whole, fraction, count, htext, -, happend, hlength⟩
  · have hpow : (10 : ℚ) ^ d.exponent.toNat = 10 ^ d.exponent := by
      rw [← zpow_natCast, Int.toNat_of_nonneg hexponent]
    rw [htext, pointValue_whole (isDigit_of_mem_append_zeros _ _), natOfDigits_append_zeros, hnumber, value]
    push_cast
    rw [hpow]
  · obtain ⟨hwhole, hfraction⟩ := isDigit_of_append_eq happend
    have hpow : (10 : ℚ) ^ (-d.exponent).toNat = (10 ^ d.exponent)⁻¹ := by
      rw [← zpow_natCast, Int.toNat_of_nonneg (by omega), zpow_neg]
    rw [htext, pointValue_point hwhole hfraction, happend, natOfDigits_zeros_append, hnumber, hlength, hpow,
      div_inv_eq_mul, value]

/-- It consists of digits and perhaps a point, and the first of them is a digit. -/
theorem positionalText_digits (d : Decimal) :
    (∀ c ∈ positionalText .plain d, c.isDigit = true ∨ c = '.') ∧
      ∃ first others, positionalText .plain d = first :: others ∧ first.isDigit = true := by
  rcases positionalText_cases d with ⟨-, htext⟩ | ⟨-, whole, fraction, count, htext, hne, happend, -⟩
  · have hdigits := isDigit_of_mem_append_zeros d.digits d.exponent.toNat
    have hne : digitsOf d.digits ++ zeros d.exponent.toNat ≠ [] :=
      List.append_ne_nil_of_left_ne_nil Nat.toDigits_ne_nil _
    obtain ⟨first, others, hcons⟩ := List.exists_cons_of_ne_nil hne
    rw [htext]
    exact ⟨fun c hc => Or.inl (hdigits c hc), first, others, hcons, hdigits first (hcons ▸ List.mem_cons_self)⟩
  · obtain ⟨hwhole, hfraction⟩ := isDigit_of_append_eq happend
    obtain ⟨first, others, rfl⟩ := List.exists_cons_of_ne_nil hne
    rw [htext]
    refine ⟨fun c hc => ?_, first, _, rfl, hwhole first List.mem_cons_self⟩
    rcases List.mem_append.1 hc with hc | hc
    · exact Or.inl (hwhole c hc)
    · exact (List.mem_cons.1 hc).symm.imp_left (hfraction c)

/-! ### Floats without their sign -/

/-- The text of a float without its sign. -/
def unsignedText (c : Cell) : List Char :=
  if c.mantissa = 0 then ['0'] else positionalText .plain (shortest .up c)

theorem unsignedText_digits (c : Cell) :
    (∀ d ∈ unsignedText c, d.isDigit = true ∨ d = '.') ∧
      ∃ first others, unsignedText c = first :: others ∧ first.isDigit = true := by
  rw [unsignedText]
  split_ifs
  · exact ⟨fun d hd => Or.inl (List.mem_singleton.1 hd ▸ rfl), _, _, rfl, rfl⟩
  · exact positionalText_digits _

theorem pointValue_unsignedText_eq_zero_iff (c : Cell) :
    pointValue (unsignedText c) = 0 ↔ c.mantissa = 0 := by
  rw [unsignedText]
  split_ifs with hmantissa
  · have hzero : pointValue ['0'] = 0 :=
      (pointValue_whole fun d hd => List.mem_singleton.1 hd ▸ rfl).trans Nat.cast_zero
    exact iff_of_true hzero hmantissa
  · have hpos := Nat.pos_of_ne_zero hmantissa
    rw [pointValue_positionalText]
    exact iff_of_false ((shortest_covered .up hpos).pos hpos).ne' hmantissa

/-- A float is known from its text without the sign. -/
theorem unsignedText_injOn {c d : Cell} (hc : c.IsFloat) (hd : d.IsFloat)
    (h : unsignedText c = unsignedText d) : c = d := by
  have hzero : c.mantissa = 0 ↔ d.mantissa = 0 := by
    rw [← pointValue_unsignedText_eq_zero_iff, h, pointValue_unsignedText_eq_zero_iff]
  by_cases hmantissa : c.mantissa = 0
  · have hmantissa' := hzero.1 hmantissa
    have hexponent : c.exponent = d.exponent := by
      rw [hc.exponent_of_lt (hmantissa ▸ by decide), hd.exponent_of_lt (hmantissa' ▸ by decide)]
    cases c
    cases d
    exact congrArg₂ Cell.mk (hmantissa.trans hmantissa'.symm) hexponent
  · have hmantissa' := mt hzero.2 hmantissa
    rw [unsignedText, if_neg hmantissa, unsignedText, if_neg hmantissa'] at h
    have hvalue : (shortest .up c).value = (shortest .up d).value := by
      rw [← pointValue_positionalText, h, pointValue_positionalText]
    exact eq_of_shortest_value_eq hc hd (Nat.pos_of_ne_zero hmantissa) (Nat.pos_of_ne_zero hmantissa') hvalue

/-! ### Decoded floats -/

namespace Binary

/-- What floats are decoded to. -/
def IsFloat : Binary → Prop
  | finite _ mantissa exponent => Cell.IsFloat ⟨mantissa, exponent⟩
  | _ => True

/-- Whether a minus sign is written. -/
def negative : Binary → Bool
  | notANumber => false
  | infinite negative => negative
  | finite negative _ _ => negative

/-- What is written behind the sign. -/
def unsigned : Binary → List Char
  | notANumber => ['N', 'a', 'N']
  | infinite _ => ['i', 'n', 'f']
  | finite _ mantissa exponent => unsignedText ⟨mantissa, exponent⟩

theorem text_plain (b : Binary) : b.text .plain = signText b.negative ++ b.unsigned := by
  cases b <;> rfl

theorem beginsWithout_isSign_unsigned (b : Binary) : BeginsWithout isSign b.unsigned := by
  cases b with
  | notANumber => exact beginsWithout_cons (by decide)
  | infinite negative => exact beginsWithout_cons (by decide)
  | finite negative mantissa exponent =>
    obtain ⟨-, first, others, hcons, hfirst⟩ := unsignedText_digits ⟨mantissa, exponent⟩
    rw [unsigned, hcons]
    exact beginsWithout_isSign_of_digits fun c hc => Option.some.inj hc ▸ hfirst

/-- No number is written as a word. -/
theorem unsignedText_ne_word (c : Cell) {first : Char} {others : List Char}
    (hfirst : first.isDigit = false) : unsignedText c ≠ first :: others := by
  obtain ⟨-, digit, others', hcons, hdigit⟩ := unsignedText_digits c
  rw [hcons]
  intro h
  rw [(List.cons.inj h).1, hfirst] at hdigit
  cases hdigit

/-- A decoded float is known from its text. -/
theorem text_injOn {b b' : Binary} (hb : b.IsFloat) (hb' : b'.IsFloat)
    (h : b.text .plain = b'.text .plain) : b = b' := by
  rw [text_plain, text_plain] at h
  obtain ⟨hsign, hunsigned⟩ :=
    eq_of_signText_append_eq b.beginsWithout_isSign_unsigned b'.beginsWithout_isSign_unsigned h
  cases b with
  | notANumber =>
    cases b' with
    | notANumber => rfl
    | infinite _ => cases hunsigned
    | finite _ _ _ => exact absurd hunsigned.symm (unsignedText_ne_word _ (by decide))
  | infinite _ =>
    cases b' with
    | notANumber => cases hunsigned
    | infinite _ => exact congrArg infinite hsign
    | finite _ _ _ => exact absurd hunsigned.symm (unsignedText_ne_word _ (by decide))
  | finite _ _ _ =>
    cases b' with
    | notANumber => exact absurd hunsigned (unsignedText_ne_word _ (by decide))
    | infinite _ => exact absurd hunsigned (unsignedText_ne_word _ (by decide))
    | finite _ _ _ =>
      obtain ⟨hmantissa, hexponent⟩ := Cell.mk.inj (unsignedText_injOn hb hb' hunsigned)
      exact finite.injEq .. ▸ ⟨hsign, hmantissa, hexponent⟩

end Binary

/-! ### The decoding -/

theorem biasedExponents_eq : biasedExponents = 2048 := rfl

/-- With a biased exponent of zero the mantissa is the stored one. -/
theorem Cell.isFloat_subnormal {stored : Nat} (h : stored < mantissas) : IsFloat ⟨stored, lowestExponent⟩ where
  lt := by
    dsimp only
    omega
  lowest_le := le_rfl
  exponent_of_lt _ := rfl

/-- With any other one there is the first bit in front of it. -/
theorem Cell.isFloat_normal {stored : Nat} (h : stored < mantissas) (exponent : Nat) :
    IsFloat ⟨mantissas + stored, lowestExponent + exponent⟩ where
  lt := by
    dsimp only
    omega
  lowest_le := by
    dsimp only
    omega
  exponent_of_lt hless := by
    dsimp only at hless
    omega

theorem Binary.isFloat_ofFloat (x : Float) : (Binary.ofFloat x).IsFloat := by
  have hstored : x.toBits.toNat % mantissas < mantissas := Nat.mod_lt _ (by decide)
  simp only [Binary.ofFloat]
  split_ifs
  · trivial
  · trivial
  · exact Cell.isFloat_subnormal hstored
  · exact Cell.isFloat_normal hstored _

/-- The biased exponent of a float. -/
def Binary.biased : Binary → Nat
  | finite _ mantissa exponent =>
    if mantissa < mantissas then 0 else (exponent - lowestExponent).toNat + 1
  | _ => biasedExponents - 1

/-- The stored mantissa of a float that is a number or infinite. -/
def Binary.stored : Binary → Nat
  | finite _ mantissa _ => mantissa % mantissas
  | _ => 0

section Fields

variable {x y : Float}

theorem biased_ofFloat (x : Float) :
    (Binary.ofFloat x).biased = x.toBits.toNat / mantissas % biasedExponents := by
  have hstored : x.toBits.toNat % mantissas < mantissas := Nat.mod_lt _ (by decide)
  simp only [Binary.ofFloat]
  split_ifs with hspecial hinfinite hsubnormal
  · exact hspecial.symm
  · exact hspecial.symm
  · rw [hsubnormal]
    exact if_pos hstored
  · rw [Binary.biased, if_neg (by omega)]
    omega

theorem stored_ofFloat (hnumber : Binary.ofFloat x ≠ .notANumber) :
    (Binary.ofFloat x).stored = x.toBits.toNat % mantissas := by
  simp only [Binary.ofFloat] at hnumber ⊢
  split_ifs at hnumber ⊢ with hspecial hinfinite hsubnormal
  · exact hinfinite.symm
  · exact absurd rfl hnumber
  · exact Nat.mod_mod _ _
  · rw [Binary.stored, Nat.add_mod_left, Nat.mod_mod]

theorem negative_ofFloat (hnumber : Binary.ofFloat x ≠ .notANumber) :
    (Binary.ofFloat x).negative = decide (x.toBits.toNat / (mantissas * biasedExponents) = 1) := by
  simp only [Binary.ofFloat] at hnumber ⊢
  split_ifs at hnumber ⊢ with hspecial hinfinite hsubnormal
  · rfl
  · exact absurd rfl hnumber
  · rfl
  · rfl

/-- A float is known from its bits. -/
theorem eq_of_toBits_eq (h : x.toBits.toNat = y.toBits.toNat) : x = y := by
  obtain ⟨⟨bits, hbits⟩⟩ := x
  obtain ⟨⟨bits', hbits'⟩⟩ := y
  obtain rfl : bits = bits' := UInt64.toNat_inj.1 h
  rfl

/-- The bits of a float are its stored mantissa, its exponent and its sign. -/
theorem eq_of_fields_eq (hstored : x.toBits.toNat % mantissas = y.toBits.toNat % mantissas)
    (hbiased : x.toBits.toNat / mantissas % biasedExponents = y.toBits.toNat / mantissas % biasedExponents)
    (hsign : decide (x.toBits.toNat / (mantissas * biasedExponents) = 1) =
      decide (y.toBits.toNat / (mantissas * biasedExponents) = 1)) : x = y := by
  have hx := x.toBits.toNat_lt
  have hy := y.toBits.toNat_lt
  rw [decide_eq_decide] at hsign
  rw [mantissas_eq, biasedExponents_eq] at *
  refine eq_of_toBits_eq ?_
  omega

/-- A float that is not a number has the bits of the only one. -/
theorem toBits_of_notANumber (h : Binary.ofFloat x = .notANumber) :
    x.toBits.toBitVec = Float.Model.UnpackedFloat.packedNaN Float.Model.Format.binary64 := by
  simp only [Binary.ofFloat] at h
  split_ifs at h with hspecial hinfinite
  refine x.toModel.valid.eq_packedNaN (BitVec.eq_of_toNat_eq ?_) fun hmantissa => ?_
  · show x.toBits.toBitVec.toNat >>> 52 % biasedExponents = biasedExponents - 1
    rw [Nat.shiftRight_eq_div_pow]
    exact hspecial
  · exact hinfinite (congrArg BitVec.toNat hmantissa)

/-- A float is known from what it is decoded to. -/
theorem Binary.ofFloat_injective : Function.Injective Binary.ofFloat := by
  intro x y h
  by_cases hx : Binary.ofFloat x = .notANumber
  · have hbits := (toBits_of_notANumber hx).trans (toBits_of_notANumber (h ▸ hx)).symm
    exact eq_of_toBits_eq (congrArg BitVec.toNat hbits)
  · have hy : Binary.ofFloat y ≠ .notANumber := h ▸ hx
    refine eq_of_fields_eq ?_ ?_ ?_
    · rw [← stored_ofFloat hx, h, stored_ofFloat hy]
    · rw [← biased_ofFloat, h, biased_ofFloat]
    · rw [← negative_ofFloat hx, h, negative_ofFloat hy]

end Fields

/-! ### Floats -/

/-- A float is known from its text. -/
theorem write_plain_injective : Function.Injective (write .plain) := fun x y h =>
  Binary.ofFloat_injective <|
    Binary.text_injOn (Binary.isFloat_ofFloat x) (Binary.isFloat_ofFloat y) (String.ofList_injective h)

/-! ### The characters of numbers -/

/-- The characters of a number: digits and a point, a minus sign and the letters of words. -/
def isNumeral (c : Char) : Bool := c.isDigit || c.isAlpha || c == '.' || c == '-'

theorem isNumeral_of_mem_signText {negative : Bool} {c : Char} (hc : c ∈ signText negative) :
    isNumeral c = true := by
  rcases (Lexeme.signText_cases negative).1 with h | h
  · rw [h] at hc
    cases hc
  · rw [h, List.mem_singleton] at hc
    rw [hc]
    rfl

theorem isNumeral_of_mem_writeInt {n : Int} {c : Char} (hc : c ∈ (writeInt n).toList) :
    isNumeral c = true := by
  rw [writeInt, String.toList_ofList] at hc
  rcases List.mem_append.1 hc with hc | hc
  · exact isNumeral_of_mem_signText hc
  · simp [isNumeral, isDigit_of_mem_digitsOf hc]

theorem isNumeral_of_mem_write {x : Float} {c : Char} (hc : c ∈ (write .plain x).toList) :
    isNumeral c = true := by
  rw [write, String.toList_ofList, Binary.text_plain] at hc
  rcases List.mem_append.1 hc with hc | hc
  · exact isNumeral_of_mem_signText hc
  · generalize Binary.ofFloat x = b at hc
    cases b with
    | notANumber =>
      have hletters : ['N', 'a', 'N'].all isNumeral = true := by decide
      exact List.all_eq_true.1 hletters c hc
    | infinite negative =>
      have hletters : ['i', 'n', 'f'].all isNumeral = true := by decide
      exact List.all_eq_true.1 hletters c hc
    | finite negative mantissa exponent =>
      rcases (unsignedText_digits ⟨mantissa, exponent⟩).1 c hc with hdigit | rfl
      · simp [isNumeral, hdigit]
      · rfl

end ConfigLang.Decimal
