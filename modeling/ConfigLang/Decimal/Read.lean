import ConfigLang.Decimal.Binary

/-!
# Reading numbers

An integer is an optional sign and digits. A float is an optional sign followed by digits with at
most one point among them and at least one digit, then an optional exponent part; or by one of the
words `inf`, `infinity` and `nan` in any letter case.

Main definitions.

* `natOfDigits` - the number that a run of digits stands for.
* `toInt64?` - an integer as a 64-bit word, if it is in range.
* `nearestFloat` - the float nearest to `m * 10 ^ e`.
* `readInt64`, `readFloat` - the number that a text stands for, if the text is an accepted one.
* `readInt64_append` - what is read of a sign and digits.
-/

namespace ConfigLang.Decimal

/-! ### Whole numbers -/

/-- The value of an ASCII digit or letter as a digit. -/
def digitValue (c : Char) : Nat :=
  if c.isDigit then c.toNat - '0'.toNat
  else if c.isLower then c.toNat - 'a'.toNat + 10
  else c.toNat - 'A'.toNat + 10

/-- The number that a run of digits of the given base stands for, the most significant first. -/
def natOfDigits (base : Nat) (digits : List Char) : Nat :=
  digits.foldl (fun n c => base * n + digitValue c) 0

/-- An integer as a signed 64-bit word, if it is in range. -/
def toInt64? (n : Int) : Option Int64 :=
  if Int64.minValue.toInt ≤ n ∧ n ≤ Int64.maxValue.toInt then some (Int64.ofInt n) else none

/-- A number with the given sign. -/
def signed (negative : Bool) (n : Nat) : Int := if negative then -(n : Int) else n

/-- Splits off a sign; true for a minus. -/
def splitSign : List Char → Bool × List Char
  | '-' :: rest => (true, rest)
  | '+' :: rest => (false, rest)
  | rest => (false, rest)

/-- The 64-bit integer that a text stands for. -/
def readInt64 (text : List Char) : Option Int64 :=
  let (negative, digits) := splitSign text
  if digits ≠ [] ∧ digits.all Char.isDigit then toInt64? (signed negative (natOfDigits 10 digits))
  else none

/-- A text without a sign in front is left as it is. -/
theorem splitSign_of_head? {text : List Char} (hminus : text.head? ≠ some '-')
    (hplus : text.head? ≠ some '+') : splitSign text = (false, text) := by
  unfold splitSign
  split
  · exact absurd rfl hminus
  · exact absurd rfl hplus
  · rfl

theorem splitSign_of_isDigit {text : List Char}
    (h : ∀ c, text.head? = some c → c.isDigit = true) : splitSign text = (false, text) := by
  refine splitSign_of_head? (fun hminus => ?_) fun hplus => ?_
  · exact absurd (h '-' hminus) (by decide)
  · exact absurd (h '+' hplus) (by decide)

/-- Digits with perhaps a minus in front are read, if there are any and the integer is in range. -/
theorem readInt64_append {minus digits : List Char} (hminus : minus = [] ∨ minus = ['-'])
    (hdigits : ∀ c ∈ digits, c.isDigit = true) :
    readInt64 (minus ++ digits) =
      if digits = [] then none else toInt64? (signed (minus != []) (natOfDigits 10 digits)) := by
  have hsplit : splitSign (minus ++ digits) = (minus != [], digits) := by
    rcases hminus with rfl | rfl
    · exact splitSign_of_isDigit fun c hc => hdigits c (List.mem_of_mem_head? hc)
    · rfl
  have hall : digits.all Char.isDigit = true := List.all_eq_true.2 hdigits
  simp only [readInt64, hsplit, hall, and_true, ite_not]

/-! ### The nearest float -/

/-- The positive infinite float. -/
def infinity : Float := Float.ofBits 0x7FF0000000000000

/-- The float that is not a number. -/
def notANumber : Float := Float.ofBits 0x7FF8000000000000

/-- The float nearest to `m * 10 ^ e`. As `8 ≤ 10`, the first two tests recognise numbers that are
too great or too small for any other answer without computing the power of ten. -/
def nearestFloat (m : Nat) (e : Int) : Float :=
  if m = 0 then 0.0
  else if 0 ≤ e ∧ 1024 ≤ m.log2 + 3 * e then infinity
  else if e < 0 ∧ m.log2 + 1 + 3 * e ≤ lowestExponent - 1 then 0.0
  else Float.ofScientific m (e < 0) e.natAbs

/-! ### The texts of floats -/

/-- The exponent that the text after the digits asks for. -/
def readExponent : List Char → Option Int
  | [] => some 0
  | mark :: rest =>
    if mark = 'e' ∨ mark = 'E' then
      let (negative, digits) := splitSign rest
      if digits ≠ [] ∧ digits.all Char.isDigit then
        some (signed negative (natOfDigits 10 digits))
      else none
    else none

/-- The digits after a decimal point, and what follows them. -/
def splitFraction : List Char → List Char × List Char
  | '.' :: rest => rest.span Char.isDigit
  | rest => ([], rest)

/-- A number without a sign. -/
def readUnsigned (text : List Char) : Option Float :=
  let (whole, rest) := text.span Char.isDigit
  let (fraction, rest) := splitFraction rest
  if whole = [] ∧ fraction = [] then none
  else (readExponent rest).map fun e =>
    nearestFloat (natOfDigits 10 (whole ++ fraction)) (e - fraction.length)

/-- A word for a float that is no number. -/
def readWord (text : List Char) : Option Float :=
  let word := String.ofList (text.map Char.toLower)
  if word = "inf" ∨ word = "infinity" then some infinity
  else if word = "nan" then some notANumber
  else none

/-- The float that a text stands for. -/
def readFloat (text : List Char) : Option Float :=
  let (negative, rest) := splitSign text
  (readUnsigned rest <|> readWord rest).map fun x => if negative then -x else x

end ConfigLang.Decimal
