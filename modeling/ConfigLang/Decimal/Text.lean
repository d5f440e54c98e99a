import ConfigLang.Decimal.Shortest

/-!
# The text of a float

A float is written with the shortest digits that read back. A `Style` says which numbers are written
without an exponent part and whether a whole number keeps a decimal point.

Main definitions.

* `Style.plain` - no exponent part ever, no point in whole numbers: `1`, `0.5`, `inf`.
* `Style.scientific` - a point or an exponent part always: `1.0`, `1e-6`, `1e+16`.
* `write` - the text of a float.
* `writeInt` - the text of an integer.
-/

namespace ConfigLang.Decimal

/-- The choices left open by the shortest digits. -/
structure Style where
  /-- Which of two equally near decimals is written. -/
  tie : Tie
  /-- The exponents of the leading digit for which no exponent part is written. -/
  positional : Int → Bool
  /-- Whole numbers end in `.0`. -/
  keepsPoint : Bool

/-- Always positional, and whole numbers without a point. -/
def Style.plain : Style := ⟨.up, fun _ => true, false⟩

/-- Positional from `0.00001` up to below `10 ^ 16`, with an exponent part outside. -/
def Style.scientific : Style := ⟨.even, fun lead => -5 ≤ lead && lead ≤ 15, true⟩

/-! ### Digits and layout -/

/-- The decimal digits of a number, the most significant first. -/
def digitsOf (n : Nat) : List Char := Nat.toDigits 10 n

/-- A run of zeros. -/
def zeros (n : Nat) : List Char := List.replicate n '0'

/-- The exponent of the leading digit. -/
def leadingExponent (d : Decimal) : Int := d.exponent + (digitsOf d.digits).length - 1

/-- The end of a whole number. -/
def Style.wholeEnd (style : Style) : List Char :=
  if style.keepsPoint then ['.', '0'] else []

/-- The digits with a decimal point at its place, filled with zeros on either side as needed. -/
def positionalText (style : Style) (d : Decimal) : List Char :=
  let digits := digitsOf d.digits
  if 0 ≤ d.exponent then digits ++ zeros d.exponent.toNat ++ style.wholeEnd
  else
    let places := (-d.exponent).toNat
    if places < digits.length then
      digits.take (digits.length - places) ++ '.' :: digits.drop (digits.length - places)
    else '0' :: '.' :: zeros (places - digits.length) ++ digits

/-- An exponent part with the sign always written. -/
def exponentPart (e : Int) : List Char :=
  'e' :: (if e < 0 then '-' else '+') :: digitsOf e.natAbs

/-- One digit before the point, the others after it, and an exponent part. -/
def exponentialText (d : Decimal) : List Char :=
  let tail := exponentPart (leadingExponent d)
  match digitsOf d.digits with
  | [] => tail
  | [lead] => lead :: tail
  | lead :: rest => lead :: '.' :: rest ++ tail

/-- The text of a positive decimal. -/
def positiveText (style : Style) (d : Decimal) : List Char :=
  if style.positional (leadingExponent d) then positionalText style d else exponentialText d

/-! ### Integers and floats -/

/-- A minus sign for a negative number. -/
def signText (negative : Bool) : List Char := if negative then ['-'] else []

/-- The text of an integer. -/
def writeInt (n : Int) : String := String.ofList (signText (n < 0) ++ digitsOf n.natAbs)

/-- The text of a decoded float. -/
def Binary.text (style : Style) : Binary → List Char
  | .notANumber => ['N', 'a', 'N']
  | .infinite negative => signText negative ++ ['i', 'n', 'f']
  | .finite negative mantissa exponent =>
    signText negative ++
      if mantissa = 0 then '0' :: style.wholeEnd
      else positiveText style (shortest style.tie ⟨mantissa, exponent⟩)

/-- The text of a float in the given style. -/
def write (style : Style) (x : Float) : String :=
  String.ofList ((Binary.ofFloat x).text style)

end ConfigLang.Decimal
