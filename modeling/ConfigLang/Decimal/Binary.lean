/-!
# Binary floating-point numbers as exact numbers

A 64-bit float is decoded into a sign, a whole mantissa and a power of two, so that the decimal
texts can be computed in exact `Nat` arithmetic.

Main definitions.

* `Binary.ofFloat` - the decoding of a float: not a number, infinite, or `± mantissa * 2 ^ exponent`.
* `Cell` - a positive number `mantissa * 2 ^ exponent` with the interval of the numbers that round
  to it, measured in quarters of its last binary place.
-/

namespace ConfigLang.Decimal

/-- What a 64-bit float stands for. -/
inductive Binary where
  | notANumber
  | infinite (negative : Bool)
  /-- The number `± mantissa * 2 ^ exponent`; both zeros have the mantissa `0`. -/
  | finite (negative : Bool) (mantissa : Nat) (exponent : Int)
deriving DecidableEq, Repr

/-- The number of mantissas that a float can store, `2 ^ 52`: the bit in front of them is not
stored. -/
def mantissas : Nat := Nat.pow 2 52

/-- The number of biased exponents, `2 ^ 11`. -/
def biasedExponents : Nat := Nat.pow 2 11

/-- The exponent of the last binary place of the smallest floats. -/
def lowestExponent : Int := -1074

/-- Reads off sign, exponent and mantissa; a biased exponent of zero means no implicit bit. -/
def Binary.ofFloat (x : Float) : Binary :=
  let bits : Nat := x.toBits.toNat
  let stored : Nat := bits % mantissas
  let biased : Nat := bits / mantissas % biasedExponents
  let negative : Bool := bits / (mantissas * biasedExponents) = 1
  if biased = biasedExponents - 1 then
    if stored = 0 then .infinite negative else .notANumber
  else if biased = 0 then
    .finite negative stored lowestExponent
  else
    .finite negative (mantissas + stored) (lowestExponent + (biased - 1 : Nat))

/-! ### The numbers that round to a float -/

/-- The positive number `mantissa * 2 ^ exponent` among its neighbours. -/
structure Cell where
  mantissa : Nat
  exponent : Int
deriving DecidableEq, Repr

namespace Cell

/-- The number in quarters of its last binary place. -/
def quarters (c : Cell) : Nat := 4 * c.mantissa

/-- The least number, in quarters, that is not nearer to the float below. That float is at half the
usual distance when the mantissa is the first of its power of two. -/
def low (c : Cell) : Nat :=
  if c.mantissa = mantissas ∧ lowestExponent < c.exponent then c.quarters - 1
  else c.quarters - 2

/-- The greatest number, in quarters, that is not nearer to the float above. -/
def high (c : Cell) : Nat := c.quarters + 2

/-- A number halfway between two floats rounds to the one with the even mantissa. -/
def endsIncluded (c : Cell) : Bool := c.mantissa % 2 = 0

/-- Whether the fraction `k * unit / quarter`, in quarters, rounds to the number. -/
def holds (c : Cell) (quarter unit k : Nat) : Bool :=
  if c.endsIncluded then c.low * quarter ≤ k * unit && k * unit ≤ c.high * quarter
  else c.low * quarter < k * unit && k * unit < c.high * quarter

end Cell

end ConfigLang.Decimal
