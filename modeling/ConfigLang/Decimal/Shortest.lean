import ConfigLang.Decimal.Binary

/-!
# The shortest decimal that reads back

Among the decimals that round to a given binary number, the shortest ones are the points of the
coarsest decimal grid that meets the interval of such decimals; of two points on that grid the one
nearer to the number is taken.

Main definitions.

* `Tie` - which of two equally near decimals is taken.
* `Decimal.shortest` - the shortest decimal of a positive number.

A grid that has a point in the interval also has there one of the two points around the number
itself, so only those two are tested on each grid.
-/

namespace ConfigLang.Decimal

/-- Which of two equally near decimals is taken. -/
inductive Tie where
  | up
  | even
deriving DecidableEq, Repr

end ConfigLang.Decimal

namespace ConfigLang

/-- The positive decimal `digits * 10 ^ exponent`. -/
structure Decimal where
  digits : Nat
  exponent : Int
deriving DecidableEq, Repr

namespace Decimal

/-! ### One decimal grid -/

/-- A quarter of the last binary place of `c`, as a multiple of the common measure of that quarter
and the grid `10 ^ e`. -/
def quarterMeasure (c : Cell) (e : Int) : Nat :=
  Nat.pow 2 (c.exponent - 2).toNat * Nat.pow 10 (-e).toNat

/-- The distance of two points of the grid `10 ^ e`, in the same measure. -/
def gridMeasure (c : Cell) (e : Int) : Nat :=
  Nat.pow 2 (2 - c.exponent).toNat * Nat.pow 10 e.toNat

/-- The point to take of `k` and `k + 1`, both known to read back, for the number `exact`. -/
def nearer (tie : Tie) (unit exact k : Nat) : Nat :=
  let below := exact - k * unit
  let above := (k + 1) * unit - exact
  if below < above then k
  else if above < below then k + 1
  else match tie with
    | .up => k + 1
    | .even => if k % 2 = 0 then k else k + 1

/-- The point of the grid `10 ^ e` that reads back as `c`, if there is one. -/
def onGrid (tie : Tie) (c : Cell) (e : Int) : Option Nat :=
  let quarter := quarterMeasure c e
  let unit := gridMeasure c e
  let exact := c.quarters * quarter
  let k := exact / unit
  match c.holds quarter unit k, c.holds quarter unit (k + 1) with
  | true, true => some (nearer tie unit exact k)
  | true, false => some k
  | false, true => some (k + 1)
  | false, false => none

/-! ### The coarsest grid that has a point -/

/-- Tries the grids `10 ^ e`, `10 ^ (e - 1)`, … and gives up after `count` of them. -/
def search (tie : Tie) (c : Cell) (e : Int) : (count : Nat) → Option Decimal
  | 0 => none
  | count + 1 =>
    match onGrid tie c e with
    | some k => some ⟨k, e⟩
    | none => search tie c (e - 1) count

/-- An exponent whose power of ten is above the number and its interval, which lie below `2 ^ b`:
for `0 ≤ b` because `2 ^ 3 ≤ 10`, and for the others because `10 ^ 3 ≤ 2 ^ 10`. -/
def gridAbove (c : Cell) : Int :=
  let b : Int := c.mantissa.log2 + 2 + c.exponent
  if 0 ≤ b then b / 3 + 1 else b * 3 / 10 + 1

/-- The shortest decimal that reads back as `c`. The last grid tried has the number itself as a
point, so the search ends before the number of grids is used up. -/
def shortest (tie : Tie) (c : Cell) : Decimal :=
  let top := gridAbove c
  (search tie c top (top - min c.exponent 0 + 1).toNat).getD ⟨c.mantissa, c.exponent⟩

end Decimal

end ConfigLang
