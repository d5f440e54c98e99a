import ConfigLang.Decimal.Shortest
import Mathlib.Algebra.Order.Field.Power
import Mathlib.Algebra.Order.Field.Rat
import Mathlib.Tactic.Linarith
import Mathlib.Tactic.Positivity
import Mathlib.Tactic.Ring

/-!
# Shortest decimals and rounding

The exact comparisons by which the shortest decimal is found are comparisons of rational numbers: a point of a
decimal grid is taken if it lies in the interval of the numbers that round to the float. These intervals do not
overlap, so a float is known from its shortest decimal.

* `Decimal.value`, `Cell.value` - the numbers as rational numbers.
* `Cell.Covers` - the interval of the numbers that round to a float.
* `Cell.holds_iff_covers` - the comparisons of whole numbers decide about the interval.
* `Cell.holds_below_or_above` - if a grid has a point in it, one of the two around the float is.
* `shortest_covered` - the shortest decimal rounds to the float that it is written for.
* `Cell.IsFloat`, `Cell.eq_of_covers` - the cells of floats, and that each number is in one of them at most.
-/

namespace ConfigLang.Decimal

theorem mantissas_eq : mantissas = 4503599627370496 := rfl

/-- The number that a decimal stands for. -/
def value (d : Decimal) : ℚ := d.digits * 10 ^ d.exponent

namespace Cell

/-- The number in the middle of a cell. -/
def value (c : Cell) : ℚ := c.mantissa * 2 ^ c.exponent

/-- A quarter of the last binary place. -/
def quarter (c : Cell) : ℚ := 2 ^ (c.exponent - 2)

theorem quarter_pos (c : Cell) : 0 < c.quarter := zpow_pos (by norm_num) _

theorem quarters_mul_quarter (c : Cell) : c.quarters * c.quarter = c.value := by
  have hplace : (2 : ℚ) ^ c.exponent = 2 ^ (c.exponent - 2) * 4 := by
    rw [show (4 : ℚ) = 2 ^ (2 : ℤ) by norm_num, ← zpow_add₀ two_ne_zero, sub_add_cancel]
  rw [quarters, quarter, value, hplace]
  push_cast
  ring

/-- The numbers that round to the number in the middle. -/
def Covers (c : Cell) (q : ℚ) : Prop :=
  if c.endsIncluded then c.low * c.quarter ≤ q ∧ q ≤ c.high * c.quarter
  else c.low * c.quarter < q ∧ q < c.high * c.quarter

theorem low_le_quarters (c : Cell) : c.low ≤ c.quarters := by
  rw [low]
  split_ifs <;> omega

theorem low_lt_quarters {c : Cell} (hc : 0 < c.mantissa) : c.low < c.quarters := by
  rw [low, quarters]
  split_ifs <;> omega

theorem quarters_lt_high (c : Cell) : c.quarters < c.high := by
  rw [high]
  omega

/-- A positive number rounds to itself. -/
theorem covers_value {c : Cell} (hc : 0 < c.mantissa) : c.Covers c.value := by
  have hlow : (c.low : ℚ) * c.quarter < c.value := by
    rw [← c.quarters_mul_quarter]
    exact mul_lt_mul_of_pos_right (Nat.cast_lt.2 (low_lt_quarters hc)) c.quarter_pos
  have hhigh : c.value < c.high * c.quarter := by
    rw [← c.quarters_mul_quarter]
    exact mul_lt_mul_of_pos_right (Nat.cast_lt.2 c.quarters_lt_high) c.quarter_pos
  rw [Covers]
  split_ifs
  · exact ⟨hlow.le, hhigh.le⟩
  · exact ⟨hlow, hhigh⟩

end Cell

/-! ### The comparisons of whole numbers -/

section Measures

variable (c : Cell) (e : Int)

/-- The factor by which the measure of a quarter and of a grid exceeds their values. -/
def commonMeasure : ℚ := 2 ^ (2 - c.exponent).toNat * 10 ^ (-e).toNat

theorem commonMeasure_pos : 0 < commonMeasure c e := by
  rw [commonMeasure]
  positivity

theorem pow_toNat {base : ℚ} (hbase : base ≠ 0) (n : Int) :
    base ^ n.toNat = base ^ n * base ^ (-n).toNat := by
  rw [← zpow_natCast, ← zpow_natCast, ← zpow_add₀ hbase]
  congr 1
  omega

theorem quarterMeasure_eq : (quarterMeasure c e : ℚ) = c.quarter * commonMeasure c e := by
  have hpow := pow_toNat two_ne_zero (c.exponent - 2)
  rw [Int.neg_sub] at hpow
  rw [quarterMeasure, commonMeasure, Cell.quarter]
  simp only [Nat.pow_eq]
  push_cast
  rw [hpow, mul_assoc]

theorem gridMeasure_eq : (gridMeasure c e : ℚ) = 10 ^ e * commonMeasure c e := by
  have hpow := pow_toNat (by norm_num : (10 : ℚ) ≠ 0) e
  rw [gridMeasure, commonMeasure]
  simp only [Nat.pow_eq]
  push_cast
  rw [hpow]
  ring

theorem quarterMeasure_pos : 0 < quarterMeasure c e := by
  rw [quarterMeasure]
  simp only [Nat.pow_eq]
  positivity

theorem gridMeasure_pos : 0 < gridMeasure c e := by
  rw [gridMeasure]
  simp only [Nat.pow_eq]
  positivity

variable {c e}

theorem le_gridMeasure_iff {a k : Nat} :
    a * quarterMeasure c e ≤ k * gridMeasure c e ↔ (a : ℚ) * c.quarter ≤ k * 10 ^ e := by
  rw [← @Nat.cast_le ℚ, Nat.cast_mul, Nat.cast_mul, quarterMeasure_eq, gridMeasure_eq, ← mul_assoc,
    ← mul_assoc, mul_le_mul_iff_of_pos_right (commonMeasure_pos c e)]

theorem gridMeasure_le_iff {a k : Nat} :
    k * gridMeasure c e ≤ a * quarterMeasure c e ↔ (k : ℚ) * 10 ^ e ≤ a * c.quarter := by
  rw [← @Nat.cast_le ℚ, Nat.cast_mul, Nat.cast_mul, quarterMeasure_eq, gridMeasure_eq, ← mul_assoc,
    ← mul_assoc, mul_le_mul_iff_of_pos_right (commonMeasure_pos c e)]

/-- The test of a point decides whether the point rounds to the float. -/
theorem Cell.holds_iff_covers {k : Nat} :
    c.holds (quarterMeasure c e) (gridMeasure c e) k = true ↔ c.Covers (Decimal.value ⟨k, e⟩) := by
  rw [holds, Covers, Decimal.value]
  split_ifs
  · rw [Bool.and_eq_true, decide_eq_true_eq, decide_eq_true_eq, le_gridMeasure_iff, gridMeasure_le_iff]
  · rw [Bool.and_eq_true, decide_eq_true_eq, decide_eq_true_eq, ← not_le, gridMeasure_le_iff, ← not_le,
      le_gridMeasure_iff, not_le, not_le]

end Measures

/-! ### The points around a float -/

/-- If a point of a grid rounds to a float, then the last point that is not above the float does, or the first
point above it. -/
theorem Cell.holds_below_or_above {c : Cell} {quarter unit k : Nat} (hquarter : 0 < quarter)
    (hunit : 0 < unit) (h : c.holds quarter unit k = true) :
    c.holds quarter unit (c.quarters * quarter / unit) = true ∨
      c.holds quarter unit (c.quarters * quarter / unit + 1) = true := by
  generalize hbelow : c.quarters * quarter / unit = below
  have hlow : c.low * quarter ≤ c.quarters * quarter := Nat.mul_le_mul_right _ c.low_le_quarters
  have hhigh : c.quarters * quarter < c.high * quarter :=
    Nat.mul_lt_mul_of_pos_right c.quarters_lt_high hquarter
  by_cases hk : k ≤ below
  · left
    have hpoint : below * unit ≤ c.quarters * quarter := hbelow ▸ Nat.div_mul_le_self _ _
    have hmul : k * unit ≤ below * unit := Nat.mul_le_mul_right _ hk
    rw [holds] at h ⊢
    split_ifs at h ⊢ <;> simp only [Bool.and_eq_true, decide_eq_true_eq] at h ⊢ <;> omega
  · right
    have hpoint : c.quarters * quarter < (below + 1) * unit := by
      rw [← hbelow, Nat.add_one_mul, Nat.mul_comm _ unit]
      exact Nat.lt_mul_div_succ _ hunit
    have hmul : (below + 1) * unit ≤ k * unit := Nat.mul_le_mul_right _ (by omega)
    rw [holds] at h ⊢
    split_ifs at h ⊢ <;> simp only [Bool.and_eq_true, decide_eq_true_eq] at h ⊢ <;> omega

/-! ### The search -/

section Search

variable {tie : Tie} {c : Cell} {d : Decimal} {e e' : Int} {k count : Nat}

theorem nearer_eq_or_eq (tie : Tie) (unit exact k : Nat) :
    nearer tie unit exact k = k ∨ nearer tie unit exact k = k + 1 := by
  cases tie with
  | up =>
    simp only [nearer]
    split_ifs <;> simp
  | even =>
    simp only [nearer]
    split_ifs <;> simp

/-- A point that is taken on a grid rounds to the float. -/
theorem covers_of_onGrid (h : onGrid tie c e = some k) : c.Covers (value ⟨k, e⟩) := by
  rw [← Cell.holds_iff_covers]
  simp only [onGrid] at h
  split at h
  next hbelow habove =>
    rw [← Option.some.inj h]
    rcases nearer_eq_or_eq tie (gridMeasure c e) (c.quarters * quarterMeasure c e)
      (c.quarters * quarterMeasure c e / gridMeasure c e) with heq | heq
    · rw [heq, hbelow]
    · rw [heq, habove]
  next hbelow _ => rw [← Option.some.inj h, hbelow]
  next _ habove => rw [← Option.some.inj h, habove]
  next => cases h

/-- A point is taken on each grid that has one that rounds to the float. -/
theorem exists_onGrid_of_covers (tie : Tie) (h : c.Covers (value ⟨k, e⟩)) :
    ∃ taken, onGrid tie c e = some taken := by
  have hpoint := Cell.holds_below_or_above (quarterMeasure_pos c e) (gridMeasure_pos c e)
    (Cell.holds_iff_covers.2 h)
  simp only [onGrid]
  split
  next => exact ⟨_, rfl⟩
  next => exact ⟨_, rfl⟩
  next => exact ⟨_, rfl⟩
  next hbelow habove =>
    rw [hbelow, habove] at hpoint
    rcases hpoint with h | h <;> cases h

theorem covers_of_search (h : search tie c e count = some d) : c.Covers d.value := by
  induction count generalizing e with
  | zero => cases h
  | succ count ih =>
    rw [search] at h
    split at h
    next k hk =>
      rw [← Option.some.inj h]
      exact covers_of_onGrid hk
    next => exact ih h

/-- The search ends at the latest on a grid with a point that rounds to the float. -/
theorem exists_search_of_covers (h : c.Covers (value ⟨k, e'⟩)) (hle : e' ≤ e) (hcount : e - e' < count) :
    ∃ found, search tie c e count = some found := by
  induction count generalizing e with
  | zero => omega
  | succ count ih =>
    rw [search]
    split
    next => exact ⟨_, rfl⟩
    next hnone =>
      have hne : e ≠ e' := by
        rintro rfl
        obtain ⟨taken, htaken⟩ := exists_onGrid_of_covers tie h
        cases hnone.symm.trans htaken
      exact ih (by omega) (by omega)

/-! ### The shortest decimal -/

/-- A float is a point of the grid of its own exponent, or of the whole numbers if it is one of them. -/
theorem exists_value_eq (c : Cell) : ∃ k, value ⟨k, min c.exponent 0⟩ = c.value := by
  rcases le_total 0 c.exponent with hexponent | hexponent
  · refine ⟨c.mantissa * 2 ^ c.exponent.toNat, ?_⟩
    have hpow : (2 : ℚ) ^ c.exponent.toNat = 2 ^ c.exponent := by
      rw [← zpow_natCast, Int.toNat_of_nonneg hexponent]
    rw [value, Cell.value, min_eq_right hexponent, zpow_zero, mul_one]
    push_cast
    rw [hpow]
  · refine ⟨c.mantissa * 5 ^ (-c.exponent).toNat, ?_⟩
    have hpow : (5 : ℚ) ^ (-c.exponent).toNat * 10 ^ c.exponent = 2 ^ c.exponent := by
      rw [← zpow_natCast, Int.toNat_of_nonneg (by omega), zpow_neg,
        show (10 : ℚ) = 5 * 2 by norm_num, mul_zpow, ← mul_assoc,
        inv_mul_cancel₀ (zpow_ne_zero _ (by norm_num)), one_mul]
    rw [value, Cell.value, min_eq_left hexponent]
    push_cast
    rw [mul_assoc, hpow]

theorem min_exponent_le_gridAbove (c : Cell) : min c.exponent 0 ≤ gridAbove c := by
  simp only [gridAbove]
  split_ifs <;> omega

/-- The shortest decimal of a float rounds to it. -/
theorem shortest_covered (tie : Tie) (hc : 0 < c.mantissa) : c.Covers (shortest tie c).value := by
  obtain ⟨k, hk⟩ := exists_value_eq c
  have hpoint : c.Covers (value ⟨k, min c.exponent 0⟩) := hk ▸ Cell.covers_value hc
  have hle := min_exponent_le_gridAbove c
  obtain ⟨found, hfound⟩ : ∃ found,
      search tie c (gridAbove c) (gridAbove c - min c.exponent 0 + 1).toNat = some found :=
    exists_search_of_covers hpoint hle (by omega)
  simp only [shortest, hfound, Option.getD_some]
  exact covers_of_search hfound

end Search

/-! ### The cells of floats -/

namespace Cell

/-- The cells of floats. The first bit of a mantissa is not zero, unless the exponent is the lowest one. -/
structure IsFloat (c : Cell) : Prop where
  lt : c.mantissa < 2 * mantissas
  lowest_le : lowestExponent ≤ c.exponent
  exponent_of_lt : c.mantissa < mantissas → c.exponent = lowestExponent

variable {c d : Cell} {q : ℚ}

/-- A number that rounds to a float is between the ends of its cell. -/
theorem Covers.bounds (h : c.Covers q) : c.low * c.quarter ≤ q ∧ q ≤ c.high * c.quarter := by
  rw [Covers] at h
  split_ifs at h
  · exact h
  · exact ⟨h.1.le, h.2.le⟩

/-- The ends of a cell with an odd mantissa do not belong to it. -/
theorem Covers.bounds_of_odd (h : c.Covers q) (hodd : c.mantissa % 2 = 1) :
    c.low * c.quarter < q ∧ q < c.high * c.quarter := by
  have hends : c.endsIncluded = false := by
    rw [endsIncluded, hodd]
    rfl
  rw [Covers, hends] at h
  exact h

theorem Covers.pos (h : c.Covers q) (hc : 0 < c.mantissa) : 0 < q := by
  have hlow : 0 < c.low := by
    rw [low, quarters]
    split_ifs <;> omega
  exact lt_of_lt_of_le (mul_pos (Nat.cast_pos.2 hlow) c.quarter_pos) h.bounds.1

/-- If the cell of one float ends before that of another begins, or where it begins while one of them does not
contain its end, then no number is in both. -/
theorem not_covers_of_ends (hle : c.high * c.quarter ≤ d.low * d.quarter)
    (hends : c.high * c.quarter < d.low * d.quarter ∨ c.mantissa % 2 = 1 ∨ d.mantissa % 2 = 1)
    (hc : c.Covers q) : ¬ d.Covers q := by
  intro hd
  rcases hends with hlt | hodd | hodd
  · linarith [hc.bounds.2, hd.bounds.1]
  · linarith [(hc.bounds_of_odd hodd).2, hd.bounds.1]
  · linarith [hc.bounds.2, (hd.bounds_of_odd hodd).1]

/-- Floats with the same exponent: the mantissas are different, so they are not both even if they are next to each
other. -/
theorem not_covers_of_mantissa_lt (hexponent : c.exponent = d.exponent) (hlt : c.mantissa < d.mantissa)
    (hc : c.Covers q) : ¬ d.Covers q := by
  have hquarter : c.quarter = d.quarter := by
    rw [quarter, quarter, hexponent]
  have hle : c.high ≤ d.low := by
    rw [high, low, quarters, quarters]
    split_ifs <;> omega
  have hends : c.high < d.low ∨ c.mantissa % 2 = 1 ∨ d.mantissa % 2 = 1 := by
    rw [high, low, quarters, quarters]
    split_ifs <;> omega
  refine not_covers_of_ends ?_ (hends.imp_left fun hlt => ?_) hc
  · rw [hquarter]
    exact mul_le_mul_of_nonneg_right (Nat.cast_le.2 hle) d.quarter_pos.le
  · rw [hquarter]
    exact mul_lt_mul_of_pos_right (Nat.cast_lt.2 hlt) d.quarter_pos

/-- Floats with different exponents: at the second one the places are at least twice as large, and its mantissa
has its first bit. -/
theorem not_covers_of_exponent_lt (hcfloat : c.IsFloat) (hdfloat : d.IsFloat)
    (hlt : c.exponent < d.exponent) (hc : c.Covers q) : ¬ d.Covers q := by
  have hmantissas := mantissas_eq
  have hquarter : 2 * c.quarter ≤ d.quarter := by
    rw [quarter, quarter, ← zpow_one_add₀ two_ne_zero]
    exact zpow_le_zpow_right₀ one_le_two (by omega)
  have hleast := hcfloat.lowest_le
  have hfirst : mantissas ≤ d.mantissa := by
    by_contra hless
    have hlowest := hdfloat.exponent_of_lt (Nat.lt_of_not_le hless)
    omega
  have hcmantissa := hcfloat.lt
  have hle : c.high ≤ d.low * 2 := by
    rw [high, low, quarters, quarters]
    split_ifs <;> omega
  have hends : c.high < d.low * 2 ∨ c.mantissa % 2 = 1 := by
    rw [high, low, quarters, quarters]
    split_ifs <;> omega
  have hbound : ((d.low * 2 : Nat) : ℚ) * c.quarter ≤ d.low * d.quarter := by
    rw [Nat.cast_mul, mul_assoc]
    exact mul_le_mul_of_nonneg_left hquarter (Nat.cast_nonneg _)
  refine not_covers_of_ends (le_trans ?_ hbound) ?_ hc
  · exact mul_le_mul_of_nonneg_right (Nat.cast_le.2 hle) c.quarter_pos.le
  · rcases hends with hless | hodd
    · exact Or.inl (lt_of_lt_of_le (mul_lt_mul_of_pos_right (Nat.cast_lt.2 hless) c.quarter_pos) hbound)
    · exact Or.inr (Or.inl hodd)

/-- A number rounds to one float at most. -/
theorem eq_of_covers (hcfloat : c.IsFloat) (hdfloat : d.IsFloat) (hc : c.Covers q) (hd : d.Covers q) :
    c = d := by
  rcases lt_trichotomy c.exponent d.exponent with hlt | hexponent | hlt
  · exact absurd hd (not_covers_of_exponent_lt hcfloat hdfloat hlt hc)
  · rcases lt_trichotomy c.mantissa d.mantissa with hlt | hmantissa | hlt
    · exact absurd hd (not_covers_of_mantissa_lt hexponent hlt hc)
    · cases c
      cases d
      exact congrArg₂ mk hmantissa hexponent
    · exact absurd hc (not_covers_of_mantissa_lt hexponent.symm hlt hd)
  · exact absurd hc (not_covers_of_exponent_lt hdfloat hcfloat hlt hd)

end Cell

/-- A float is known from the number that its shortest decimal stands for. -/
theorem eq_of_shortest_value_eq {tie : Tie} {c d : Cell} (hc : c.IsFloat) (hd : d.IsFloat)
    (hcpos : 0 < c.mantissa) (hdpos : 0 < d.mantissa)
    (h : (shortest tie c).value = (shortest tie d).value) : c = d :=
  Cell.eq_of_covers hc hd (shortest_covered tie hcpos) (h ▸ shortest_covered tie hdpos)

end ConfigLang.Decimal
