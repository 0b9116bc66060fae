import Mathlib.Algebra.Order.Floor.Ring
import Mathlib.Data.Int.Log
import Mathlib.Data.Rat.Floor

/-!
# Doubles

What a rational number becomes as an IEEE double: the nearest one, the even one of
two that are equally near, and none where it would be infinite.
-/

namespace Doubles

/-- The nearest integer, the even one of two. -/
def roundHalfEven (q : ℚ) : ℤ :=
  let below := ⌊q⌋
  if q - below < 1 / 2 then below
  else if 1 / 2 < q - below then below + 1
  else if below % 2 = 0 then below
  else below + 1

/-- The distance of two doubles of the size of `q`, as a power of two. -/
def exponent (q : ℚ) : ℤ := max (Int.log 2 |q| - 52) (-1074)

/-- The nearest double, were there no largest. -/
def round (q : ℚ) : ℚ := roundHalfEven (q / 2 ^ exponent q) * 2 ^ exponent q

/-- `float(q)`, less what is infinite. -/
def ofRat (q : ℚ) : Option ℚ := if |round q| < 2 ^ 1024 then some (round q) else none

theorem roundHalfEven_nonneg {q : ℚ} (h : 0 ≤ q) : 0 ≤ roundHalfEven q := by
  have hbelow : 0 ≤ ⌊q⌋ := Int.floor_nonneg.mpr h
  unfold roundHalfEven
  dsimp only
  split_ifs <;> omega

theorem round_nonneg {q : ℚ} (h : 0 ≤ q) : 0 ≤ round q := by
  have hpower : (0 : ℚ) < 2 ^ exponent q := zpow_pos two_pos _
  have hdigits : 0 ≤ roundHalfEven (q / 2 ^ exponent q) :=
    roundHalfEven_nonneg (div_nonneg h hpower.le)
  exact mul_nonneg (Int.cast_nonneg hdigits) hpower.le

theorem ofRat_nonneg {q v : ℚ} (h : 0 ≤ q) (hv : ofRat q = some v) : 0 ≤ v := by
  unfold ofRat at hv
  split_ifs at hv
  exact Option.some.inj hv ▸ round_nonneg h

attribute [irreducible] ofRat

example : ofRat (2 ^ 53 + 1) = some (2 ^ 53) := by decide +kernel

example : ofRat (2 ^ 1023 + 2 ^ 1023) = none := by decide +kernel

end Doubles
