import Mathlib.Data.Int.Log
import Mathlib.Data.Rat.Floor
import Mathlib.Tactic.Linarith
import Mathlib.Tactic.Positivity

/-!
# Rounding to a double

A result of IEEE 754 double precision is the exact result rounded to the nearest number with 53
binary digits, the even one of two that are equally near. Numbers too large for the format are
rounded as if its exponents were not bounded from above.
-/

namespace Binary64

/-- To the nearest integer, the even one of two. -/
def nearestEven (x : ℚ) : ℤ :=
  if x - ⌊x⌋ < 1 / 2 then ⌊x⌋
  else if 1 / 2 < x - ⌊x⌋ then ⌊x⌋ + 1
  else if ⌊x⌋ % 2 = 0 then ⌊x⌋ else ⌊x⌋ + 1

/-- The exponent of the last binary digit. -/
def exponent (x : ℚ) : ℤ := max (Int.log 2 x - 52) (-1074)

def roundNonneg (x : ℚ) : ℚ := nearestEven (x / 2 ^ exponent x) * 2 ^ exponent x

def round (x : ℚ) : ℚ := if x < 0 then -roundNonneg (-x) else roundNonneg x

/-- To an integer, as a conversion does. -/
def trunc (x : ℚ) : ℤ := if x < 0 then ⌈x⌉ else ⌊x⌋

end Binary64
