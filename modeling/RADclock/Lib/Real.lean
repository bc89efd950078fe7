import Mathlib.Analysis.SpecialFunctions.Pow.Real
import RADclock.Lib.Arith

/-!
# Exact arithmetic

`Arith ℝ`: the operations of a numeric program on the real numbers, without rounding. The
operations are Mathlib's own, so its lemmas apply to what a program computes.
-/

namespace Lib

/-- Half-way cases go away from zero, as in C. -/
noncomputable def realRound (x : ℝ) : ℝ := if 0 ≤ x then ⌊x + 1 / 2⌋ else ⌈x - 1 / 2⌉

noncomputable instance : Arith ℝ where
  beq x y := decide (x = y)
  decLt := inferInstance
  decLe := inferInstance
  ofNat n := n
  ofInt n := n
  toNat x := ⌊x⌋₊
  bitEq x y := decide (x = y)
  fabs x := |x|
  ceil x := ⌈x⌉
  round := realRound
  exp := Real.exp
  pow x y := x ^ y

end Lib
