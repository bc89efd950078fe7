import Mathlib.Data.UInt
import Mathlib.Tactic.Common

/-!
# The arithmetic a numeric program runs on

A C program computes with `double`; its author reasons with real numbers.
`Arith D` is the list of operations such a program uses and nothing else: **no
law is assumed**, so a theorem over an arbitrary `[Arith D]` holds for IEEE
binary64, for exact arithmetic, and in the presence of NaN and infinities.
Properties that do depend on the numbers are stated at an instance.

The instance `Arith Float` is binary64 as Lean's kernel evaluates it (the
transcendental functions stay opaque). `ceil` is written out from the truncating
conversion, since the kernel can run that.

Counters and indices are not `D`: a 64-bit counter is a `UInt64`, and an index is
a `Nat` whose subtraction wraps (`wsub`).
-/

namespace Lib

/-- The operations of a machine arithmetic, comparisons being decidable. -/
class Arith (D : Type) extends Zero D, Add D, Sub D, Mul D, Div D, Neg D, LT D, LE D,
    BEq D, OfScientific D where
  decLt : DecidableLT D
  decLe : DecidableLE D
  /-- Conversion of an unsigned integer. -/
  ofNat : Nat → D
  /-- Conversion of a signed integer. -/
  ofInt : Int → D
  /-- Conversion to an unsigned integer, truncating. -/
  toNat : D → Nat
  /-- Equality of representations, as `memcmp` sees it. -/
  bitEq : D → D → Bool
  fabs : D → D
  ceil : D → D
  round : D → D
  exp : D → D
  pow : D → D → D

namespace Arith

variable {D : Type} [Arith D]

instance : DecidableLT D := Arith.decLt

instance : DecidableLE D := Arith.decLe

/-- The macro `MAX(a,b)` of a C program: `((a)>(b))?(a):(b)`. -/
def cmax (a b : D) : D := if b < a then a else b

/-- The macro `MIN(a,b)`: `((a)<(b))?(a):(b)`. -/
def cmin (a b : D) : D := if a < b then a else b

end Arith

/-! ## Binary64 -/

/-- `ceil` on binary64. From `2 ^ 52` on every value is an integer already, and an
infinity or a NaN is returned as it is. -/
def floatCeil (x : Float) : Float :=
  if ¬ x.abs < 4503599627370496.0 then x
  else if x < 0.0 then -((-x).toUInt64.toFloat)
  else if x.toUInt64.toFloat < x then x.toUInt64.toFloat + 1.0
  else x.toUInt64.toFloat

instance : Arith Float where
  zero := 0.0
  decLt := inferInstance
  decLe := inferInstance
  ofNat := Float.ofNat
  ofInt := Float.ofInt
  toNat x := x.toUInt64.toNat
  bitEq x y := x.toBits == y.toBits
  fabs := Float.abs
  ceil := floatCeil
  round := Float.round
  exp := Float.exp
  pow := Float.pow

/-! ## Indices -/

/-- `unsigned long` subtraction: below zero it wraps around at `2 ^ 64`. -/
def wsub (a b : Nat) : Nat := if b ≤ a then a - b else 2 ^ 64 + a - b

theorem wsub_of_le {a b : Nat} (h : b ≤ a) : wsub a b = a - b := if_pos h

@[simp] theorem wsub_zero (a : Nat) : wsub a 0 = a := by
  rw [wsub_of_le (Nat.zero_le a), Nat.sub_zero]

end Lib
