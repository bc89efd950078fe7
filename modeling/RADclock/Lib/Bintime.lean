import Mathlib.Data.BitVec
import Mathlib.Tactic.Linarith
import Mathlib.Tactic.Ring

/-!
# Binary time: 64 bits of seconds, 64 bits of a second

`struct bintime` with the helpers of `sys/time.h`, word by word as they are written. What they
compute is arithmetic on one number of 128 bits, the seconds above the fraction: everything is
exact modulo `2 ^ 64` seconds, and the comparison is the signed one.

- `Bintime`, `add`, `sub`, `addx`, `mul`, `gt`: the type and the helpers.
- `Timeval`: the coarser type it is truncated to.
- `val`: the number of 128 bits, in units of `2 ^ -64` seconds.
- `val_add`, `val_sub`, `val_addx`, `val_mul`: the helpers are ring operations.
- `gt_iff`: the comparison is that of signed numbers.
-/

namespace Lib

/-- `struct bintime`. -/
@[ext]
structure Bintime where
  sec : BitVec 64
  frac : BitVec 64
deriving DecidableEq, Repr

/-- `struct timeval`, with its signed fields as integers. -/
structure Timeval where
  tvSec : Int
  tvUsec : Int
deriving DecidableEq, Repr

namespace Bintime

/-! ## The helpers -/

/-- `bintime_clear`. -/
def clear : Bintime := ⟨0, 0⟩

/-- `bintime_isset`. -/
def isset (a : Bintime) : Bool := a.sec ≠ 0 ∨ a.frac ≠ 0

/-- `bintime_add`. -/
def add (a b : Bintime) : Bintime :=
  let frac := a.frac + b.frac
  ⟨(if frac < a.frac then a.sec + 1 else a.sec) + b.sec, frac⟩

/-- `bintime_addx`. -/
def addx (a : Bintime) (x : BitVec 64) : Bintime :=
  let frac := a.frac + x
  ⟨if frac < a.frac then a.sec + 1 else a.sec, frac⟩

/-- `bintime_sub`. -/
def sub (a b : Bintime) : Bintime :=
  let frac := a.frac - b.frac
  ⟨(if a.frac < frac then a.sec - 1 else a.sec) - b.sec, frac⟩

/-- `bintime_mul`. The factor is an `unsigned int`. -/
def mul (a : Bintime) (x : BitVec 32) : Bintime :=
  let x := x.setWidth 64
  let p1 := (a.frac &&& 0xffffffff#64) * x
  let p2 := (a.frac >>> 32) * x + (p1 >>> 32)
  ⟨a.sec * x + (p2 >>> 32), (p2 <<< 32) ||| (p1 &&& 0xffffffff#64)⟩

/-- `bintime_cmp(a, b, >)`; the seconds are signed. -/
def gt (a b : Bintime) : Bool := if a.sec = b.sec then b.frac.ult a.frac else b.sec.slt a.sec

/-! ## As one number -/

/-- In units of `2 ^ -64` seconds. -/
def val (a : Bintime) : BitVec 128 := a.sec ++ a.frac

/-- Seconds and fraction as one number, without a sign. -/
theorem toNat_val (a : Bintime) : a.val.toNat = a.sec.toNat * 2 ^ 64 + a.frac.toNat := by
  rw [val, BitVec.toNat_append, ← Nat.shiftLeft_add_eq_or_of_lt a.frac.isLt, Nat.shiftLeft_eq]

/-- A time is known by its one number. -/
theorem val_inj {a b : Bintime} (h : a.val = b.val) : a = b := by
  have hnat := congrArg BitVec.toNat h
  rw [toNat_val, toNat_val] at hnat
  have ha := a.frac.isLt
  have hb := b.frac.isLt
  have hfrac : a.frac.toNat = b.frac.toNat := by omega
  have hsec : a.sec.toNat = b.sec.toNat := by omega
  exact Bintime.ext (BitVec.eq_of_toNat_eq hsec) (BitVec.eq_of_toNat_eq hfrac)

/-- So equal numbers are equal times. -/
theorem val_inj_iff {a b : Bintime} : a.val = b.val ↔ a = b :=
  ⟨val_inj, congrArg val⟩

/-- The cleared time is zero. -/
theorem val_clear : clear.val = 0 := rfl

/-- A time is set if it is not zero. -/
theorem isset_iff (a : Bintime) : a.isset = true ↔ a.val ≠ 0 := by
  have hzero : a.val = 0 ↔ a.sec = 0 ∧ a.frac = 0 := by
    constructor
    · intro h
      have := val_inj (h.trans val_clear.symm)
      rw [this]
      exact ⟨rfl, rfl⟩
    · rintro ⟨hs, hf⟩
      rw [val, hs, hf]
      rfl
  -- the test of the source takes the two members one by one
  rw [isset, decide_eq_true_iff, ne_eq, ne_eq, ne_eq, hzero]
  tauto

/-- Sums carry from the fraction into the seconds. -/
theorem val_add (a b : Bintime) : (a.add b).val = a.val + b.val := by
  apply BitVec.eq_of_toNat_eq
  have ha := a.frac.isLt
  have hb := b.frac.isLt
  rw [BitVec.toNat_add, toNat_val, toNat_val, toNat_val]
  simp only [add, BitVec.lt_def, BitVec.toNat_add]
  -- the fraction overflows exactly when the sum is below the first summand
  split
  · have hone : (1 : BitVec 64).toNat = 1 := rfl
    rw [BitVec.toNat_add, hone]
    omega
  · omega

/-- An addition to the fraction carries as well. -/
theorem val_addx (a : Bintime) (x : BitVec 64) : (a.addx x).val = a.val + x.setWidth 128 := by
  apply BitVec.eq_of_toNat_eq
  have ha := a.frac.isLt
  have hx := x.isLt
  rw [BitVec.toNat_add, toNat_val, toNat_val, BitVec.toNat_setWidth]
  simp only [addx, BitVec.lt_def, BitVec.toNat_add]
  -- as for a sum, with seconds that are zero
  split
  · have hone : (1 : BitVec 64).toNat = 1 := rfl
    rw [BitVec.toNat_add, hone]
    omega
  · omega

/-- Differences borrow from the seconds. -/
theorem val_sub (a b : Bintime) : (a.sub b).val = a.val - b.val := by
  have h := val_add (a.sub b) b
  -- adding back what was taken gives the time again, so the sum decides
  have hself : (a.sub b).add b = a := by
    have ha := a.frac.isLt
    have hb := b.frac.isLt
    have hfrac : a.frac - b.frac + b.frac = a.frac := BitVec.sub_add_cancel _ _
    ext1
    · simp only [sub, add, hfrac]
      have hiff : a.frac < a.frac - b.frac ↔ a.frac < b.frac := by
        simp only [BitVec.lt_def, BitVec.toNat_sub]
        omega
      simp only [hiff]
      split <;> ring
    · exact hfrac
  rw [hself] at h
  rw [h]
  ring

/-- The low 32 bits of a word. -/
theorem toNat_low (x : BitVec 64) : (x &&& 0xffffffff#64).toNat = x.toNat % 2 ^ 32 := by
  rw [BitVec.toNat_and]
  exact Nat.and_two_pow_sub_one_eq_mod x.toNat 32

/-- The product is made in two halves of the fraction; the upper one carries into the seconds. -/
theorem val_mul (a : Bintime) (x : BitVec 32) : (a.mul x).val = a.val * x.setWidth 128 := by
  have hf := a.frac.isLt
  have hx := x.isLt
  -- The two halves of the fraction, and the products of the source, none of which overflows.
  obtain ⟨lo, hlo⟩ : ∃ n, n = a.frac.toNat % 2 ^ 32 * x.toNat := ⟨_, rfl⟩
  obtain ⟨hi, hhi⟩ : ∃ n, n = a.frac.toNat / 2 ^ 32 * x.toNat := ⟨_, rfl⟩
  have hlo_le : lo ≤ (2 ^ 32 - 1) * (2 ^ 32 - 1) :=
    hlo ▸ Nat.mul_le_mul (by omega) (by omega)
  have hhi_le : hi ≤ (2 ^ 32 - 1) * (2 ^ 32 - 1) :=
    hhi ▸ Nat.mul_le_mul (by omega) (by omega)
  have hprod : a.frac.toNat * x.toNat = hi * 2 ^ 32 + lo := by
    rw [hlo, hhi]
    conv_lhs => rw [← Nat.div_add_mod a.frac.toNat (2 ^ 32)]
    ring
  have hp1 : ((a.frac &&& 0xffffffff#64) * x.setWidth 64).toNat = lo := by
    rw [BitVec.toNat_mul, toNat_low, BitVec.toNat_setWidth_of_le (by decide), ← hlo,
      Nat.mod_eq_of_lt (by omega)]
  have hp2 : ((a.frac >>> 32) * x.setWidth 64 +
      ((a.frac &&& 0xffffffff#64) * x.setWidth 64) >>> 32).toNat = hi + lo / 2 ^ 32 := by
    rw [BitVec.toNat_add, BitVec.toNat_ushiftRight, hp1, BitVec.toNat_mul,
      BitVec.toNat_ushiftRight, BitVec.toNat_setWidth_of_le (by decide), Nat.shiftRight_eq_div_pow,
      Nat.shiftRight_eq_div_pow, ← hhi, Nat.mod_eq_of_lt (a := hi) (by omega),
      Nat.mod_eq_of_lt (by omega)]
  have hfrac : (a.mul x).frac.toNat = (hi + lo / 2 ^ 32) % 2 ^ 32 * 2 ^ 32 + lo % 2 ^ 32 := by
    simp only [mul]
    rw [BitVec.toNat_or, BitVec.toNat_shiftLeft, hp2, toNat_low, hp1, Nat.shiftLeft_eq,
      show 2 ^ 64 = 2 ^ 32 * 2 ^ 32 from rfl, Nat.mul_mod_mul_right, ← Nat.shiftLeft_eq,
      ← Nat.shiftLeft_add_eq_or_of_lt (Nat.mod_lt lo (by decide))]
  have hsec : (a.mul x).sec.toNat =
      (a.sec.toNat * x.toNat + (hi + lo / 2 ^ 32) / 2 ^ 32) % 2 ^ 64 := by
    simp only [mul]
    rw [BitVec.toNat_add, BitVec.toNat_mul, BitVec.toNat_setWidth_of_le (by decide),
      BitVec.toNat_ushiftRight, hp2, Nat.shiftRight_eq_div_pow, Nat.mod_add_mod]
  apply BitVec.eq_of_toNat_eq
  rw [BitVec.toNat_mul, toNat_val, toNat_val, hsec, hfrac, BitVec.toNat_setWidth_of_le (by decide),
    Nat.add_mul, hprod, Nat.mul_right_comm]
  generalize a.sec.toNat * x.toNat = s
  omega

/-! ## As a signed number -/

/-- Seconds with their sign, and a fraction that is never negative. -/
theorem toInt_val (a : Bintime) : a.val.toInt = a.sec.toInt * 2 ^ 64 + a.frac.toNat := by
  have hs := a.sec.isLt
  have hf := a.frac.isLt
  rw [BitVec.toInt_eq_toNat_cond, BitVec.toInt_eq_toNat_cond, toNat_val]
  split <;> split <;> omega

/-- Comparing the seconds first compares the signed numbers. -/
theorem gt_iff (a b : Bintime) : a.gt b = true ↔ b.val.toInt < a.val.toInt := by
  have ha := a.frac.isLt
  have hb := b.frac.isLt
  rw [toInt_val, toInt_val, gt]
  by_cases h : a.sec = b.sec
  · rw [if_pos h, h, BitVec.ult_iff_lt, BitVec.lt_def]
    omega
  · have hne : a.sec.toInt ≠ b.sec.toInt := fun heq => h (BitVec.eq_of_toInt_eq heq)
    rw [if_neg h, BitVec.slt_iff_toInt_lt]
    omega

end Bintime

end Lib
