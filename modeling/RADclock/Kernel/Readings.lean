import Mathlib.Tactic.Linarith
import RADclock.Kernel.Ffclock

/-!
# Readings of the FFclock

Within a tick each FFclock is a line through the start of the tick: `ffclock_convert_abs` returns
the start plus the distance of the counter value times the period, whichever side of the start
the value is on. Everything is exact modulo `2 ^ 64` seconds, so a reading that is ahead of another
by a duration is not before it unless the clock wraps in between.

- `convertDelta_exact`: a number of counter units in seconds, without loss.
- `val_convertAbs`: the reading as a point of the line.
- `not_gt_of_ahead`: what is ahead does not compare as before.
- `tickFfcount_windup`: a windup moves the counter to the start of the tick.
-/

namespace RADclock.Kernel

open Lib

/-- The duration, in units of `2 ^ -64` seconds, as a difference of clock values. -/
def units (n : Int) : BitVec 128 := BitVec.ofInt 128 n

theorem units_add (m n : Int) : units (m + n) = units m + units n := BitVec.ofInt_add m n

theorem units_neg (n : Int) : units (-n) = -units n := BitVec.ofInt_neg

theorem toNat_product (ffdelta period : BitVec 64) :
    (product ffdelta period).toNat = ffdelta.toNat * period.toNat := by
  rw [product, BitVec.toNat_mul, BitVec.toNat_setWidth_of_le (by decide),
    BitVec.toNat_setWidth_of_le (by decide)]
  apply Nat.mod_eq_of_lt
  calc ffdelta.toNat * period.toNat ≤ ffdelta.toNat * 2 ^ 64 :=
        Nat.mul_le_mul_left _ period.isLt.le
    _ < 2 ^ 64 * 2 ^ 64 := Nat.mul_lt_mul_of_pos_right ffdelta.isLt (by decide)
    _ = 2 ^ 128 := by decide

theorem product_eq_units (ffdelta period : BitVec 64) :
    product ffdelta period = units (ffdelta.toNat * period.toNat) := by
  rw [units, ← Int.natCast_mul, BitVec.ofInt_natCast, ← toNat_product, BitVec.ofNat_toNat,
    BitVec.setWidth_eq]

/-- A product that fits into a `bintime` is converted exactly. -/
theorem convertDelta_exact (ffdelta period : BitVec 64)
    (h : ffdelta.toNat * period.toNat < 2 ^ 127) :
    (ffclockConvertDelta ffdelta period).sec.toInt * 2 ^ 64 +
      (ffclockConvertDelta ffdelta period).frac.toNat = ffdelta.toNat * period.toNat := by
  have hval : (ffclockConvertDelta ffdelta period).val.toNat = ffdelta.toNat * period.toNat := by
    rw [val_convertDelta, toNat_product]
  rw [← Bintime.toInt_val, BitVec.toInt_eq_toNat_of_lt (by omega), hval, Int.natCast_mul]

/-- Two chunks of an interval of eight seconds and a half. -/
theorem convertDelta_exact_twoChunks :
    (ffclockConvertDelta 8500000000 18446744073).sec.toInt * 2 ^ 64 +
      (ffclockConvertDelta 8500000000 18446744073).frac.toNat = 8500000000 * 18446744073 :=
  convertDelta_exact 8500000000 18446744073 (by decide)

/-- What is ahead by a duration is not before, unless the clock wraps on the way. -/
theorem not_gt_of_ahead {a b : Bintime} {n : Int} (h : b.val = a.val + units n) (hn : 0 ≤ n)
    (hwrap : a.val.toInt + n < 2 ^ 127) : a.gt b = false := by
  have hlow : -2 ^ 127 ≤ a.val.toInt := BitVec.le_toInt _
  have hb : b.val.toInt = a.val.toInt + n := by
    rw [h, units, BitVec.toInt_add, BitVec.toInt_ofInt, Int.add_bmod_bmod]
    apply Int.bmod_eq_of_le <;> omega
  rw [← Bool.not_eq_true, Bintime.gt_iff, hb]
  omega

/-- The period of the clock selected. -/
def Fftimehands.periodOf (ffth : Fftimehands) (flags : BitVec 32) : BitVec 64 :=
  if has flags FFCLOCK_MONO then ffth.periodMono else ffth.cdat.period

/-- A reading is a point of the line through the start of the tick. -/
theorem val_convertAbs (ffcount : BitVec 64) {flags : BitVec 32}
    (hutc : has flags FFCLOCK_UPTIME = false) (s : FfState) :
    (ffclockConvertAbs ffcount flags s).val = (s.tick.start flags).val +
      units ((ffcount.toNat - s.tick.tickFfcount.toNat) * (s.tick.periodOf flags).toNat) := by
  unfold ffclockConvertAbs Fftimehands.sinceBoot
  simp only [hutc, Bool.false_eq_true, if_false]
  by_cases hlt : s.tick.tickFfcount < ffcount
  · have hnat : s.tick.tickFfcount.toNat ≤ ffcount.toNat := Nat.le_of_lt hlt
    have hle : s.tick.tickFfcount ≤ ffcount := hnat
    rw [if_pos hlt, if_pos hlt, Bintime.val_add, val_convertDelta, product_eq_units,
      BitVec.toNat_sub_of_le hle, Int.ofNat_sub hnat]
    rfl
  · have hnat : ffcount.toNat ≤ s.tick.tickFfcount.toNat := Nat.not_lt.mp hlt
    have hle : ffcount ≤ s.tick.tickFfcount := hnat
    rw [if_neg hlt, if_neg hlt, Bintime.val_sub, val_convertDelta, product_eq_units,
      BitVec.toNat_sub_of_le hle, Int.ofNat_sub hnat, sub_eq_add_neg, ← units_neg, ← neg_mul,
      neg_sub]
    rfl

theorem tickFfcount_windup {tcFrequency : BitVec 64} {delta : BitVec 32}
    {reset : Option (Bintime × Bintime)} {s s' : FfState}
    (h : ffclockWindup tcFrequency delta reset s = some s') :
    s'.tick.tickFfcount = s.tick.tickFfcount + delta.setWidth 64 := by
  rcases windup_cases h with ⟨fb, utc, p, -, hp, rfl⟩ | ⟨-, -, rfl⟩ | ⟨p, -, -, hp, rfl⟩
  · obtain ⟨period, -, rfl⟩ := Option.map_eq_some_iff.mp hp
    rw [tick_publish]
    rfl
  · rw [tick_publish]
    rfl
  · obtain ⟨period, -, rfl⟩ := Option.map_eq_some_iff.mp hp
    rw [tick_publish]
    rfl

end RADclock.Kernel
