import Mathlib.Algebra.Order.Field.Power
import Mathlib.Algebra.Order.Field.Rat
import Mathlib.Algebra.Order.Floor.Semifield
import Mathlib.Algebra.Order.Ring.Abs
import Mathlib.Data.Rat.Floor
import Mathlib.Tactic.Linarith
import Mathlib.Tactic.Positivity
import Mathlib.Tactic.Ring
import RADclock.Lib.Arith
import RADclock.Lib.Double

/-!
# What binary64 computes

A finite `Float` stands for a rational number, and an operation on two of them gives a number of
the binary64 grid that is nearest to the exact result. That is all that a bound on a
floating-point computation needs: a number of the grid on one side of the exact result is on that
side of the rounded one.

- `OnGrid`: the numbers of binary64, without the upper end of its range.
- `Nearest`: a number of the grid that no other is closer to.
- `Rep`: a `Float` stands for a rational number.
- `Rep.mul`, `Rep.div`, `Rep.add`, `Rep.sub`: the operations, within the range;
  `RoundsTo.not_lt_of_le`: any result compared with a number.
- `Rep.ofNat`, `Rep.toUInt64`, `Rep.ceil`: conversions, which are exact.
-/

namespace Lib

open Float.Model Float.Model.UnpackedFloat

/-! ## The grid -/

/-- A multiple of a power of two with at most 53 bits. -/
def OnGrid (q : ℚ) : Prop := ∃ m e : ℤ, |m| ≤ 2 ^ 53 ∧ -1074 ≤ e ∧ q = m * 2 ^ e

/-- `c` is a number of the grid, and no number of the grid is closer to `a`. -/
structure Nearest (a c : ℚ) : Prop where
  grid : OnGrid c
  le : ∀ f, OnGrid f → |a - c| ≤ |a - f|

/-- The grid is symmetric. -/
theorem OnGrid.neg {q : ℚ} (h : OnGrid q) : OnGrid (-q) := by
  obtain ⟨m, e, hm, he, rfl⟩ := h
  exact ⟨-m, e, by rwa [abs_neg], he, by push_cast; ring⟩

/-- Integers up to 2 ^ 53 are on the grid. -/
theorem onGrid_intCast {n : ℤ} (h : |n| ≤ 2 ^ 53) : OnGrid n :=
  ⟨n, 0, h, by decide, by simp⟩

/-- So are natural numbers up to 2 ^ 53. -/
theorem onGrid_natCast {n : ℕ} (h : n ≤ 2 ^ 53) : OnGrid n := by
  have hgrid := onGrid_intCast (n := (n : ℤ)) (by rw [Nat.abs_cast]; exact_mod_cast h)
  exact_mod_cast hgrid

/-- So are the powers of two from the smallest subnormal on. -/
theorem onGrid_zpow {e : ℤ} (h : -1074 ≤ e) : OnGrid (2 ^ e) :=
  ⟨1, e, by norm_num, h, by simp⟩

/-- Rounding is symmetric. -/
theorem Nearest.neg {a c : ℚ} (h : Nearest a c) : Nearest (-a) (-c) where
  grid := h.grid.neg
  le f hf := by
    have hle := h.le (-f) hf.neg
    rwa [← abs_neg (-a - -c), ← abs_neg (-a - f), show -(-a - -c) = a - c by ring,
      show -(-a - f) = a - -f by ring]

/-- A number of the grid is rounded to itself. -/
theorem Nearest.eq_of_onGrid {a c : ℚ} (h : Nearest a c) (ha : OnGrid a) : c = a := by
  have hle := h.le a ha
  rw [sub_self, abs_zero] at hle
  exact (sub_eq_zero.mp (abs_eq_zero.mp (le_antisymm hle (abs_nonneg _)))).symm

/-- Rounding does not go past a number of the grid. -/
theorem Nearest.le_of_le {a c d : ℚ} (h : Nearest a c) (hd : OnGrid d) (had : a ≤ d) :
    c ≤ d := by
  by_contra hlt
  rw [not_le] at hlt
  have hle := h.le d hd
  rw [abs_of_nonpos (by linarith), abs_of_nonpos (by linarith)] at hle
  linarith

/-- A number of the grid below the exact result is below the rounded one. -/
theorem Nearest.ge_of_ge {a c d : ℚ} (h : Nearest a c) (hd : OnGrid d) (hda : d ≤ a) :
    d ≤ c := by
  have hle := h.neg.le_of_le hd.neg (neg_le_neg hda)
  linarith

/-- One less is on the grid again, from one to 2 ^ 53. -/
theorem OnGrid.sub_one {q : ℚ} (h : OnGrid q) (h1 : 1 < q) (hq : q ≤ 2 ^ 53) :
    OnGrid (q - 1) := by
  obtain ⟨m, e, hm, he, rfl⟩ := h
  rcases le_or_gt 0 e with hpos | hneg
  · -- an integer
    obtain ⟨k, rfl⟩ := Int.eq_ofNat_of_zero_le hpos
    have hcast : (m : ℚ) * 2 ^ (k : ℤ) = ((m * 2 ^ k : ℤ) : ℚ) := by
      push_cast
      rw [zpow_natCast]
    rw [hcast] at h1 hq ⊢
    have hlow : 1 < m * 2 ^ k := by exact_mod_cast h1
    have hhigh : m * 2 ^ k ≤ 2 ^ 53 := by exact_mod_cast hq
    have hgrid := onGrid_intCast (n := m * 2 ^ k - 1) (by rw [abs_le]; omega)
    rw [Int.cast_sub, Int.cast_one] at hgrid
    exact hgrid
  · obtain ⟨k, hk⟩ := Int.eq_ofNat_of_zero_le (show 0 ≤ -e by omega)
    have hunit : (2 : ℚ) ^ k * 2 ^ e = 1 := by
      rw [← zpow_natCast]
      change (2 : ℚ) ^ (k : ℤ) * 2 ^ e = 1
      rw [← hk, ← zpow_add₀ (by norm_num)]
      rw [neg_add_cancel, zpow_zero]
    have hlt : (2 : ℤ) ^ k < m := by
      have hpow : (0 : ℚ) < 2 ^ e := by positivity
      rw [← hunit, mul_lt_mul_iff_left₀ hpow] at h1
      exact_mod_cast h1
    have hlow : (0 : ℤ) < 2 ^ k := by positivity
    refine ⟨m - 2 ^ k, e, ?_, he, ?_⟩
    · rw [abs_le] at hm ⊢
      omega
    · push_cast
      rw [sub_mul, hunit]

/-- Numbers less than one apart are rounded to numbers whose ceilings are one apart at most. -/
theorem Nearest.ceil_le_succ {a b c d : ℚ} (hac : Nearest a c) (hbd : Nearest b d)
    (hab : b < a + 1) (hd : d ≤ 2 ^ 53) : ⌈d⌉₊ ≤ ⌈c⌉₊ + 1 := by
  rw [Nat.ceil_le]
  by_contra hlt
  rw [not_le, Nat.cast_add_one] at hlt
  have hc : c ≤ (⌈c⌉₊ : ℚ) := Nat.le_ceil c
  have hnonneg : (0 : ℚ) ≤ (⌈c⌉₊ : ℚ) := Nat.cast_nonneg _
  have hnat : ⌈c⌉₊ + 1 ≤ 2 ^ 53 := by
    have hcast : ((⌈c⌉₊ + 1 : ℕ) : ℚ) ≤ ((2 ^ 53 : ℕ) : ℚ) := by
      push_cast
      exact (hlt.le).trans hd
    exact_mod_cast hcast
  have hgrid : OnGrid (d - 1) := hbd.grid.sub_one (by linarith) hd
  have hint : OnGrid ((⌈c⌉₊ : ℚ) + 1) := by
    have hgrid := onGrid_natCast hnat
    rwa [Nat.cast_add_one] at hgrid
  -- `d - 1` is no closer to `a`, and the integer below `d` is no closer to `b`
  have ha := sq_le_sq.mpr (hac.le _ hgrid)
  have hb := sq_le_sq.mpr (hbd.le _ hint)
  have ha' : 2 * a ≤ c + (d - 1) := by nlinarith
  have hb' : (⌈c⌉₊ : ℚ) + 1 + d ≤ 2 * b := by nlinarith
  linarith

/-! ## Finite numbers -/

/-- A magnitude with a sign. -/
def signed : Sign → ℚ → ℚ
  | .positive, q => q
  | .negative, q => -q

/-- The number that a finite float stands for. -/
def value : UnpackedFloat → ℚ
  | .finite s m e _ => signed s (m * 2 ^ e)
  | _ => 0

/-- A mantissa and an exponent of binary64, up to the upper end of its range. -/
structure Fits (m : ℕ) (e : ℤ) : Prop where
  mantissa : m < 2 ^ 53
  exponent : -1074 ≤ e
  full : 2 ^ 52 ≤ m ∨ e = -1074

/-- The forms that `unpack` gives. -/
def Canonical : UnpackedFloat → Prop
  | .finite _ m e _ => Fits m e ∧ e ≤ 971
  | _ => True

/-- A significand with its hidden bit. -/
theorem toNat_append_one (v : BitVec 52) : (1#1 ++ v).toNat = 2 ^ 52 + v.toNat := by
  rw [BitVec.toNat_append, ← Nat.shiftLeft_add_eq_or_of_lt v.isLt, Nat.shiftLeft_eq]
  rfl

/-- What is stored in a float is canonical. -/
theorem canonical_unpack (x : Float.Model) : Canonical x.unpack := by
  have hm : (@unpackMantissa Format.binary64 x.toBits.toBitVec).toNat < 2 ^ 52 :=
    (@unpackMantissa Format.binary64 x.toBits.toBitVec).isLt
  have he : (@unpackExponent Format.binary64 x.toBits.toBitVec).toNat < 2 ^ 11 :=
    (@unpackExponent Format.binary64 x.toBits.toBitVec).isLt
  have hbias : Format.binary64.exponentBias = 1023 := rfl
  unfold Float.Model.unpack UnpackedFloat.unpack
  simp only [hbias]
  split_ifs with hmax hinf hsub hzero
  · trivial
  · trivial
  · trivial
  · rw [hsub]
    refine ⟨⟨by omega, by decide, .inr (by decide)⟩, by decide⟩
  · have hpos : (@unpackExponent Format.binary64 x.toBits.toBitVec).toNat ≠ 0 :=
      fun h => hsub (BitVec.eq_of_toNat_eq h)
    have hlt : (@unpackExponent Format.binary64 x.toBits.toBitVec).toNat ≠ 2047 :=
      fun h => hmax (BitVec.eq_of_toNat_eq h)
    have hmantissa := toNat_append_one (@unpackMantissa Format.binary64 x.toBits.toBitVec)
    refine ⟨⟨?_, ?_, .inl ?_⟩, ?_⟩
    · rw [hmantissa]
      omega
    · push_cast
      omega
    · rw [hmantissa]
      omega
    · push_cast
      omega

/-- A finite number of the range is packed without loss. -/
theorem unpack_pack_finite {s : Sign} {m : ℕ} {e : ℤ} (hm : 0 < m) (h : Fits m e)
    (hmax : e ≤ 971) :
    (Float.Model.pack (.finite s m e hm)).unpack = .finite s m e hm := by
  obtain ⟨hmantissa, hexp, hfull⟩ := h
  have hbias : Format.binary64.exponentBias = 1023 := rfl
  have hbits : Format.binary64.mantissaBits = 53 := rfl
  have hsign : ∀ b : BitVec 11, ∀ v : BitVec 52, @unpackSign Format.binary64
      (packComponents Format.binary64 s b v) = s.toBitVec := by
    intro b v
    ext i hi
    obtain rfl : i = 0 := by omega
    have htop : (s.toBitVec ++ b ++ v : BitVec (1 + 11 + 52)).getLsbD 63 = s.toBitVec[0] := by
      rw [BitVec.getLsbD_append, BitVec.getLsbD_append]
      rfl
    simp only [unpackSign, packComponents, BitVec.getElem_cast, BitVec.extractLsb,
      BitVec.getElem_extractLsb']
    exact htop
  have hback : Sign.ofBitVec s.toBitVec = s := by cases s <;> rfl
  unfold Float.Model.unpack Float.Model.pack UnpackedFloat.pack
  simp only [hbias, hbits]
  rw [if_neg (by push_cast; omega)]
  by_cases hnormal : 2 ^ 52 ≤ m
  · have hlog : m.log2 = 52 := by
      rw [Nat.log2_eq_iff (by omega)]
      exact ⟨hnormal, hmantissa⟩
    rw [if_pos (by rw [hlog])]
    have hb : (BitVec.ofNat 11 (e + (1023 : ℕ) + (52 : ℕ)).toNat).toNat =
        (e + 1023 + 52).toNat := by
      rw [BitVec.toNat_ofNat, Nat.mod_eq_of_lt (by omega)]
      push_cast
      rfl
    have hv : (1#1 ++ BitVec.ofNat 52 m).toNat = m := by
      rw [toNat_append_one, BitVec.toNat_ofNat]
      omega
    unfold UnpackedFloat.unpack
    simp only [unpackMantissa_packComponents, unpackExponent_packComponents, hsign, hback, hbias]
    rw [if_neg, if_neg]
    · congr 1
      rw [hb]
      omega
    · intro h
      have := congrArg BitVec.toNat h
      rw [hb] at this
      simp at this
      omega
    · intro h
      have := congrArg BitVec.toNat h
      rw [hb] at this
      simp at this
      omega
  · have hlog : m.log2 + 1 ≠ 53 := by
      have hlt := (Nat.log2_lt (by omega)).mpr (Nat.lt_of_not_le hnormal)
      omega
    rw [if_neg hlog]
    obtain rfl := hfull.resolve_left hnormal
    have hv : (BitVec.ofNat 52 m).toNat = m := by
      rw [BitVec.toNat_ofNat, Nat.mod_eq_of_lt (by omega)]
    have hne : BitVec.ofNat 52 m ≠ 0#52 := by
      intro h
      have hzero := congrArg BitVec.toNat h
      rw [hv] at hzero
      exact hm.ne' hzero
    unfold UnpackedFloat.unpack
    simp only [unpackMantissa_packComponents, unpackExponent_packComponents, hsign, hback, hbias]
    rw [if_neg (by decide), if_pos trivial, dif_neg hne]
    congr 1

/-! ## Rounding

An extended mantissa says where a number lies between two integers: on the lower one, below the
middle, on the middle, or above it. -/

/-- The number that an extended mantissa stands for, as far as it can be told. -/
def Describes : ExtendedMantissa → ℚ → Prop
  | ⟨m, false, false⟩, x => x = m
  | ⟨m, false, true⟩, x => m < x ∧ x < m + 1 / 2
  | ⟨m, true, false⟩, x => x = m + 1 / 2
  | ⟨m, true, true⟩, x => m + 1 / 2 < x ∧ x < m + 1

/-- The mantissa is the integer part of what it describes. -/
theorem Describes.floor {em : ExtendedMantissa} {x : ℚ} (h : Describes em x) :
    em.mantissa ≤ x ∧ x < em.mantissa + 1 := by
  obtain ⟨m, r, t⟩ := em
  cases r <;> cases t <;> simp only [Describes] at h ⊢ <;> constructor <;> linarith

/-- A shift by one place halves the number, and keeps where it is between two mantissas. -/
theorem Describes.shiftRightOne {em : ExtendedMantissa} {x : ℚ} (h : Describes em x) :
    Describes em.shiftRightOne (x / 2) := by
  obtain ⟨m, r, t⟩ := em
  rcases Nat.even_or_odd' m with ⟨k, rfl | rfl⟩
  · have hhalf : 2 * k / 2 = k := by omega
    have hbit : (2 * k % 2 != 0) = false := by simp
    rw [ExtendedMantissa.shiftRightOne, hhalf, hbit]
    cases r <;> cases t <;> simp only [Describes, Bool.or_true, Bool.or_false] at h ⊢ <;>
      push_cast at h <;> first | linarith | constructor <;> linarith
  · have hhalf : (2 * k + 1) / 2 = k := by omega
    have hbit : ((2 * k + 1) % 2 != 0) = true := by
      rw [show (2 * k + 1) % 2 = 1 by omega]
      rfl
    rw [ExtendedMantissa.shiftRightOne, hhalf, hbit]
    cases r <;> cases t <;> simp only [Describes, Bool.or_true, Bool.or_false] at h ⊢ <;>
      push_cast at h <;> first | linarith | constructor <;> linarith

/-- A shift by any number of places, one after the other. -/
theorem Describes.shiftRight {em : ExtendedMantissa} {x : ℚ} (h : Describes em x) (k : ℕ) :
    Describes (em >>> k) (x / 2 ^ k) := by
  induction k with
  | zero => rwa [pow_zero, div_one]
  | succ k ih =>
    rw [pow_succ, ← div_div]
    exact ih.shiftRightOne

/-- The rounded mantissa is a nearest integer. -/
theorem Describes.rounded {em : ExtendedMantissa} {x : ℚ} (h : Describes em x) :
    |x - em.roundedMantissa| ≤ 1 / 2 ∧ em.mantissa ≤ em.roundedMantissa ∧
      em.roundedMantissa ≤ em.mantissa + 1 := by
  obtain ⟨m, r, t⟩ := em
  cases r <;> cases t <;> simp only [Describes] at h <;>
    simp only [ExtendedMantissa.roundedMantissa, ExtendedMantissa.accuracy,
      Accuracy.roundToNearestEven]
  · exact ⟨by rw [h, sub_self, abs_zero]; norm_num, le_rfl, by omega⟩
  · exact ⟨by rw [abs_le]; constructor <;> linarith, le_rfl, by omega⟩
  · refine ⟨?_, by omega, by omega⟩
    rcases Nat.mod_two_eq_zero_or_one m with hm | hm <;> rw [hm, h, abs_le] <;> push_cast <;>
      constructor <;> linarith
  · exact ⟨by rw [abs_le]; push_cast; constructor <;> linarith, by omega, by omega⟩

/-- An exact mantissa describes itself. -/
theorem describes_exact (m : ℕ) :
    Describes (ExtendedMantissa.ofMantissaAndAccuracy m .exact) m := rfl

/-- The accuracy is kept beside the mantissa. -/
theorem mantissa_ofMantissaAndAccuracy (m : ℕ) (acc : Accuracy) :
    (ExtendedMantissa.ofMantissaAndAccuracy m acc).mantissa = m := by
  cases acc with
  | exact => rfl
  | inexact o => cases o <;> rfl

/-- A shift divides the mantissa, whatever is shifted out. -/
theorem mantissa_shiftRight (em : ExtendedMantissa) (k : ℕ) :
    (em >>> k).mantissa = em.mantissa / 2 ^ k := by
  induction k with
  | zero => exact (Nat.div_one _).symm
  | succ k ih =>
    rw [pow_succ, ← Nat.div_div_eq_div_mul, ← ih]
    rfl

/-- Rounding a magnitude rounds the signed number. -/
theorem nearest_signed {a c : ℚ} (s : Sign) (h : Nearest a c) :
    Nearest (signed s a) (signed s c) := by
  cases s with
  | positive => exact h
  | negative => exact h.neg

/-- `u` is a magnitude, rounded, with a sign. -/
structure Rounded (s : Sign) (a : ℚ) (u : UnpackedFloat) : Prop where
  form : u = .zero s ∨ ∃ m e, ∃ h : 0 < m, u = .finite s m e h ∧ Fits m e
  nearest : Nearest (signed s a) (value u)

/-- The exponent of the result leaves 53 bits, or fewer at the bottom of the range. -/
theorem targetExponent_eq (m : ℕ) (e : ℤ) :
    Format.binary64.targetExponent (totalExponent m e) = max (m.log2 + e - 52) (-1074) := by
  have hbits : Format.binary64.mantissaBits = 53 := rfl
  have hmin : Format.binary64.minExponent = -1074 := rfl
  rw [Format.targetExponent, totalExponent, hbits, hmin]
  congr 1
  push_cast
  ring

/-- A nearest multiple of the last place of a number is a nearest number of the grid. -/
theorem nearest_of_mantissa {a : ℚ} {r : ℕ} {t : ℤ} (ht : -1074 ≤ t) (hr : r ≤ 2 ^ 53)
    (hround : |a / 2 ^ t - r| ≤ 1 / 2) (hlow : t = -1074 ∨ 2 ^ 52 * 2 ^ t ≤ a) :
    Nearest a (r * 2 ^ t) where
  grid := ⟨r, t, by rw [Nat.abs_cast]; exact_mod_cast hr, ht, by push_cast; rfl⟩
  le f hf := by
    have hpos : (0 : ℚ) < 2 ^ t := zpow_pos (by norm_num) t
    have hscale : ∀ z : ℚ, |a - z * 2 ^ t| = |a / 2 ^ t - z| * 2 ^ t := by
      intro z
      rw [← abs_of_pos hpos, ← abs_mul, abs_of_pos hpos, sub_mul, div_mul_cancel₀ _ hpos.ne']
    -- An integer is at least as far away as the rounded mantissa.
    have hint : ∀ z : ℤ, |a - r * 2 ^ t| ≤ |a - z * 2 ^ t| := by
      intro z
      rw [hscale, hscale]
      refine mul_le_mul_of_nonneg_right ?_ hpos.le
      by_cases hz : z = r
      · rw [hz]
        exact le_of_eq (by push_cast; rfl)
      · have hone : (1 : ℚ) ≤ |(z : ℚ) - r| := by
          have hone : 1 ≤ |z - (r : ℤ)| := Int.one_le_abs (sub_ne_zero.mpr hz)
          exact_mod_cast hone
        have htri : |(z : ℚ) - r| ≤ |a / 2 ^ t - z| + |a / 2 ^ t - r| := by
          rw [abs_sub_comm (a / 2 ^ t) z]
          exact abs_sub_le _ _ _
        linarith
    obtain ⟨m, e, hm, he, rfl⟩ := hf
    by_cases hte : t ≤ e
    · have hmul : (m : ℚ) * 2 ^ e = ((m * 2 ^ (e - t).toNat : ℤ) : ℚ) * 2 ^ t := by
        push_cast
        rw [← zpow_natCast, Int.toNat_of_nonneg (by omega), mul_assoc,
          ← zpow_add₀ (by norm_num : (2 : ℚ) ≠ 0)]
        congr 2
        omega
      rw [hmul]
      exact hint _
    · -- A number with smaller places is below the first one with all of them.
      have hbound : 2 ^ 52 * 2 ^ t ≤ a := hlow.resolve_left (by omega)
      have hsmall : (m : ℚ) * 2 ^ e ≤ 2 ^ 52 * 2 ^ t := by
        have hm' : (m : ℚ) ≤ 2 ^ 53 := by exact_mod_cast (abs_le.mp hm).2
        have hstep : (2 : ℚ) ^ e ≤ 2 ^ (t - 1) := zpow_le_zpow_right₀ (by norm_num) (by omega)
        have hhalf : (2 : ℚ) ^ 53 * 2 ^ (t - 1) = 2 ^ 52 * 2 ^ t := by
          rw [zpow_sub₀ (by norm_num : (2 : ℚ) ≠ 0)]
          ring
        calc (m : ℚ) * 2 ^ e ≤ 2 ^ 53 * 2 ^ e :=
              mul_le_mul_of_nonneg_right hm' (zpow_pos (by norm_num) e).le
          _ ≤ 2 ^ 53 * 2 ^ (t - 1) := mul_le_mul_of_nonneg_left hstep (by norm_num)
          _ = 2 ^ 52 * 2 ^ t := hhalf
      have hmid := hint (2 ^ 52)
      rw [show ((2 ^ 52 : ℤ) : ℚ) = 2 ^ 52 by norm_num] at hmid
      rw [abs_of_nonneg (sub_nonneg.mpr hbound)] at hmid
      rw [abs_of_nonneg (sub_nonneg.mpr (hsmall.trans hbound))]
      linarith

/-- The second shift of a rounding: a mantissa with one bit too many loses a zero. -/
theorem shift_rounded {r : ℕ} {t : ℤ} (hr : r ≤ 2 ^ 53) (ht : -1074 ≤ t)
    (hfull : 2 ^ 52 ≤ r ∨ t = -1074) :
    ∃ m e, shiftToTargetExponent Format.binary64 r t .exact = (⟨m, false, false⟩, e) ∧
      (m : ℚ) * 2 ^ e = r * 2 ^ t ∧ (0 < r → 0 < m ∧ Fits m e) ∧ (r = 0 → m = 0) := by
  unfold shiftToTargetExponent shiftToExponent
  simp only [targetExponent_eq]
  rcases Nat.lt_or_ge r (2 ^ 53) with hlt | hge
  · have hlog : r.log2 ≤ 52 := by
      rcases Nat.eq_zero_or_pos r with rfl | hpos
      · decide
      · have := (Nat.log2_lt (by omega)).mpr hlt
        omega
    rw [show (max ((r.log2 : ℤ) + t - 52) (-1074) - t).toNat = 0 by omega]
    refine ⟨r, t, by simp only [Nat.cast_zero, add_zero]; rfl, rfl,
      fun hpos => ⟨hpos, hlt, ht, hfull⟩, fun h => h⟩
  · obtain rfl : r = 2 ^ 53 := by omega
    have hlog : (2 ^ 53 : ℕ).log2 = 53 := Nat.log2_two_pow
    rw [hlog, show (max (((53 : ℕ) : ℤ) + t - 52) (-1074) - t).toNat = 1 by omega]
    refine ⟨2 ^ 52, t + 1, rfl, ?_, fun _ => ⟨by norm_num, by norm_num, by omega, .inl le_rfl⟩,
      by norm_num⟩
    rw [zpow_add_one₀ (by norm_num : (2 : ℚ) ≠ 0)]
    push_cast
    ring

/-- Rounding gives a nearest number of the grid. -/
theorem roundWithAccuracy_rounded {s : Sign} {m : ℕ} {e : ℤ} {acc : Accuracy} {x : ℚ}
    (hx : Describes (ExtendedMantissa.ofMantissaAndAccuracy m acc) x)
    (hm : 52 ≤ m.log2 ∨ e ≤ -1074) :
    Rounded s (x * 2 ^ e) (roundWithAccuracy Format.binary64 s m e acc) := by
  set t := max ((m.log2 : ℤ) + e - 52) (-1074) with ht
  set k := (t - e).toNat with hk
  have hek : e + k = t := by omega
  have hshift : shiftToTargetExponent Format.binary64 m e acc =
      (ExtendedMantissa.ofMantissaAndAccuracy m acc >>> k, t) := by
    unfold shiftToTargetExponent shiftToExponent
    simp only [targetExponent_eq]
    rw [← ht, ← hk, hek]
  have hy := hx.shiftRight k
  obtain ⟨hround, hlower, hupper⟩ := hy.rounded
  obtain ⟨hfloor, hceil⟩ := hy.floor
  have hmantissa : (ExtendedMantissa.ofMantissaAndAccuracy m acc >>> k).mantissa = m / 2 ^ k := by
    rw [mantissa_shiftRight, mantissa_ofMantissaAndAccuracy]
  have hsmall : m / 2 ^ k < 2 ^ 53 := by
    rw [Nat.div_lt_iff_lt_mul (by positivity), ← pow_add]
    exact lt_of_lt_of_le Nat.lt_log2_self (Nat.pow_le_pow_right (by norm_num) (by omega))
  have hfull : t = -1074 ∨ 2 ^ 52 ≤ m / 2 ^ k := by
    by_cases hmin : t = -1074
    · exact .inl hmin
    · have hlog : m.log2 = 52 + k := by omega
      refine .inr ((Nat.le_div_iff_mul_le (by positivity)).mpr ?_)
      rw [← pow_add, ← hlog]
      exact Nat.log2_self_le (by rintro rfl; rw [Nat.log2_zero] at hlog; omega)
  set r := (ExtendedMantissa.ofMantissaAndAccuracy m acc >>> k).roundedMantissa with hr
  rw [hmantissa] at hlower hupper hfloor
  have hpos : (0 : ℚ) < 2 ^ t := zpow_pos (by norm_num) t
  have hscale : x * 2 ^ e / 2 ^ t = x / 2 ^ k := by
    rw [← hek, zpow_add₀ (by norm_num : (2 : ℚ) ≠ 0), zpow_natCast, div_mul_eq_div_div,
      mul_div_cancel_right₀ x (zpow_ne_zero e (by norm_num))]
  have hnear : Nearest (x * 2 ^ e) (r * 2 ^ t) := by
    refine nearest_of_mantissa (le_max_right _ _) (by omega) (by rw [hscale]; exact hround) ?_
    refine hfull.imp_right fun hbig => ?_
    rw [← le_div_iff₀ hpos, hscale]
    exact le_trans (by exact_mod_cast hbig) hfloor
  obtain ⟨m', e', hsecond, hvalue, hfits, hzero⟩ := shift_rounded (r := r) (t := t) (by omega)
    (le_max_right _ _) (by omega)
  unfold roundWithAccuracy
  rw [hshift]
  simp only
  rw [← hr, hsecond]
  simp only
  split_ifs with hm'
  · refine ⟨.inl rfl, ?_⟩
    have hr0 : r = 0 := by
      by_contra hne
      exact absurd hm' (hfits (Nat.pos_of_ne_zero hne)).1.ne'
    have hz := nearest_signed s hnear
    rw [hr0] at hz
    cases s <;> simpa [signed, value] using hz
  · have hr0 : 0 < r := Nat.pos_of_ne_zero fun h => hm' (hzero h)
    refine ⟨.inr ⟨m', e', Nat.pos_of_ne_zero hm', rfl, (hfits hr0).2⟩, ?_⟩
    rw [value, hvalue]
    exact nearest_signed s hnear

/-- Rounding of a mantissa that may have too few bits. -/
theorem round_rounded (s : Sign) {m : ℕ} (hm : 0 < m) (e : ℤ) :
    Rounded s (m * 2 ^ e) (UnpackedFloat.round Format.binary64 s m e) := by
  unfold UnpackedFloat.round decreaseExponent
  simp only [targetExponent_eq]
  set t := max ((m.log2 : ℤ) + e - 52) (-1074) with ht
  set k := (e - t).toNat with hk
  have hvalue : ((m <<< k : ℕ) : ℚ) * 2 ^ (e - k) = m * 2 ^ e := by
    rw [Nat.shiftLeft_eq, zpow_sub₀ (by norm_num : (2 : ℚ) ≠ 0), zpow_natCast]
    push_cast
    rw [mul_assoc, mul_div_cancel₀ _ (by positivity : (2 : ℚ) ^ k ≠ 0)]
  rw [← hvalue]
  refine roundWithAccuracy_rounded (describes_exact _) ?_
  by_cases hmin : e - k ≤ -1074
  · exact .inr hmin
  · -- Above the least exponent the mantissa has been given all its bits.
    left
    rw [Nat.shiftLeft_eq, Nat.le_log2 (by positivity)]
    calc 2 ^ 52 ≤ 2 ^ (m.log2 + k) := Nat.pow_le_pow_right (by norm_num) (by omega)
      _ = 2 ^ m.log2 * 2 ^ k := pow_add ..
      _ ≤ m * 2 ^ k := Nat.mul_le_mul_right _ (Nat.log2_self_le hm.ne')

/-! ## Operations -/

/-- A finite float is a number, rounded. -/
def RoundsTo (q : ℚ) (u : UnpackedFloat) : Prop :=
  ∃ s a, 0 ≤ a ∧ signed s a = q ∧ Rounded s a u

/-- Zero of either sign is the rounding of zero. -/
theorem roundsTo_zero (s : Sign) : RoundsTo 0 (.zero s) := by
  refine ⟨s, 0, le_rfl, by cases s <;> simp [signed], .inl rfl, ?_⟩
  have hzero : signed s 0 = 0 := by cases s <;> simp [signed]
  rw [hzero]
  exact ⟨onGrid_natCast (n := 0) (by norm_num), fun f _ => by simp [value]⟩

/-- A float is the rounding of its own value. -/
theorem roundsTo_value {u : UnpackedFloat} (hc : Canonical u) (hu : u.isFinite = true) :
    RoundsTo (value u) u := by
  cases u with
  | notANumber => cases hu
  | infinity s => cases hu
  | zero s => exact roundsTo_zero s
  | finite s m e hm =>
    have hgrid : OnGrid (m * 2 ^ e) := by
      refine ⟨m, e, ?_, hc.1.exponent, by push_cast; rfl⟩
      rw [Nat.abs_cast]
      exact_mod_cast hc.1.mantissa.le
    refine ⟨s, m * 2 ^ e, by positivity, rfl, .inr ⟨m, e, hm, rfl, hc.1⟩, ?_⟩
    exact nearest_signed s ⟨hgrid, fun f _ => by rw [sub_self, abs_zero]; exact abs_nonneg _⟩

/-- Signs multiply. -/
theorem signed_mul (s t : Sign) (a b : ℚ) : signed (s * t) (a * b) = signed s a * signed t b := by
  cases s <;> cases t
  · exact (neg_mul_neg a b).symm
  · exact (neg_mul a b).symm
  · exact (mul_neg a b).symm
  · rfl

/-- Signs divide. -/
theorem signed_div (s t : Sign) (a b : ℚ) : signed (s / t) (a / b) = signed s a / signed t b := by
  cases s <;> cases t
  · exact (neg_div_neg_eq a b).symm
  · exact (neg_div b a).symm
  · exact (div_neg a).symm
  · rfl

/-- A product with a full mantissa has 53 bits at least. -/
theorem log2_mul_ge {m n : ℕ} (hm : 2 ^ 52 ≤ m) (hn : 0 < n) : 52 ≤ (m * n).log2 := by
  rw [Nat.le_log2 (Nat.mul_pos (by omega) hn).ne']
  exact le_trans hm (Nat.le_mul_of_pos_right m hn)

/-- Multiplication rounds the product of the values. -/
theorem mul_roundsTo {u v : UnpackedFloat} (hcu : Canonical u) (hu : u.isFinite = true)
    (hcv : Canonical v) (hv : v.isFinite = true) :
    RoundsTo (value u * value v) (mul Format.binary64 u v) := by
  cases u with
  | notANumber => cases hu
  | infinity s => cases hu
  | zero s =>
    cases v with
    | notANumber => cases hv
    | infinity t => cases hv
    | zero t => rw [show value (.zero s) = 0 from rfl, zero_mul]; exact roundsTo_zero _
    | finite t n f hn => rw [show value (.zero s) = 0 from rfl, zero_mul]; exact roundsTo_zero _
  | finite s m e hm =>
    cases v with
    | notANumber => cases hv
    | infinity t => cases hv
    | zero t => rw [show value (.zero t) = 0 from rfl, mul_zero]; exact roundsTo_zero _
    | finite t n f hn =>
      have hbits : 52 ≤ (m * n).log2 ∨ e + f ≤ -1074 := by
        rcases hcu.1.full with hfull | hmin
        · exact .inl (log2_mul_ge hfull hn)
        · rcases hcv.1.full with hfull | hmin'
          · rw [mul_comm]
            exact .inl (log2_mul_ge hfull hm)
          · omega
      refine ⟨s * t, ((m * n : ℕ) : ℚ) * 2 ^ (e + f), by positivity, ?_,
        roundWithAccuracy_rounded (describes_exact (m * n)) hbits⟩
      rw [value, value, ← signed_mul, zpow_add₀ (by norm_num : (2 : ℚ) ≠ 0)]
      congr 1
      push_cast
      ring

/-- A quotient of integers, and the accuracy of its integral part. -/
theorem describes_div (m : ℕ) {d : ℕ} (hd : 0 < d) :
    Describes (ExtendedMantissa.ofMantissaAndAccuracy (m / d) (accuracyOfFraction (m % d) d))
      ((m : ℚ) / d) := by
  have hd' : (0 : ℚ) < d := by exact_mod_cast hd
  have hsplit : (m : ℚ) / d = (m / d : ℕ) + ((m % d : ℕ) : ℚ) / d := by
    rw [div_eq_iff hd'.ne', add_mul, div_mul_cancel₀ _ hd'.ne']
    exact_mod_cast (Nat.div_add_mod' m d).symm
  have hlt : ((m % d : ℕ) : ℚ) / d < 1 := by
    rw [div_lt_one hd']
    exact_mod_cast Nat.mod_lt m hd
  rw [hsplit, accuracyOfFraction]
  split_ifs with hzero
  · rw [hzero]
    simp [ExtendedMantissa.ofMantissaAndAccuracy, Describes]
  · have hpos : 0 < ((m % d : ℕ) : ℚ) / d :=
      div_pos (by exact_mod_cast Nat.pos_of_ne_zero hzero) hd'
    have hhalf : ((m % d : ℕ) : ℚ) / d = 2 * (m % d : ℕ) / d / 2 := by ring
    cases hcmp : compare (2 * (m % d)) d with
    | lt =>
      have hlt' : (2 * (m % d : ℕ) : ℚ) / d < 1 := by
        rw [div_lt_one hd']
        exact_mod_cast Nat.compare_eq_lt.mp hcmp
      exact ⟨by linarith, by linarith⟩
    | eq =>
      have heq : (2 * (m % d : ℕ) : ℚ) / d = 1 := by
        rw [div_eq_one_iff_eq hd'.ne']
        exact_mod_cast Nat.compare_eq_eq.mp hcmp
      show _ = _
      linarith
    | gt =>
      have hgt : 1 < (2 * (m % d : ℕ) : ℚ) / d := by
        rw [one_lt_div hd']
        exact_mod_cast Nat.compare_eq_gt.mp hcmp
      exact ⟨by linarith, by linarith⟩

/-- Division rounds the quotient, unless the divisor is zero. -/
theorem div_roundsTo {u v : UnpackedFloat} (hcu : Canonical u) (hu : u.isFinite = true)
    (hcv : Canonical v) (hv : v.isFinite = true) (hne : value v ≠ 0) :
    RoundsTo (value u / value v) (div Format.binary64 u v) := by
  cases v with
  | notANumber => cases hv
  | infinity t => cases hv
  | zero t => exact absurd rfl hne
  | finite t n f hn =>
    cases u with
    | notANumber => cases hu
    | infinity s => cases hu
    | zero s => rw [show value (.zero s) = 0 from rfl, zero_div]; exact roundsTo_zero _
    | finite s m e hm =>
      have htarget : Format.binary64.targetExponent (totalExponent m e - totalExponent n f) =
          max ((m.log2 : ℤ) + e - n.log2 - f - 53) (-1074) := by
        have hbits : Format.binary64.mantissaBits = 53 := rfl
        have hmin : Format.binary64.minExponent = -1074 := rfl
        rw [Format.targetExponent, totalExponent, totalExponent, hbits, hmin]
        congr 1
        push_cast
        ring
      unfold UnpackedFloat.div divCore
      simp only [htarget]
      set t' := min (e - f) (max ((m.log2 : ℤ) + e - n.log2 - f - 53) (-1074)) with ht'
      set k := (e - f - t').toNat with hk
      -- The dividend is shifted until the quotient has all its bits.
      have hbits : 52 ≤ ((m <<< k) / n).log2 ∨ t' ≤ -1074 := by
        by_cases hmin : t' ≤ -1074
        · exact .inr hmin
        · left
          have hlog : n.log2 + 53 ≤ m.log2 + k := by omega
          have hbig : 2 ^ 52 ≤ (m <<< k) / n := by
            rw [Nat.shiftLeft_eq, Nat.le_div_iff_mul_le hn]
            calc 2 ^ 52 * n ≤ 2 ^ 52 * 2 ^ (n.log2 + 1) :=
                  Nat.mul_le_mul_left _ Nat.lt_log2_self.le
              _ = 2 ^ (n.log2 + 53) := by rw [← pow_add]; congr 1; omega
              _ ≤ 2 ^ (m.log2 + k) := Nat.pow_le_pow_right (by norm_num) hlog
              _ = 2 ^ m.log2 * 2 ^ k := pow_add ..
              _ ≤ m * 2 ^ k := Nat.mul_le_mul_right _ (Nat.log2_self_le hm.ne')
          rwa [Nat.le_log2 (by omega)]
      refine ⟨s / t, ((m <<< k : ℕ) : ℚ) / n * 2 ^ t', by positivity, ?_,
        roundWithAccuracy_rounded (describes_div _ hn) hbits⟩
      rw [value, value, ← signed_div]
      congr 1
      have hexp : (2 : ℚ) ^ e / 2 ^ f = 2 ^ k * 2 ^ t' := by
        rw [← zpow_sub₀ (by norm_num : (2 : ℚ) ≠ 0), ← zpow_natCast,
          ← zpow_add₀ (by norm_num : (2 : ℚ) ≠ 0)]
        congr 1
        omega
      rw [mul_div_mul_comm, hexp, Nat.shiftLeft_eq]
      push_cast
      ring

/-- Normalising rounds an integer times a power of two. -/
theorem normalize_roundsTo (n : ℤ) (e : ℤ) (s : Sign) :
    RoundsTo (n * 2 ^ e) (UnpackedFloat.normalize Format.binary64 n e s) := by
  unfold UnpackedFloat.normalize
  cases hcmp : compare n 0 with
  | lt =>
    have hneg : n < 0 := Int.compare_eq_lt.mp hcmp
    refine ⟨.negative, ((-n).toNat : ℚ) * 2 ^ e, by positivity, ?_,
      round_rounded .negative (by omega) e⟩
    have hcast : (((-n).toNat : ℤ) : ℚ) = -n := by
      rw [Int.toNat_of_nonneg (by omega)]
      push_cast
      rfl
    show -(((-n).toNat : ℚ) * 2 ^ e) = n * 2 ^ e
    rw [← Int.cast_natCast, hcast]
    ring
  | eq =>
    rw [Int.compare_eq_eq.mp hcmp, Int.cast_zero, zero_mul]
    exact roundsTo_zero s
  | gt =>
    have hpos : 0 < n := Int.compare_eq_gt.mp hcmp
    refine ⟨.positive, (n.toNat : ℚ) * 2 ^ e, by positivity, ?_,
      round_rounded .positive (by omega) e⟩
    have hcast : ((n.toNat : ℤ) : ℚ) = n := by rw [Int.toNat_of_nonneg hpos.le]
    show (n.toNat : ℚ) * 2 ^ e = n * 2 ^ e
    rw [← Int.cast_natCast, hcast]

/-- An integer with a sign is the signed number. -/
theorem apply_signed (s : Sign) (n : ℕ) : ((s.apply n : ℤ) : ℚ) = signed s n := by
  cases s <;> simp [Sign.apply, signed]

/-- A smaller exponent with a larger mantissa is the same value. -/
theorem decreaseExponent_value (s : Sign) (m : ℕ) (e : ℤ) {t : ℤ} (ht : t ≤ e) :
    ((s.apply (decreaseExponent m e t).1 : ℤ) : ℚ) * 2 ^ t = signed s (m * 2 ^ e) := by
  have hvalue : (((decreaseExponent m e t).1 : ℕ) : ℚ) * 2 ^ t = m * 2 ^ e := by
    show ((m <<< (e - t).toNat : ℕ) : ℚ) * 2 ^ t = m * 2 ^ e
    rw [Nat.shiftLeft_eq]
    push_cast
    rw [← zpow_natCast, Int.toNat_of_nonneg (by omega), mul_assoc,
      ← zpow_add₀ (by norm_num : (2 : ℚ) ≠ 0)]
    congr 2
    omega
  rw [apply_signed, ← hvalue]
  cases s <;> simp [signed]

/-- Addition rounds the sum. -/
theorem add_roundsTo {u v : UnpackedFloat} (hcu : Canonical u) (hu : u.isFinite = true)
    (hcv : Canonical v) (hv : v.isFinite = true) :
    RoundsTo (value u + value v) (add Format.binary64 u v) := by
  cases u with
  | notANumber => cases hu
  | infinity s => cases hu
  | zero s =>
    rw [show value (.zero s) = 0 from rfl, zero_add]
    cases v with
    | notANumber => cases hv
    | infinity t => cases hv
    | zero t => cases s <;> cases t <;> exact roundsTo_zero _
    | finite t n f hn => exact roundsTo_value hcv hv
  | finite s m e hm =>
    cases v with
    | notANumber => cases hv
    | infinity t => cases hv
    | zero t =>
      rw [show value (.zero t) = 0 from rfl, add_zero]
      exact roundsTo_value hcu hu
    | finite t n f hn =>
      have hsum := normalize_roundsTo (s.apply (decreaseExponent m e (min e f)).1 +
        t.apply (decreaseExponent n f (min e f)).1) (min e f) .positive
      rw [Int.cast_add, add_mul, decreaseExponent_value s m e (min_le_left e f),
        decreaseExponent_value t n f (min_le_right e f)] at hsum
      exact hsum

/-- Negation changes the sign of the value. -/
theorem value_neg (u : UnpackedFloat) : value u.neg = -value u := by
  cases u with
  | notANumber => exact neg_zero.symm
  | infinity s => exact neg_zero.symm
  | zero s => exact neg_zero.symm
  | finite s m e hm =>
    cases s with
    | positive => rfl
    | negative => exact (neg_neg _).symm

/-- A difference is a sum with the negated number. -/
theorem sub_eq_add {u v : UnpackedFloat} (hu : u.isFinite = true) (hv : v.isFinite = true) :
    sub Format.binary64 u v = add Format.binary64 u v.neg := by
  cases u with
  | notANumber => cases hu
  | infinity s => cases hu
  | zero s =>
    cases v with
    | notANumber => cases hv
    | infinity t => cases hv
    | zero t => cases s <;> cases t <;> rfl
    | finite t n f hn => rfl
  | finite s m e hm =>
    cases v with
    | notANumber => cases hv
    | infinity t => cases hv
    | zero t => rfl
    | finite t n f hn =>
      have hneg : ∀ k : ℕ, (-t).apply k = -t.apply k := by
        intro k
        cases t with
        | positive => rfl
        | negative => exact (neg_neg _).symm
      simp only [UnpackedFloat.sub, UnpackedFloat.add, UnpackedFloat.neg, hneg, sub_eq_add_neg]

/-- Subtraction rounds the difference. -/
theorem sub_roundsTo {u v : UnpackedFloat} (hcu : Canonical u) (hu : u.isFinite = true)
    (hcv : Canonical v) (hv : v.isFinite = true) :
    RoundsTo (value u - value v) (sub Format.binary64 u v) := by
  have hcn : Canonical v.neg := by cases v <;> exact hcv
  have hfin : v.neg.isFinite = true := by cases v <;> exact hv
  have hadd := add_roundsTo hcu hu hcn hfin
  rwa [value_neg, ← sub_eq_add_neg, ← sub_eq_add hu hv] at hadd

/-! ## Floats -/

/-- A float stands for a rational number. -/
structure Rep (x : Float) (q : ℚ) : Prop where
  finite : x.toModel.unpack.isFinite = true
  value : value x.toModel.unpack = q

/-- The sign does not change the magnitude. -/
theorem abs_signed (s : Sign) {a : ℚ} (ha : 0 ≤ a) : |signed s a| = a := by
  cases s with
  | positive => exact abs_of_nonneg ha
  | negative => exact (abs_neg a).trans (abs_of_nonneg ha)

/-- A result within the range is packed without loss. -/
theorem RoundsTo.rep {q : ℚ} {u : UnpackedFloat} (h : RoundsTo q u) (hq : |q| ≤ 2 ^ 1023) :
    ∃ c, Rep (.ofModel (.pack u)) c ∧ Nearest q c := by
  obtain ⟨s, a, ha, rfl, hform, hnear⟩ := h
  rcases hform with rfl | ⟨m, e, hm, rfl, hfits⟩
  · have hunpack : (Float.Model.pack (.zero s)).unpack = .zero s := by cases s <;> rfl
    exact ⟨0, ⟨by rw [hunpack]; rfl, by rw [hunpack]; rfl⟩, hnear⟩
  · have hmax : e ≤ 971 := by
      by_contra hlt
      have hfull : 2 ^ 52 ≤ m := hfits.full.resolve_right (by omega)
      have htop : OnGrid (2 ^ (1023 : ℤ)) := onGrid_zpow (by norm_num)
      have hle : (m : ℚ) * 2 ^ e ≤ 2 ^ (1023 : ℤ) := by
        rw [abs_signed s ha, ← zpow_natCast] at hq
        cases s with
        | positive => exact hnear.le_of_le htop hq
        | negative =>
          have hge := hnear.ge_of_ge htop.neg (neg_le_neg hq)
          exact neg_le_neg_iff.mp hge
      have hbig : (2 : ℚ) ^ (1024 : ℤ) ≤ m * 2 ^ e := by
        calc (2 : ℚ) ^ (1024 : ℤ) = 2 ^ 52 * 2 ^ (972 : ℤ) := by
              rw [← zpow_natCast, ← zpow_add₀ (by norm_num : (2 : ℚ) ≠ 0)]
              rfl
          _ ≤ m * 2 ^ e := mul_le_mul (by exact_mod_cast hfull)
            (zpow_le_zpow_right₀ (by norm_num) (by omega)) (by positivity) (by positivity)
      have hlt : (2 : ℚ) ^ (1023 : ℤ) < 2 ^ (1024 : ℤ) :=
        zpow_lt_zpow_right₀ (by norm_num) (by norm_num)
      exact absurd (hbig.trans hle) (not_le.mpr hlt)
    have hunpack := unpack_pack_finite (s := s) hm hfits hmax
    exact ⟨_, ⟨by rw [hunpack]; rfl, rfl⟩, by rw [hunpack]; exact hnear⟩

section
variable {x y : Float} {a b : ℚ}

/-- A product of floats within the range is a float nearest to the exact product. -/
theorem Rep.mul (hx : Rep x a) (hy : Rep y b) (h : |a * b| ≤ 2 ^ 1023) :
    ∃ c, Rep (x * y) c ∧ Nearest (a * b) c := by
  have hround := mul_roundsTo (canonical_unpack x.toModel) hx.finite (canonical_unpack y.toModel)
    hy.finite
  rw [hx.value, hy.value] at hround
  exact hround.rep h

/-- So is a quotient. -/
theorem Rep.div (hx : Rep x a) (hy : Rep y b) (hb : b ≠ 0) (h : |a / b| ≤ 2 ^ 1023) :
    ∃ c, Rep (x / y) c ∧ Nearest (a / b) c := by
  have hround := div_roundsTo (canonical_unpack x.toModel) hx.finite (canonical_unpack y.toModel)
    hy.finite (by rwa [hy.value])
  rw [hx.value, hy.value] at hround
  exact hround.rep h

/-- So is a sum. -/
theorem Rep.add (hx : Rep x a) (hy : Rep y b) (h : |a + b| ≤ 2 ^ 1023) :
    ∃ c, Rep (x + y) c ∧ Nearest (a + b) c := by
  have hround := add_roundsTo (canonical_unpack x.toModel) hx.finite (canonical_unpack y.toModel)
    hy.finite
  rw [hx.value, hy.value] at hround
  exact hround.rep h

/-- So is a difference. -/
theorem Rep.sub (hx : Rep x a) (hy : Rep y b) (h : |a - b| ≤ 2 ^ 1023) :
    ∃ c, Rep (x - y) c ∧ Nearest (a - b) c := by
  have hround := sub_roundsTo (canonical_unpack x.toModel) hx.finite (canonical_unpack y.toModel)
    hy.finite
  rw [hx.value, hy.value] at hround
  exact hround.rep h

end

/-- Numbers up to 2 ^ 53 are well within the range. -/
theorem abs_le_top {q : ℚ} (h : |q| ≤ 2 ^ 53) : |q| ≤ 2 ^ 1023 :=
  h.trans (pow_le_pow_right₀ (by norm_num) (by norm_num))

/-- So are natural numbers up to 2 ^ 53. -/
theorem natCast_le_top {n : ℕ} (h : n ≤ 2 ^ 53) : |(n : ℚ)| ≤ 2 ^ 1023 :=
  abs_le_top (by rw [Nat.abs_cast]; exact_mod_cast h)

/-- Words up to 2 ^ 53 are converted exactly. -/
theorem Rep.ofUInt64 {n : UInt64} (h : n.toNat ≤ 2 ^ 53) : Rep n.toFloat n.toNat := by
  have hround : RoundsTo (n.toNat : ℚ) (UnpackedFloat.ofUInt64 Format.binary64 n) := by
    have hround := normalize_roundsTo (n.toNat : ℤ) 0 .positive
    rwa [zpow_zero, mul_one, Int.cast_natCast] at hround
  obtain ⟨c, hrep, hnear⟩ := hround.rep (natCast_le_top h)
  rwa [hnear.eq_of_onGrid (onGrid_natCast h)] at hrep

/-- The bits of one. -/
theorem rep_one : Rep (Float.ofBits 0x3FF0000000000000) 1 := by
  have hunpack : (Float.ofBits 0x3FF0000000000000).toModel.unpack =
      .finite .positive (2 ^ 52) (-52) (by decide) := rfl
  refine ⟨by rw [hunpack]; rfl, ?_⟩
  rw [hunpack]
  show ((2 ^ 52 : ℕ) : ℚ) * 2 ^ (-52 : ℤ) = 1
  norm_num

/-- Integers below `2 ^ 53` are converted exactly. -/
theorem Rep.ofNat {n : ℕ} (h : n < 2 ^ 53) : Rep (Float.ofNat n) n := by
  have hcast : n.toUInt64.toNat = n := by
    rw [Nat.toUInt64, UInt64.toNat_ofNat']
    omega
  have hn := Rep.ofUInt64 (n := n.toUInt64) (by omega)
  rw [hcast] at hn
  obtain ⟨c, hrep, hnear⟩ := hn.mul rep_one (by rw [mul_one]; exact natCast_le_top h.le)
  rw [mul_one] at hnear
  rw [hnear.eq_of_onGrid (onGrid_natCast h.le)] at hrep
  have hdef : Float.ofNat n = n.toUInt64.toFloat * Float.ofBits 0x3FF0000000000000 := by
    show Float.ofScientific n false 0 = _
    unfold Float.ofScientific
    rw [dif_pos ⟨h, by decide⟩]
    rfl
  rwa [hdef]

/-! ## Order -/

/-- With canonical mantissas the larger exponent is the larger number. -/
theorem lt_of_exponent_lt {m n : ℕ} {e f : ℤ} (hm : Fits m e) (hn : Fits n f) (h : e < f) :
    (m : ℚ) * 2 ^ e < n * 2 ^ f := by
  have hbig : 2 ^ 52 ≤ n := hn.full.resolve_right (by have := hm.exponent; omega)
  have hstep : (2 : ℚ) * 2 ^ e ≤ 2 ^ f := by
    rw [← zpow_one_add₀ (by norm_num : (2 : ℚ) ≠ 0)]
    exact zpow_le_zpow_right₀ (by norm_num) (by omega)
  calc (m : ℚ) * 2 ^ e < 2 ^ 53 * 2 ^ e :=
        mul_lt_mul_of_pos_right (by exact_mod_cast hm.mantissa) (by positivity)
    _ = 2 ^ 52 * (2 * 2 ^ e) := by ring
    _ ≤ n * 2 ^ f := mul_le_mul (by exact_mod_cast hbig) hstep (by positivity) (by positivity)

/-- Positive numbers are compared by their exponents, then by their mantissas. -/
theorem magnitude_lt_iff {m n : ℕ} {e f : ℤ} (hm : Fits m e) (hn : Fits n f) :
    (m : ℚ) * 2 ^ e < n * 2 ^ f ↔ e < f ∨ e = f ∧ m < n := by
  rcases lt_trichotomy e f with h | rfl | h
  · exact iff_of_true (lt_of_exponent_lt hm hn h) (.inl h)
  · have hpos : (0 : ℚ) < 2 ^ e := by positivity
    rw [mul_lt_mul_iff_left₀ hpos, Nat.cast_lt]
    simp
  · exact iff_of_false (lt_of_exponent_lt hn hm h).le.not_gt (by omega)

/-- Comparing floats compares their values. -/
theorem compare_lt_iff_value {u v : UnpackedFloat} (hcu : Canonical u) (hu : u.isFinite = true)
    (hcv : Canonical v) (hv : v.isFinite = true) :
    u.compare v = some .lt ↔ value u < value v := by
  have hzero : ∀ s, value (.zero s) = 0 := fun _ => rfl
  have hpos : ∀ m e h, 0 < value (.finite .positive m e h) := by
    intro m e h
    show (0 : ℚ) < m * 2 ^ e
    positivity
  have hneg : ∀ m e h, value (.finite .negative m e h) < 0 := by
    intro m e h
    exact neg_neg_iff_pos.mpr (hpos m e h)
  cases u with
  | notANumber => cases hu
  | infinity s => cases hu
  | zero s =>
    cases v with
    | notANumber => cases hv
    | infinity t => cases hv
    | zero t => simp [UnpackedFloat.compare, hzero]
    | finite t n f hn =>
      cases t with
      | positive => simpa [UnpackedFloat.compare, hzero] using hpos n f hn
      | negative => simpa [UnpackedFloat.compare, hzero] using (hneg n f hn).le
  | finite s m e hm =>
    cases v with
    | notANumber => cases hv
    | infinity t => cases hv
    | zero t =>
      cases s with
      | positive => simpa [UnpackedFloat.compare, hzero] using (hpos m e hm).le
      | negative => simpa [UnpackedFloat.compare, hzero] using hneg m e hm
    | finite t n f hn =>
      cases s <;> cases t
      · simp only [UnpackedFloat.compare, Option.some.injEq, Ordering.swap_eq_lt, then_gt_iff]
        show _ ↔ -((m : ℚ) * 2 ^ e) < -(n * 2 ^ f)
        rw [neg_lt_neg_iff, magnitude_lt_iff hcv.1 hcu.1, eq_comm]
      · exact iff_of_true rfl ((hneg m e hm).trans (hpos n f hn))
      · refine iff_of_false ?_ ((hneg n f hn).trans (hpos m e hm)).not_gt
        simp [UnpackedFloat.compare]
      · simp only [UnpackedFloat.compare, Option.some.injEq, then_lt_iff]
        exact (magnitude_lt_iff hcu.1 hcv.1).symm

/-- The order of floats is that of the numbers they stand for. -/
theorem Rep.lt_iff {x y : Float} {a b : ℚ} (hx : Rep x a) (hy : Rep y b) : x < y ↔ a < b := by
  rw [Float.lt_iff, compare_lt_iff_value (canonical_unpack _) hx.finite (canonical_unpack _)
    hy.finite, hx.value, hy.value]

/-! ## Results out of the range -/

/-- Too large a number is packed as an infinity. -/
theorem pack_eq_infinity {s : Sign} {m : ℕ} {e : ℤ} (hm : 0 < m) (h : 971 < e) :
    Float.Model.pack (.finite s m e hm) = .pack (.infinity s) := by
  have hbias : Format.binary64.exponentBias = 1023 := rfl
  have hbits : UnpackedFloat.pack Format.binary64 (.finite s m e hm) =
      UnpackedFloat.pack Format.binary64 (.infinity s) := by
    unfold UnpackedFloat.pack
    simp only [hbias]
    rw [if_pos]
    push_cast
    omega
  unfold Float.Model.pack
  simp only [hbits]

/-- A result that is not negative is a number, or has left the range. -/
theorem RoundsTo.rep_or_infinity {q : ℚ} {u : UnpackedFloat} (h : RoundsTo q u) (h0 : 0 ≤ q) :
    (∃ c, Rep (.ofModel (.pack u)) c ∧ Nearest q c) ∨
      (Float.Model.pack u).unpack = .infinity .positive := by
  by_cases hq : |q| ≤ 2 ^ 1023
  · exact .inl (h.rep hq)
  · obtain ⟨s, a, ha, rfl, hform, hnear⟩ := h
    have hpos : s = .positive := by
      cases s with
      | positive => rfl
      | negative =>
        have hzero : signed .negative a = 0 := le_antisymm (neg_nonpos.mpr ha) h0
        rw [hzero, abs_zero] at hq
        exact absurd (by positivity) hq
    subst hpos
    rcases hform with rfl | ⟨m, e, hm, rfl, hfits⟩
    · exact .inl ⟨0, ⟨rfl, rfl⟩, hnear⟩
    · rcases le_or_gt e 971 with hle | hlt
      · have hunpack := unpack_pack_finite (s := .positive) hm hfits hle
        exact .inl ⟨_, ⟨by rw [hunpack]; rfl, rfl⟩, by rw [hunpack]; exact hnear⟩
      · right
        rw [pack_eq_infinity hm hlt]
        rfl

/-- Nothing is above infinity. -/
theorem not_lt_of_infinity {x : Float} (h : x.toModel.unpack = .infinity .positive) (y : Float) :
    ¬ x < y := by
  rw [Float.lt_iff, h]
  cases y.toModel.unpack with
  | infinity s => cases s <;> exact fun h => nomatch h
  | _ => exact fun h => nomatch h

/-- Infinity less a finite number is infinity. -/
theorem infinity_sub {x y : Float} (h : x.toModel.unpack = .infinity .positive)
    (hy : y.toModel.unpack.isFinite = true) :
    (x - y).toModel.unpack = .infinity .positive := by
  have hpack : (Float.Model.pack (.infinity .positive)).unpack = .infinity .positive := rfl
  change (Float.Model.pack (UnpackedFloat.sub Format.binary64 x.toModel.unpack
    y.toModel.unpack)).unpack = _
  rw [h]
  cases hu : y.toModel.unpack with
  | notANumber =>
    rw [hu] at hy
    cases hy
  | infinity s =>
    rw [hu] at hy
    cases hy
  | zero s => exact hpack
  | finite s m e hm => exact hpack

/-- A float stands for a number of the grid. -/
theorem Rep.onGrid {x : Float} {a : ℚ} (hx : Rep x a) : OnGrid a := by
  obtain ⟨_, _, _, _, hround⟩ := roundsTo_value (canonical_unpack x.toModel) hx.finite
  rw [← hx.value]
  exact hround.nearest.grid

/-- What is at least `b` is not rounded below it. -/
theorem RoundsTo.not_lt_of_le {q b : ℚ} {u : UnpackedFloat} {y : Float} (h : RoundsTo q u)
    (hy : Rep y b) (h0 : 0 ≤ b) (hb : b ≤ q) : ¬ Float.ofModel (.pack u) < y := by
  rcases h.rep_or_infinity (h0.trans hb) with ⟨c, hc, hnear⟩ | hinf
  · rw [hc.lt_iff hy]
    exact not_lt.mpr (hnear.ge_of_ge hy.onGrid hb)
  · exact not_lt_of_infinity hinf y

/-! ## Products that are not zero -/

/-- The absolute value is exact. -/
theorem Rep.abs {x : Float} {a : ℚ} (hx : Rep x a) : Rep x.abs |a| := by
  have hc := canonical_unpack x.toModel
  obtain ⟨hfin, rfl⟩ := hx
  show Rep (.ofModel (.pack x.toModel.unpack.abs)) _
  cases hu : x.toModel.unpack with
  | notANumber =>
    rw [hu] at hfin
    cases hfin
  | infinity s =>
    rw [hu] at hfin
    cases hfin
  | zero s =>
    have hunpack : (Float.Model.pack (.zero .positive)).unpack = .zero .positive := rfl
    refine ⟨by rw [UnpackedFloat.abs, hunpack]; rfl, ?_⟩
    rw [UnpackedFloat.abs, hunpack]
    exact abs_zero.symm
  | finite s m e hm =>
    rw [hu] at hc
    have hunpack := unpack_pack_finite (s := .positive) hm hc.1 hc.2
    refine ⟨by rw [UnpackedFloat.abs, hunpack]; rfl, ?_⟩
    rw [UnpackedFloat.abs, hunpack]
    exact (abs_signed s (mul_nonneg (Nat.cast_nonneg m) (zpow_pos (by norm_num) e).le)).symm

/-- Truncation of a number that is not negative. -/
theorem roundToInt_floor (m : ℕ) (e : ℤ) :
    (roundToInt .positive m e).toNat = ⌊(m : ℚ) * 2 ^ e⌋₊ := by
  unfold roundToInt decreaseExponent shiftToExponent
  simp only
  rw [mantissa_shiftRight, mantissa_ofMantissaAndAccuracy]
  show ((m <<< (e - 0).toNat / 2 ^ (0 - (e - ((e - 0).toNat : ℤ))).toNat : ℕ) : ℤ).toNat = _
  rw [Int.toNat_natCast, Nat.shiftLeft_eq]
  rcases le_total 0 e with he | he
  · rw [show (0 - (e - ((e - 0).toNat : ℤ))).toNat = 0 by omega, pow_zero, Nat.div_one]
    have hcast : (m : ℚ) * 2 ^ e = ((m * 2 ^ (e - 0).toNat : ℕ) : ℚ) := by
      push_cast
      rw [← zpow_natCast, Int.toNat_of_nonneg (by omega), sub_zero]
    rw [hcast, Nat.floor_natCast]
  · rw [show (e - 0).toNat = 0 by omega, pow_zero, mul_one]
    have hcast : (m : ℚ) * 2 ^ e = (m : ℚ) / ((2 ^ (0 - (e - ((0 : ℕ) : ℤ))).toNat : ℕ) : ℚ) := by
      push_cast
      rw [← zpow_natCast, Int.toNat_of_nonneg (by omega), div_eq_mul_inv, ← zpow_neg]
      congr 2
      ring
    rw [hcast, Nat.floor_div_natCast, Nat.floor_natCast]

/-- The conversion to a word drops the fraction. -/
theorem Rep.toUInt64 {x : Float} {a : ℚ} (hx : Rep x a) (h0 : 0 ≤ a) (h : a < 2 ^ 64) :
    x.toUInt64.toNat = ⌊a⌋₊ := by
  have hlt : ⌊a⌋₊ < 2 ^ 64 := by
    rw [Nat.floor_lt h0]
    exact_mod_cast h
  obtain ⟨hfin, rfl⟩ := hx
  have hint : (x.toModel.unpack.toInt 0 (UInt64.size - 1)).toNat =
      ⌊Lib.value x.toModel.unpack⌋₊ := by
    cases hu : x.toModel.unpack with
    | notANumber =>
      rw [hu] at hfin
      cases hfin
    | infinity s =>
      rw [hu] at hfin
      cases hfin
    | zero s => exact Nat.floor_zero.symm
    | finite s m e hm =>
      cases s with
      | positive => exact roundToInt_floor m e
      | negative =>
        rw [hu] at h0
        have hneg : Lib.value (.finite .negative m e hm) < 0 := by
          show -((m : ℚ) * 2 ^ e) < 0
          rw [neg_neg_iff_pos]
          positivity
        exact absurd h0 (not_le.mpr hneg)
  show (UInt64.ofNatClamp (x.toModel.unpack.toInt 0 (UInt64.size - 1)).toNat).toNat = _
  rw [hint, UInt64.ofNatClamp, dif_pos (show _ < UInt64.size from hlt)]
  rfl

/-- The float zero. -/
theorem rep_zero : Rep 0.0 0 := ⟨rfl, rfl⟩

/-- The bound of the exact integers. -/
theorem rep_two_pow : Rep 4503599627370496.0 (2 ^ 52) := by
  have hunpack : (4503599627370496.0 : Float).toModel.unpack =
      .finite .positive (2 ^ 52) 0 (by decide) := rfl
  refine ⟨by rw [hunpack]; rfl, ?_⟩
  rw [hunpack]
  show ((2 ^ 52 : ℕ) : ℚ) * 2 ^ (0 : ℤ) = 2 ^ 52
  norm_num

/-- The float one. -/
theorem rep_float_one : Rep 1.0 1 := by
  have hunpack : (1.0 : Float).toModel.unpack =
      .finite .positive (2 ^ 52) (-52) (by decide) := rfl
  refine ⟨by rw [hunpack]; rfl, ?_⟩
  rw [hunpack]
  show ((2 ^ 52 : ℕ) : ℚ) * 2 ^ (-52 : ℤ) = 1
  norm_num

/-- From `2 ^ 52` on every number of the grid is an integer. -/
theorem OnGrid.integer {q : ℚ} (h : OnGrid q) (hq : 2 ^ 52 ≤ q) : ∃ n : ℤ, q = n := by
  obtain ⟨m, e, hm, -, rfl⟩ := h
  rcases le_or_gt 0 e with he | he
  · refine ⟨m * 2 ^ e.toNat, ?_⟩
    push_cast
    rw [← zpow_natCast, Int.toNat_of_nonneg he]
  · have hhalf : (2 : ℚ) ^ e ≤ 2 ^ (-1 : ℤ) := zpow_le_zpow_right₀ (by norm_num) (by omega)
    have hm' : (m : ℚ) ≤ 2 ^ 53 := by exact_mod_cast (abs_le.mp hm).2
    refine ⟨2 ^ 52, le_antisymm ?_ (by push_cast; exact hq)⟩
    calc (m : ℚ) * 2 ^ e ≤ 2 ^ 53 * 2 ^ e :=
          mul_le_mul_of_nonneg_right hm' (zpow_pos (by norm_num) e).le
      _ ≤ 2 ^ 53 * 2 ^ (-1 : ℤ) := mul_le_mul_of_nonneg_left hhalf (by norm_num)
      _ = ((2 ^ 52 : ℤ) : ℚ) := by norm_num

/-- `ceil` is exact. -/
theorem Rep.ceil {x : Float} {a : ℚ} (hx : Rep x a) (h0 : 0 ≤ a) :
    Rep (floatCeil x) ⌈a⌉₊ := by
  have hneg : ¬ x < 0.0 := by
    rw [hx.lt_iff rep_zero]
    exact not_lt.mpr h0
  have hbig : x.abs < 4503599627370496.0 ↔ a < 2 ^ 52 := by
    rw [hx.abs.lt_iff rep_two_pow, abs_of_nonneg h0]
  unfold floatCeil
  by_cases hsmall : x.abs < 4503599627370496.0
  · rw [if_neg (not_not.mpr hsmall), if_neg hneg]
    have ha := hbig.mp hsmall
    have hfloor : x.toUInt64.toNat = ⌊a⌋₊ := hx.toUInt64 h0 (ha.trans (by norm_num))
    have hle : ⌊a⌋₊ < 2 ^ 52 := (Nat.floor_lt h0).mpr (by exact_mod_cast ha)
    have hrep := Rep.ofUInt64 (n := x.toUInt64) (by omega)
    rw [hfloor] at hrep
    have hiff := hrep.lt_iff hx
    split_ifs with hlt
    · have hceil : ⌈a⌉₊ = ⌊a⌋₊ + 1 := by
        rw [Nat.ceil_eq_iff (by omega), Nat.add_sub_cancel]
        exact ⟨hiff.mp hlt, by exact_mod_cast (Nat.lt_floor_add_one a).le⟩
      have hsum : ((⌊a⌋₊ : ℕ) : ℚ) + 1 = ((⌊a⌋₊ + 1 : ℕ) : ℚ) := by push_cast; rfl
      obtain ⟨c, hc, hnear⟩ := hrep.add rep_float_one
        (by rw [hsum]; exact natCast_le_top (by omega))
      rw [hsum] at hnear
      rw [hceil, ← hnear.eq_of_onGrid (onGrid_natCast (by omega))]
      exact hc
    · have heq : a = (⌊a⌋₊ : ℕ) :=
        le_antisymm (not_lt.mp fun h => hlt (hiff.mpr h)) (Nat.floor_le h0)
      rw [show ⌈a⌉₊ = ⌊a⌋₊ by rw [heq, Nat.ceil_natCast, Nat.floor_natCast]]
      exact hrep
  · rw [if_pos hsmall]
    obtain ⟨n, rfl⟩ := hx.onGrid.integer (not_lt.mp fun h => hsmall (hbig.mpr h))
    obtain ⟨k, rfl⟩ := Int.eq_ofNat_of_zero_le (show 0 ≤ n by exact_mod_cast h0)
    rw [Int.cast_natCast, Nat.ceil_natCast]
    exact_mod_cast hx

end Lib
