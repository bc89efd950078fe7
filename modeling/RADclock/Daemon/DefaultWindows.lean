import Mathlib.Data.Nat.Cast.Order.Field
import RADclock.Daemon.Config
import RADclock.Lib.Rounding
import RADclock.Sync.Windows

/-!
# The windows of the default metaparameters

Two quotients by the polling period make the windows: that of the offset window is truncated, that
of the shift window is rounded up. Neither is rounded past a number of the grid, so that quotients
of natural numbers bound the windows.
-/

namespace RADclock

open Lib

/-! ## The two dividends -/

theorem rep_shiftSeconds :
    Rep (10.0 * (defaultMetaparam : Metaparam Float).TSLIMIT / 1e-7) (1500 + 2 ^ (-42 : ℤ)) := by
  have hbits : 10.0 * (defaultMetaparam : Metaparam Float).TSLIMIT / 1e-7 =
      Float.ofBits 0x4097700000000001 := by decide
  have hunpack : (Float.ofBits 0x4097700000000001).toModel.unpack =
      .finite .positive (1500 * 2 ^ 42 + 1) (-42) (by decide) := rfl
  rw [hbits]
  refine ⟨by rw [hunpack]; rfl, ?_⟩
  rw [hunpack]
  show ((1500 * 2 ^ 42 + 1 : ℕ) : ℚ) * 2 ^ (-42 : ℤ) = _
  norm_num

theorem rep_skmScale : Rep (defaultMetaparam : Metaparam Float).SKM_SCALE 1024 := by
  have hbits : (defaultMetaparam : Metaparam Float).SKM_SCALE =
    Float.ofBits 0x4090000000000000 := by
    decide
  have hunpack : (Float.ofBits 0x4090000000000000).toModel.unpack =
      .finite .positive (2 ^ 52) (-42) (by decide) := rfl
  rw [hbits]
  refine ⟨by rw [hunpack]; rfl, ?_⟩
  rw [hunpack]
  show ((2 ^ 52 : ℕ) : ℚ) * 2 ^ (-42 : ℤ) = _
  norm_num

/-! ## The windows -/

section

variable {p : Nat}

/-- A quotient of a dividend of some thousands, and its rounding. -/
theorem Rep.divNat {x : Float} {a : ℚ} (hx : Rep x a) (h0 : 0 ≤ a) (ha : a ≤ 2 ^ 53) (hp : 1 ≤ p)
    (hp' : p ≤ 1024) : ∃ c, Rep (x / Float.ofNat p) c ∧ Nearest (a / p) c := by
  have hp1 : (1 : ℚ) ≤ p := by exact_mod_cast hp
  refine hx.div (Rep.ofNat (by omega)) (by positivity) ?_
  rw [abs_of_nonneg (by positivity)]
  calc a / p ≤ a := div_le_self h0 hp1
    _ ≤ 2 ^ 53 := ha
    _ ≤ 2 ^ 1023 := pow_le_pow_right₀ (by norm_num) (by norm_num)

/-- The quotient of the offset window is not rounded below an integer. -/
theorem le_offset (hp : 1 ≤ p) (hp' : p ≤ 1024) :
    1024 / p ≤ baseOffsetWin (defaultMetaparam : Metaparam Float) p := by
  obtain ⟨c, hc, hnear⟩ := Rep.divNat rep_skmScale (by norm_num) (by norm_num) hp hp'
  have hlow : ((1024 / p : ℕ) : ℚ) ≤ c := by
    refine hnear.ge_of_ge (onGrid_natCast ((Nat.div_le_self _ _).trans (by norm_num))) ?_
    exact_mod_cast (Nat.cast_div_le (α := ℚ) (m := 1024) (n := p))
  have h0 : 0 ≤ c := (Nat.cast_nonneg _).trans hlow
  have hhigh : c ≤ 1024 := by
    refine hnear.le_of_le (by exact_mod_cast onGrid_natCast (n := 1024) (by norm_num)) ?_
    exact div_le_self (by norm_num) (by exact_mod_cast hp)
  have htrunc := hc.toUInt64 h0 (hhigh.trans_lt (by norm_num))
  refine le_trans ?_ (Nat.le_max_left _ _)
  show 1024 / p ≤ (_ : Float).toUInt64.toNat
  exact htrunc ▸ Nat.le_floor hlow

/-- Nor is it rounded above a number of the grid. -/
theorem offset_le (hp : 1 ≤ p) (hp' : p ≤ 1024) {d : ℚ} (hd : OnGrid d) (h : 1024 / p ≤ d)
    (h2 : 2 ≤ d) : (baseOffsetWin (defaultMetaparam : Metaparam Float) p : ℚ) ≤ d := by
  obtain ⟨c, hc, hnear⟩ := Rep.divNat rep_skmScale (by norm_num) (by norm_num) hp hp'
  have h0 : 0 ≤ c := hnear.ge_of_ge ⟨0, 0, by norm_num, by norm_num, by norm_num⟩ (by positivity)
  have hhigh : c ≤ 1024 := by
    refine hnear.le_of_le (by exact_mod_cast onGrid_natCast (n := 1024) (by norm_num)) ?_
    exact div_le_self (by norm_num) (by exact_mod_cast hp)
  have htrunc : Arith.toNat ((defaultMetaparam : Metaparam Float).SKM_SCALE / Arith.ofNat p) =
      ⌊c⌋₊ := hc.toUInt64 h0 (hhigh.trans_lt (by norm_num))
  unfold baseOffsetWin
  rw [htrunc, Nat.cast_max]
  exact max_le ((Nat.floor_le h0).trans (hnear.le_of_le hd h)) h2

/-- The shift window does not go past the next integer. -/
theorem shift_le (hp : 1 ≤ p) (hp' : p ≤ 1024) :
    baseShiftWin (defaultMetaparam : Metaparam Float) p ≤ max (1500 / p + 1) 100 := by
  obtain ⟨c, hc, hnear⟩ := Rep.divNat rep_shiftSeconds (by positivity) (by norm_num) hp hp'
  have hp0 : (0 : ℚ) < p := by exact_mod_cast hp
  have h0 : 0 ≤ c := hnear.ge_of_ge ⟨0, 0, by norm_num, by norm_num, by norm_num⟩ (by positivity)
  have hhigh : c ≤ ((1500 / p + 1 : ℕ) : ℚ) := by
    refine hnear.le_of_le (onGrid_natCast ?_) ?_
    · have := Nat.div_le_self 1500 p
      omega
    · have hmod : 1501 ≤ (1500 / p + 1) * p := by
        have := Nat.div_add_mod 1500 p
        have := Nat.mod_lt 1500 hp
        rw [Nat.add_mul, Nat.mul_comm]
        omega
      have hmod' : (1501 : ℚ) ≤ ((1500 / p + 1 : ℕ) : ℚ) * p := by exact_mod_cast hmod
      rw [div_le_iff₀ hp0]
      exact le_trans (by norm_num) hmod'
  have hle : ⌈c⌉₊ ≤ 1500 / p + 1 := Nat.ceil_le.mpr hhigh
  have hdiv := Nat.div_le_self 1500 p
  have hceil : Arith.toNat (Arith.ceil
      (10.0 * (defaultMetaparam : Metaparam Float).TSLIMIT / 1e-7 / Arith.ofNat p)) = ⌈c⌉₊ := by
    have htrunc := (hc.ceil h0).toUInt64 (Nat.cast_nonneg _)
      (by exact_mod_cast (show ⌈c⌉₊ < 2 ^ 64 by omega))
    rwa [Nat.floor_natCast] at htrunc
  unfold baseShiftWin
  rw [hceil]
  exact max_le_max_right 100 hle

end

/-- The windows of every polling period. -/
theorem default_room : ∀ pollPeriod < 1025, 1 ≤ pollPeriod →
    (firstWindows (defaultMetaparam : Metaparam Float) pollPeriod).warmupWin < 2 ^ 32 ∧
      ((firstWindows (defaultMetaparam : Metaparam Float) pollPeriod).shiftWin + 2 ≤
          (firstWindows (defaultMetaparam : Metaparam Float) pollPeriod).warmupWin ↔
        pollPeriod ≤ 73) := by
  intro p hp' hp
  have hp' := Nat.le_of_lt_succ hp'
  have hp0 : (0 : ℚ) < p := by exact_mod_cast hp
  have hlow := le_offset hp hp'
  have hshift := shift_le hp hp'
  have h100 : 100 ≤ baseShiftWin (defaultMetaparam : Metaparam Float) p := Nat.le_max_right _ _
  have hhigh : baseOffsetWin (defaultMetaparam : Metaparam Float) p ≤ 1024 := by
    have hle := offset_le hp hp' (d := 1024) (onGrid_natCast (n := 1024) (by norm_num))
      (div_le_self (by norm_num) (by exact_mod_cast hp)) (by norm_num)
    exact_mod_cast hle
  have hdiv := Nat.div_le_self 1500 p
  have hwarm : (firstWindows (defaultMetaparam : Metaparam Float) p).warmupWin = max 100
      (max (baseOffsetWin (defaultMetaparam : Metaparam Float) p)
        (max (baseShiftWin (defaultMetaparam : Metaparam Float) p)
          (basePlocalWin (defaultMetaparam : Metaparam Float) p +
            basePlocalWin (defaultMetaparam : Metaparam Float) p / (plocalWinratio / 2)))) :=
    adjustedWarmup_zero p _
  rw [hwarm]
  show _ ∧ (baseShiftWin (defaultMetaparam : Metaparam Float) p + 2 ≤ _ ↔ _)
  unfold basePlocalWin plocalWinratio
  refine ⟨by omega, fun h => ?_, fun h => ?_⟩
  · by_contra h74
    -- the offset window has 13 samples at most
    have h13 : baseOffsetWin (defaultMetaparam : Metaparam Float) p ≤ 13 := by
      have hp74 : (74 : ℚ) ≤ p := by exact_mod_cast (show 74 ≤ p by omega)
      have hle := offset_le hp hp' (d := 111 * 2 ^ (-3 : ℤ)) ⟨111, -3, by norm_num, by norm_num,
        by norm_num⟩ (by rw [div_le_iff₀ hp0]; norm_num; linarith) (by norm_num)
      have hlt : (baseOffsetWin (defaultMetaparam : Metaparam Float) p : ℚ) < 14 :=
        hle.trans_lt (by norm_num)
      have hlt : baseOffsetWin (defaultMetaparam : Metaparam Float) p < 14 := by exact_mod_cast hlt
      omega
    have hdiv : 1500 / p ≤ 1500 / 74 := Nat.div_le_div_left (by omega) (by omega)
    omega
  · have hroom : ∀ p < 74, 1 ≤ p →
        max (1500 / p + 1) 100 + 2 ≤ 1024 / p * 5 + 1024 / p * 5 / 2 := by decide
    have hroom := hroom p (by omega) hp
    have hspan : 1024 / p * 5 + 1024 / p * 5 / 2 ≤
        max (baseOffsetWin (defaultMetaparam : Metaparam Float) p * 5) 4 +
          max (baseOffsetWin (defaultMetaparam : Metaparam Float) p * 5) 4 / (5 / 2) := by omega
    omega

end RADclock
