import Mathlib.Data.Rat.Cast.Order
import Mathlib.Tactic.NormNum
import RADclock.Kernel.Readings
import RADclock.Lib.Runs

/-!
# Bounds on the clock error

The error bound is meant to be `errb_abs` nanoseconds plus `errb_rate` picoseconds for each second
since the update. What is computed differs in three places:

- the rate, as a fraction of a second, is cut to 32 bits and multiplies the elapsed time as a whole
  number: it is never scaled down;
- `errb_abs` is converted to a fraction of a second, which wraps from one second on;
- over a tick without update the error is added to what the next slot holds, not to that of the
  previous tick.

- `ErrorIs`: the bound meant, up to truncation.
- `errorBound_iff`: what a data set needs for the bound to be right at every counter value.
- `TickErrorKept`, `TickErrorCond`: the error kept with the tick.
-/

namespace RADclock.Kernel

open Lib

/-- The bound meant, in units of `2 ^ -64` seconds. -/
def errorSpec (errbAbs errbRate : BitVec 32) (elapsed : Nat) : ℚ :=
  errbAbs.toNat * 2 ^ 64 / 10 ^ 9 + errbRate.toNat * elapsed / 10 ^ 12

/-- Equal up to truncation: of the result, of a nanosecond and of a picosecond per second as
multiples of `2 ^ -64`. -/
def ErrorIs (err : Bintime) (errbAbs errbRate : BitVec 32) (elapsed : Nat) : Prop :=
  (err.val.toNat : ℚ) ≤ errorSpec errbAbs errbRate elapsed ∧
    errorSpec errbAbs errbRate elapsed <
      err.val.toNat + 1 + errbAbs.toNat + errbRate.toNat * elapsed / 2 ^ 64

instance (err : Bintime) (errbAbs errbRate : BitVec 32) (elapsed : Nat) :
    Decidable (ErrorIs err errbAbs errbRate elapsed) := inferInstanceAs (Decidable (_ ∧ _))

/-- Without fractions. -/
theorem errorIs_iff (err : Bintime) (errbAbs errbRate : BitVec 32) (elapsed : Nat) :
    ErrorIs err errbAbs errbRate elapsed ↔
      10 ^ 12 * err.val.toNat ≤ 1000 * 2 ^ 64 * errbAbs.toNat + errbRate.toNat * elapsed ∧
      2 ^ 64 * (1000 * 2 ^ 64 * errbAbs.toNat + errbRate.toNat * elapsed) <
        2 ^ 64 * 10 ^ 12 * (err.val.toNat + 1 + errbAbs.toNat) +
          10 ^ 12 * (errbRate.toNat * elapsed) := by
  have hspec : errorSpec errbAbs errbRate elapsed =
      ((1000 * 2 ^ 64 * errbAbs.toNat + errbRate.toNat * elapsed : Nat) : ℚ) / 10 ^ 12 := by
    rw [errorSpec]
    push_cast
    ring
  have htol : (err.val.toNat + 1 + errbAbs.toNat + errbRate.toNat * elapsed / 2 ^ 64 : ℚ) =
      ((2 ^ 64 * (err.val.toNat + 1 + errbAbs.toNat) + errbRate.toNat * elapsed : Nat) : ℚ) /
        2 ^ 64 := by
    push_cast
    ring
  rw [ErrorIs, hspec, htol, le_div_iff₀ (by norm_num), div_lt_div_iff₀ (by norm_num) (by norm_num)]
  refine and_congr ?_ ?_
  · rw [← Nat.cast_le (α := ℚ)]
    push_cast
    constructor <;> intro h <;> linarith
  · rw [← Nat.cast_lt (α := ℚ)]
    push_cast
    constructor <;> intro h <;> linarith

/-! ## What is computed -/

/-- The factor of the elapsed time. -/
def rateFactor (errbRate : BitVec 32) : BitVec 32 :=
  (errbRate.setWidth 64 * PS_AS_BINFRAC).setWidth 32

theorem toNat_rateFactor (errbRate : BitVec 32) :
    (rateFactor errbRate).toNat = errbRate.toNat * 18446744 % 2 ^ 32 := by
  have hps : PS_AS_BINFRAC.toNat = 18446744 := rfl
  have hlt := errbRate.isLt
  rw [rateFactor, BitVec.toNat_setWidth, BitVec.toNat_mul, hps, BitVec.toNat_setWidth]
  omega

theorem toNat_abs (errbAbs : BitVec 32) :
    (errbAbs.setWidth 64 * NS_AS_BINFRAC).toNat = errbAbs.toNat * 18446744073 % 2 ^ 64 := by
  have hns : NS_AS_BINFRAC.toNat = 18446744073 := rfl
  rw [BitVec.toNat_mul, hns, BitVec.toNat_setWidth_of_le (by decide)]

/-- The bound computed from an elapsed time. -/
def computedError (elapsed : Bintime) (errbAbs errbRate : BitVec 32) : Bintime :=
  (elapsed.mul (rateFactor errbRate)).addx (errbAbs.setWidth 64 * NS_AS_BINFRAC)

theorem toNat_computedError (ffdelta period : BitVec 64) (errbAbs errbRate : BitVec 32) :
    (computedError (ffclockConvertDelta ffdelta period) errbAbs errbRate).val.toNat =
      (ffdelta.toNat * period.toNat * (errbRate.toNat * 18446744 % 2 ^ 32) +
        errbAbs.toNat * 18446744073 % 2 ^ 64) % 2 ^ 128 := by
  rw [computedError, Bintime.val_addx, Bintime.val_mul, val_convertDelta, BitVec.toNat_add,
    BitVec.toNat_mul, toNat_product, BitVec.toNat_setWidth_of_le (by decide), toNat_rateFactor,
    BitVec.toNat_setWidth_of_le (by decide), toNat_abs, Nat.mod_add_mod]

/-- With nothing for the rate to multiply. -/
theorem computedError_ok {ffdelta period : BitVec 64} {errbAbs errbRate : BitVec 32}
    (habs : errbAbs.toNat ≤ 10 ^ 9) (hrate : errbRate = 0 ∨ product ffdelta period = 0) :
    ErrorIs (computedError (ffclockConvertDelta ffdelta period) errbAbs errbRate) errbAbs errbRate
      (product ffdelta period).toNat := by
  have hzero : errbRate.toNat = 0 ∨ ffdelta.toNat * period.toNat = 0 := by
    rcases hrate with rfl | h
    · exact .inl rfl
    · exact .inr (by rw [← toNat_product, h]; rfl)
  have hnone : errbRate.toNat * (ffdelta.toNat * period.toNat) = 0 := Nat.mul_eq_zero.mpr hzero
  have hcomputed : ffdelta.toNat * period.toNat * (errbRate.toNat * 18446744 % 2 ^ 32) = 0 := by
    rcases hzero with h | h
    · rw [h, Nat.zero_mul, Nat.zero_mod, Nat.mul_zero]
    · rw [h, Nat.zero_mul]
  have habs' : errbAbs.toNat * 18446744073 < 2 ^ 64 := by omega
  rw [errorIs_iff, toNat_computedError, toNat_product, hnone, hcomputed, Nat.zero_add,
    Nat.mod_eq_of_lt habs', Nat.mod_eq_of_lt (by omega)]
  omega

/-- Right after the update only `errb_abs` counts, and it must not wrap. -/
theorem abs_le_of_ok {period : BitVec 64} {errbAbs errbRate : BitVec 32}
    (h : ErrorIs (computedError (ffclockConvertDelta 0 period) errbAbs errbRate) errbAbs errbRate
      (product 0 period).toNat) : errbAbs.toNat ≤ 10 ^ 9 := by
  rw [errorIs_iff, toNat_computedError, product_zero, show (0 : BitVec 64).toNat = 0 from rfl,
    show (0 : BitVec 128).toNat = 0 from rfl, Nat.zero_mul, Nat.zero_mul, Nat.zero_add,
    Nat.mul_zero] at h
  have hlt := Nat.mod_lt (errbAbs.toNat * 18446744073) (show 0 < 2 ^ 64 by decide)
  rw [Nat.mod_eq_of_lt (show errbAbs.toNat * 18446744073 % 2 ^ 64 < 2 ^ 128 by omega)] at h
  omega

/-- The factor vanishes for multiples of `2 ^ 29` only: `PS_AS_BINFRAC` is eight times an odd
number. -/
theorem dvd_of_factor_eq_zero {r : Nat} (h : r * 18446744 % 2 ^ 32 = 0) : 2 ^ 29 ∣ r := by
  have height : 2 ^ 29 * 8 ∣ r * 2305843 * 8 := by
    rw [Nat.mul_assoc]
    exact Nat.dvd_of_mod_eq_zero h
  have hodd : Nat.Coprime (2 ^ 29) 2305843 := Nat.Coprime.pow_left 29 (by decide)
  exact hodd.dvd_of_dvd_mul_right (Nat.dvd_of_mul_dvd_mul_right (by decide) height)

/-- A factor that is not zero is at least one whole second for each second. -/
theorem rate_eq_zero_of_ok {period : BitVec 64} {errbAbs errbRate : BitVec 32}
    (hperiod : period ≠ 0) (habs : errbAbs.toNat ≤ 10 ^ 9)
    (h : ∀ ffdelta, ErrorIs (computedError (ffclockConvertDelta ffdelta period) errbAbs errbRate)
      errbAbs errbRate (product ffdelta period).toNat) : errbRate = 0 := by
  have hp : 0 < period.toNat := Nat.pos_of_ne_zero fun hzero =>
    hperiod (BitVec.eq_of_toNat_eq hzero)
  have hpLt := period.isLt
  have hrateLt := errbRate.isLt
  have hfactor := Nat.mod_lt (errbRate.toNat * 18446744) (show 0 < 2 ^ 32 by decide)
  have habs' : errbAbs.toNat * 18446744073 % 2 ^ 64 = errbAbs.toNat * 18446744073 :=
    Nat.mod_eq_of_lt (by omega)
  by_contra hne
  have hrate : 0 < errbRate.toNat := Nat.pos_of_ne_zero fun hzero =>
    hne (BitVec.eq_of_toNat_eq hzero)
  by_cases hcut : errbRate.toNat * 18446744 % 2 ^ 32 = 0
  · -- The 32 bits that are kept are all zero: nothing is added, however long it takes.
    have hbig : 2 ^ 29 ≤ errbRate.toNat := Nat.le_of_dvd hrate (dvd_of_factor_eq_zero hcut)
    obtain ⟨-, hup⟩ := (errorIs_iff _ _ _ _).mp (h (1#64 <<< 63))
    rw [toNat_computedError, toNat_product, hcut, habs', Nat.mul_zero, Nat.zero_add,
      show (1#64 <<< 63 : BitVec 64).toNat = 2 ^ 63 from rfl, Nat.mod_eq_of_lt (by omega)] at hup
    have hgrows : 2 ^ 29 * 1 ≤ errbRate.toNat * period.toNat := Nat.mul_le_mul hbig hp
    have hcomm : errbRate.toNat * (2 ^ 63 * period.toNat) =
        2 ^ 63 * (errbRate.toNat * period.toNat) := by ring
    rw [hcomm] at hup
    omega
  · -- Some are not, and the elapsed time is multiplied by them.
    have hpos : 0 < errbRate.toNat * 18446744 % 2 ^ 32 := Nat.pos_of_ne_zero hcut
    obtain ⟨hlow, -⟩ := (errorIs_iff _ _ _ _).mp (h (1#64 <<< 30))
    have hgrows : period.toNat * 1 ≤ period.toNat * (errbRate.toNat * 18446744 % 2 ^ 32) :=
      Nat.mul_le_mul_left _ hpos
    have hfits : period.toNat * (errbRate.toNat * 18446744 % 2 ^ 32) < 2 ^ 64 * 2 ^ 32 :=
      Nat.mul_lt_mul'' hpLt hfactor
    have hmeant : errbRate.toNat * period.toNat ≤ 2 ^ 32 * period.toNat :=
      Nat.mul_le_mul_right _ hrateLt.le
    have hcomm : errbRate.toNat * (2 ^ 30 * period.toNat) =
        2 ^ 30 * (errbRate.toNat * period.toNat) := by ring
    rw [toNat_computedError, toNat_product, habs', show (1#64 <<< 30 : BitVec 64).toNat =
      2 ^ 30 from rfl,
      Nat.mul_assoc (2 ^ 30), hcomm] at hlow
    rw [Nat.mod_eq_of_lt (by omega)] at hlow
    omega

/-- The bound that `ffclock_abstime` returns is right at every counter value exactly when
`errb_abs` is a second at most and there is no rate to apply. -/
theorem errorBound_iff (s : FfState) :
    (∀ flags counter, ErrorIs (ffclockAbstime flags counter s).2.2 s.ffclockData.errbAbs
      s.ffclockData.errbRate
      (product ((ffclockAbstime flags counter s).1 - s.ffclockData.updateFfcount)
        s.tick.cdat.period).toNat) ↔
    s.ffclockData.errbAbs.toNat ≤ 10 ^ 9 ∧
      (s.ffclockData.errbRate = 0 ∨ s.tick.cdat.period = 0) := by
  constructor
  · intro h
    -- the counter may stand at any distance from the last update
    have hdelta : ∀ ffdelta, ErrorIs
        (computedError (ffclockConvertDelta ffdelta s.tick.cdat.period) s.ffclockData.errbAbs
          s.ffclockData.errbRate) s.ffclockData.errbAbs s.ffclockData.errbRate
        (product ffdelta s.tick.cdat.period).toNat := by
      intro ffdelta
      have hcounter := h 0 (s.ffclockData.updateFfcount + ffdelta)
      have hsub : s.ffclockData.updateFfcount + ffdelta - s.ffclockData.updateFfcount =
        ffdelta := by
        ring
      simp only [ffclockAbstime, show has 0 FFCLOCK_FAST = false from rfl, Bool.false_eq_true,
        if_false, ffclockConvertDiff, hsub] at hcounter
      exact hcounter
    have habs := abs_le_of_ok (hdelta 0)
    refine ⟨habs, ?_⟩
    by_cases hperiod : s.tick.cdat.period = 0
    · exact .inr hperiod
    · exact .inl (rate_eq_zero_of_ok hperiod habs hdelta)
  · -- a rate or a period of 0 lets the computed bound stand still, as the true one does
    rintro ⟨habs, hrate⟩ flags counter
    refine computedError_ok habs (hrate.imp_right fun hperiod => ?_)
    rw [hperiod]
    exact mul_zero _

/-! ## The error kept with the tick -/

/-- The time from the update to the start of the tick. -/
def Fftimehands.sinceUpdate (ffth : Fftimehands) : Nat :=
  (product (ffth.tickFfcount - ffth.cdat.updateFfcount) ffth.cdat.period).toNat

def TickErrorOk (ffth : Fftimehands) : Prop :=
  ErrorIs ffth.tickError ffth.cdat.errbAbs ffth.cdat.errbRate ffth.sinceUpdate

instance (ffth : Fftimehands) : Decidable (TickErrorOk ffth) :=
  inferInstanceAs (Decidable (ErrorIs _ _ _ _))

/-- The error grows at the rate, up to truncation. -/
def ErrorGrows (err err' : Bintime) (errbRate : BitVec 32) (elapsed : Nat) : Prop :=
  (err'.val.toNat : ℚ) ≤ err.val.toNat + errbRate.toNat * elapsed / 10 ^ 12 ∧
    (err.val.toNat + errbRate.toNat * elapsed / 10 ^ 12 : ℚ) <
      err'.val.toNat + 1 + errbRate.toNat * elapsed / 2 ^ 64

instance (err err' : Bintime) (errbRate : BitVec 32) (elapsed : Nat) :
    Decidable (ErrorGrows err err' errbRate elapsed) := inferInstanceAs (Decidable (_ ∧ _))

/-- The error of a tick that adopts data is that of the data; that of a tick without update is that
of the previous tick and what the tick adds. -/
def TickErrorKept (s : FfState) (op : FfOp) (s' : FfState) : Prop :=
  match op with
  | .windup _ delta none =>
    (adopts s → TickErrorOk s'.tick) ∧
    (¬ adopts s →
      ErrorGrows s.tick.tickError s'.tick.tickError s.tick.cdat.errbRate
        (product (delta.setWidth 64) s.tick.cdat.period).toNat ∧
      (TickErrorOk s.tick → TickErrorOk s'.tick))
  | .windup _ _ (some _) => TickErrorOk s'.tick
  | _ => True

instance (s s' : FfState) : (op : FfOp) → Decidable (TickErrorKept s op s')
  | .windup _ _ none => inferInstanceAs (Decidable (_ ∧ _))
  | .windup _ _ (some _) => inferInstanceAs (Decidable (TickErrorOk _))
  | .changeTc _ _ _ | .setdata _ | .setSysclock _ => isTrue trivial

/-- There is no rate to apply or no time to apply it to; `errb_abs` does not wrap; and over a tick
without update the next slot holds the error of this one. -/
def TickErrorCond (s : FfState) (op : FfOp) : Prop :=
  match op with
  | .windup _ delta none =>
    (adopts s → s.ffclockData.errbAbs.toNat ≤ 10 ^ 9 ∧
      (s.ffclockData.errbRate = 0 ∨
        product (s.tick.tickFfcount + delta.setWidth 64 - s.ffclockData.updateFfcount)
          s.ffclockData.period = 0)) ∧
    (¬ adopts s → s.stale.tickError = s.tick.tickError ∧
      (s.tick.cdat.errbRate = 0 ∨ product (delta.setWidth 64) s.tick.cdat.period = 0))
  | _ => True

instance (s : FfState) : (op : FfOp) → Decidable (TickErrorCond s op)
  | .windup _ _ none => inferInstanceAs (Decidable (_ ∧ _))
  | .windup _ _ (some _) | .changeTc _ _ _ | .setdata _ | .setSysclock _ => isTrue trivial

theorem tickError_adopted {tcFrequency : BitVec 64} {delta : BitVec 32} {s s' : FfState}
    (h : ffclockWindup tcFrequency delta none s = some s') (hadopts : adopts s) :
    s'.tick.cdat = s.ffclockData ∧
      s'.tick.tickError = computedError (ffclockConvertDelta
        (s.tick.tickFfcount + delta.setWidth 64 - s.ffclockData.updateFfcount) s.ffclockData.period)
        s.ffclockData.errbAbs s.ffclockData.errbRate := by
  rcases windup_cases h with ⟨fb, utc, p, hreset, -, -⟩ | ⟨-, hnot, -⟩ | ⟨p, -, -, hp, rfl⟩
  · cases hreset
  · exact absurd hadopts hnot
  · obtain ⟨period, -, rfl⟩ := Option.map_eq_some_iff.mp hp
    rw [tick_publish]
    simp only [ffclockData_ignoreStale]
    exact ⟨trivial, rfl⟩

theorem tickError_projected {tcFrequency : BitVec 64} {delta : BitVec 32} {s s' : FfState}
    (h : ffclockWindup tcFrequency delta none s = some s') (hadopts : ¬ adopts s) :
    s'.tick.cdat = s.tick.cdat ∧
      s'.tick.tickError = s.stale.tickError.add
        ((ffclockConvertDelta (delta.setWidth 64) s.tick.cdat.period).mul
          (rateFactor s.tick.cdat.errbRate)) := by
  rcases windup_cases h with ⟨fb, utc, p, hreset, -, -⟩ | ⟨-, -, rfl⟩ | ⟨p, -, hyes, -, -⟩
  · cases hreset
  · rw [tick_publish]
    simp only [windupProject, tick_ignoreStale]
    exact ⟨trivial, rfl⟩
  · exact absurd hyes hadopts

theorem tickError_reset {tcFrequency : BitVec 64} {delta : BitVec 32} {r : Bintime × Bintime}
    {s s' : FfState} (h : ffclockWindup tcFrequency delta (some r) s = some s') :
    TickErrorOk s'.tick := by
  rcases windup_cases h with ⟨fb, utc, p, -, hp, rfl⟩ | ⟨hreset, -, -⟩ | ⟨p, hreset, -, -, -⟩
  · obtain ⟨period, -, rfl⟩ := Option.map_eq_some_iff.mp hp
    rw [tick_publish, TickErrorOk, errorIs_iff]
    simp [Bintime.val_clear]
  · cases hreset
  · cases hreset

/-- Nothing is added where there is no rate or no time. -/
theorem val_mul_rateFactor {ffdelta period : BitVec 64} {errbRate : BitVec 32}
    (h : errbRate = 0 ∨ product ffdelta period = 0) :
    ((ffclockConvertDelta ffdelta period).mul (rateFactor errbRate)).val = 0 := by
  rw [Bintime.val_mul, val_convertDelta]
  rcases h with rfl | h
  · exact mul_zero _
  · rw [h, zero_mul]

theorem product_eq_zero {ffdelta period : BitVec 64} (h : product ffdelta period = 0) :
    ffdelta = 0 ∨ period = 0 := by
  have hnat : ffdelta.toNat * period.toNat = 0 := by
    rw [← toNat_product, h]
    rfl
  rcases Nat.mul_eq_zero.mp hnat with hzero | hzero
  · exact .inl (BitVec.eq_of_toNat_eq hzero)
  · exact .inr (BitVec.eq_of_toNat_eq hzero)

/-- Where the rate or the time of the tick is zero, the error meant at its end is that at its
start. -/
theorem errorIs_advance {err : Bintime} {errbAbs errbRate : BitVec 32}
    {elapsed ffdelta period : BitVec 64} (h : errbRate = 0 ∨ product ffdelta period = 0)
    (hok : ErrorIs err errbAbs errbRate (product elapsed period).toNat) :
    ErrorIs err errbAbs errbRate (product (elapsed + ffdelta) period).toNat := by
  rcases h with rfl | h
  · rw [errorIs_iff, show (0 : BitVec 32).toNat = 0 from rfl, Nat.zero_mul] at hok ⊢
    exact hok
  · rcases product_eq_zero h with rfl | rfl
    · rwa [add_zero]
    · have hnone : ∀ n : BitVec 64, product n 0 = 0 := fun n => mul_zero _
      rw [hnone] at hok ⊢
      exact hok

theorem tickErrorKept_of_cond (s : FfState) (op : FfOp) (s' : FfState)
    (h : ffStep s op = some s') (hcond : TickErrorCond s op) : TickErrorKept s op s' := by
  cases op with
  | windup tcFrequency delta reset =>
    cases reset with
    | some r => exact tickError_reset h
    -- a windup adopts new data or projects the old
    | none =>
      have hwindup : ffclockWindup tcFrequency delta none s = some s' := h
      have hcount := tickFfcount_windup hwindup
      constructor
      · intro hadopts
        obtain ⟨habs, hrate⟩ := hcond.1 hadopts
        obtain ⟨hcdat, herr⟩ := tickError_adopted hwindup hadopts
        rw [TickErrorOk, Fftimehands.sinceUpdate, hcdat, herr, hcount]
        exact computedError_ok habs hrate
      · intro hadopts
        obtain ⟨hslot, hrate⟩ := hcond.2 hadopts
        obtain ⟨hcdat, herr⟩ := tickError_projected hwindup hadopts
        -- the condition says that nothing is added
        have hsame : s'.tick.tickError = s.tick.tickError := by
          apply Bintime.val_inj
          rw [herr, Bintime.val_add, val_mul_rateFactor hrate, add_zero, hslot]
        constructor
        · have hnone : (s.tick.cdat.errbRate.toNat : ℚ) *
              (product (delta.setWidth 64) s.tick.cdat.period).toNat = 0 := by
            rcases hrate with hzero | hzero
            · rw [hzero]
              exact zero_mul _
            · rw [hzero]
              exact mul_zero _
          rw [ErrorGrows, hsame, hnone, zero_div, zero_div, add_zero, add_zero]
          exact ⟨le_refl _, lt_add_one _⟩
        · intro hok
          have hsum : s.tick.tickFfcount + delta.setWidth 64 - s.tick.cdat.updateFfcount =
              s.tick.tickFfcount - s.tick.cdat.updateFfcount + delta.setWidth 64 := by ring
          rw [TickErrorOk, Fftimehands.sinceUpdate, hcdat, hsame, hcount, hsum]
          exact errorIs_advance hrate hok
  | changeTc tc tcFrequency ncount => trivial
  | setdata cdat => trivial
  | setSysclock sysclock => trivial

/-- The error bound of `ffclock_abstime` is right for a data set exactly when there is no rate to
apply and `errb_abs` does not wrap; and the error kept with the tick is right along every run whose
ticks have no rate to apply, adopt no `errb_abs` that wraps, and find their error in the slot. -/
theorem error_bounds (s : FfState) (ops : List FfOp) :
    ((∀ flags counter, ErrorIs (ffclockAbstime flags counter s).2.2 s.ffclockData.errbAbs
        s.ffclockData.errbRate
        (product ((ffclockAbstime flags counter s).1 - s.ffclockData.updateFfcount)
          s.tick.cdat.period).toNat) ↔
      s.ffclockData.errbAbs.toNat ≤ 10 ^ 9 ∧
        (s.ffclockData.errbRate = 0 ∨ s.tick.cdat.period = 0)) ∧
    (Along ffStep (fun s op _ => TickErrorCond s op) s ops →
      Along ffStep TickErrorKept s ops) := by
  refine ⟨errorBound_iff s, fun hcond => ?_⟩
  refine along_inv (I := fun _ => True) ?_ ops s trivial hcond
  exact fun s op s' _ h hc => ⟨trivial, tickErrorKept_of_cond s op s' h hc⟩

/-- A tick without update, and an update of 50 us and no rate. -/
theorem error_bounds_noRate :
    Along ffStep TickErrorKept (ffclockInit .fb)
      [.windup 1000000000 1000 none, .setdata
        { updateTime := ⟨100, 0⟩, updateFfcount := 1000, leapsecExpected := 0
          period := 18446744073, errbAbs := 50000, errbRate := 0, status := 0
          secsToNextupdate := 16, leapsecTotal := 0, leapsecNext := 0 },
        .windup 1000000000 1000000000 none] :=
  (error_bounds (ffclockInit .fb) _).2 (by decide +kernel)

/-- An update of 50 us and 100 ps/s, one second before the tick. -/
def ratedUpdate : List FfOp :=
  [.setdata
      { updateTime := ⟨100, 0⟩, updateFfcount := 0, leapsecExpected := 0, period := 18446744073
        errbAbs := 50000, errbRate := 100, status := 0, secsToNextupdate := 16, leapsecTotal := 0
        leapsecNext := 0 },
    .windup 1000000000 1000000000 none]

/-- The error comes out as more than fifty years. -/
theorem not_tickError_ratedUpdate : ¬ Along ffStep TickErrorKept (ffclockInit .fb) ratedUpdate := by
  decide +kernel

end RADclock.Kernel
