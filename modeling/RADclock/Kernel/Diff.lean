import RADclock.Kernel.Readings
import RADclock.Lib.Runs

/-!
# The difference clock over tick boundaries

diffFFC is meant never to jump. A tick that is projected starts where the previous one ends. A
tick that adopts the daemon's data advances the clock over the finished tick with the new period,
while readers used the old one during that tick: the clock jumps at the boundary by the length of
the tick times the change of the period.
-/

namespace RADclock.Kernel

open Lib

/-- The duration between a reading before the start of a tick and one after it. -/
def elapsedAround (s s' : FfState) (before after : BitVec 64) : Int :=
  (s'.tick.tickFfcount.toNat - before.toNat) * s.tick.cdat.period.toNat +
    (after.toNat - s'.tick.tickFfcount.toNat) * s'.tick.cdat.period.toNat

/-- The new tick starts where the previous one ends, and readings around the boundary do not
decrease. The counter itself does not wrap. -/
def DiffKept (s : FfState) (op : FfOp) (s' : FfState) : Prop :=
  match op with
  | .windup _ delta none =>
    s'.tick.tickTimeDiff.val =
        s.tick.tickTimeDiff.val + product (delta.setWidth 64) s.tick.cdat.period ∧
      (s.tick.tickFfcount.toNat + delta.toNat < 2 ^ 64 →
        ∀ before after : BitVec 64, before ≤ s'.tick.tickFfcount → s'.tick.tickFfcount ≤ after →
          (ffclockConvertAbs before FFCLOCK_DIFF s).val.toInt + elapsedAround s s' before after <
            2 ^ 127 →
          (ffclockConvertAbs before FFCLOCK_DIFF s).gt (ffclockConvertAbs after FFCLOCK_DIFF s') =
            false)
  | _ => True

/-- A tick that adopts data is empty, or the period stays. -/
def DiffCond (s : FfState) (op : FfOp) : Prop :=
  match op with
  | .windup _ delta none => adopts s → delta = 0 ∨ s.ffclockData.period = s.tick.cdat.period
  | _ => True

instance (s : FfState) : (op : FfOp) → Decidable (DiffCond s op)
  | .windup _ _ none => inferInstanceAs (Decidable (_ → _ ∨ _))
  | .windup _ _ (some _) | .changeTc _ _ _ | .setdata _ | .setSysclock _ => isTrue trivial

/-! ## One tick -/

/-- The period diffFFC is advanced with is that of the new tick. -/
theorem tickTimeDiff_windup {tcFrequency : BitVec 64} {delta : BitVec 32} {s s' : FfState}
    (h : ffclockWindup tcFrequency delta none s = some s') :
    s'.tick.tickTimeDiff.val =
        s.tick.tickTimeDiff.val + product (delta.setWidth 64) s'.tick.cdat.period ∧
      s'.tick.cdat = if adopts s then s.ffclockData else s.tick.cdat := by
  rcases windup_cases h with ⟨fb, utc, p, hreset, -, -⟩ | ⟨-, hadopts, rfl⟩ | ⟨p, -, hadopts,
    hp, rfl⟩
  · cases hreset
  · rw [tick_publish, if_neg hadopts]
    simp only [windupProject, tick_ignoreStale, Bintime.val_add, val_convertDelta, and_self]
  · obtain ⟨period, -, rfl⟩ := Option.map_eq_some_iff.mp hp
    rw [tick_publish, if_pos hadopts]
    simp only [tick_ignoreStale, ffclockData_ignoreStale, Bintime.val_add, val_convertDelta,
      and_self]

/-- Products of a delta by two periods differ, as nothing wraps. -/
theorem product_inj {delta : BitVec 32} {p q : BitVec 64}
    (h : product (delta.setWidth 64) p = product (delta.setWidth 64) q) : delta = 0 ∨ p = q := by
  have hnat := congrArg BitVec.toNat h
  rw [toNat_product, toNat_product, BitVec.toNat_setWidth_of_le (by decide)] at hnat
  rcases Nat.eq_zero_or_pos delta.toNat with hzero | hpos
  · exact .inl (BitVec.eq_of_toNat_eq hzero)
  · exact .inr (BitVec.eq_of_toNat_eq (Nat.eq_of_mul_eq_mul_left hpos hnat))

/-- A continuous boundary is enough for readings around it. -/
theorem readings_around {s s' : FfState} {delta : BitVec 32}
    (hcount : s'.tick.tickFfcount = s.tick.tickFfcount + delta.setWidth 64)
    (hdiff : s'.tick.tickTimeDiff.val =
      s.tick.tickTimeDiff.val + product (delta.setWidth 64) s.tick.cdat.period)
    (hwrap : s.tick.tickFfcount.toNat + delta.toNat < 2 ^ 64) {before after : BitVec 64}
    (hbefore : before ≤ s'.tick.tickFfcount) (hafter : s'.tick.tickFfcount ≤ after)
    (hlast : (ffclockConvertAbs before FFCLOCK_DIFF s).val.toInt + elapsedAround s s' before after <
      2 ^ 127) :
    (ffclockConvertAbs before FFCLOCK_DIFF s).gt (ffclockConvertAbs after FFCLOCK_DIFF s') =
      false := by
  have hbefore' : (before.toNat : Int) ≤ s'.tick.tickFfcount.toNat := Int.ofNat_le.mpr hbefore
  have hafter' : (s'.tick.tickFfcount.toNat : Int) ≤ after.toNat := Int.ofNat_le.mpr hafter
  have hcount' : (s'.tick.tickFfcount.toNat : Int) = s.tick.tickFfcount.toNat + delta.toNat := by
    rw [hcount, BitVec.toNat_add, BitVec.toNat_setWidth_of_le (by decide), Nat.mod_eq_of_lt hwrap]
    rfl
  refine not_gt_of_ahead ?_ ?_ hlast
  · rw [val_convertAbs _ (by decide), val_convertAbs _ (by decide)]
    show s'.tick.tickTimeDiff.val + units (_ * s'.tick.cdat.period.toNat) =
      s.tick.tickTimeDiff.val + units (_ * s.tick.cdat.period.toNat) + units _
    rw [hdiff, product_eq_units, add_assoc, add_assoc, ← units_add, ← units_add,
      BitVec.toNat_setWidth_of_le (by decide)]
    refine congrArg (fun n => s.tick.tickTimeDiff.val + units n) ?_
    rw [elapsedAround, hcount']
    ring
  · exact add_nonneg (mul_nonneg (by omega) (by omega)) (mul_nonneg (by omega) (by omega))

theorem diffKept_iff (s : FfState) (op : FfOp) (s' : FfState) (h : ffStep s op = some s') :
    DiffKept s op s' ↔ DiffCond s op := by
  cases op with
  | windup tcFrequency delta reset =>
    cases reset with
    | some r => exact Iff.rfl
    -- only an ordinary windup can take a new period
    | none =>
      have hwindup : ffclockWindup tcFrequency delta none s = some s' := h
      obtain ⟨hdiff, hcdat⟩ := tickTimeDiff_windup hwindup
      have hcount := tickFfcount_windup hwindup
      unfold DiffKept DiffCond
      simp only
      constructor
      · rintro ⟨hkept, -⟩ hadopts
        rw [if_pos hadopts] at hcdat
        rw [hdiff, add_right_inj, hcdat] at hkept
        exact product_inj hkept
      · -- the finished tick is advanced by the new period: no jump when it is empty or equal
        intro hcond
        have hkept : s'.tick.tickTimeDiff.val =
            s.tick.tickTimeDiff.val + product (delta.setWidth 64) s.tick.cdat.period := by
          rw [hdiff, hcdat]
          by_cases hadopts : adopts s
          · rw [if_pos hadopts]
            rcases hcond hadopts with hzero | hperiod
            · have hempty : (0 : BitVec 32).setWidth 64 = 0 := rfl
              rw [hzero, hempty, product_zero, product_zero]
            · rw [hperiod]
          · rw [if_neg hadopts]
        exact ⟨hkept, fun hwrap before after hbefore hafter hlast =>
          readings_around hcount hkept hwrap hbefore hafter hlast⟩
  | changeTc tc tcFrequency ncount => exact Iff.rfl
  | setdata cdat => exact Iff.rfl
  | setSysclock sysclock => exact Iff.rfl

/-! ## Runs -/

/-- diffFFC is continuous over a run exactly when no tick of positive length adopts another
period. -/
theorem diff_continuous_iff (s : FfState) (ops : List FfOp) :
    Along ffStep DiffKept s ops ↔ Along ffStep (fun s op _ => DiffCond s op) s ops :=
  along_congr diffKept_iff ops s

/-- The daemon's data for a counter of 1 GHz. -/
def gigahertzData : FfclockData :=
  { updateTime := ⟨100, 0⟩, updateFfcount := 0, leapsecExpected := 0, period := 18446744073
    errbAbs := 0, errbRate := 0, status := 0, secsToNextupdate := 16, leapsecTotal := 0
    leapsecNext := 0 }

/-- Two updates, the second with a period longer by one part in `2 ^ 34`. -/
def periodChange : List FfOp :=
  [.setdata gigahertzData, .windup 1000000000 1000 none,
    .setdata { gigahertzData with period := 18446744074 }, .windup 1000000000 1000 none]

theorem not_diff_continuous_periodChange :
    ¬ Along ffStep DiffKept (ffclockInit .fb) periodChange := by
  rw [along_congr diffKept_iff]
  decide

end RADclock.Kernel
