import RADclock.Kernel.Mono

/-!
# The divisions of an update

A windup that adopts the daemon's data divides by the period, by the cycles to the next update, and
by the cycles for each second of the gap. The data comes out of a system call that looks at none of
it. After the cap, the cycles outnumber the seconds of the gap, and only the two outer steps can
fail: the division by the period, and its product with the seconds to the next update.

- `Fits`: nothing overflows on the way to the share of the gap.
- `gapPerCycle_fits_iff`: the periods for which the share is computed without fault.
- `windupSafe_iff`: the states and the data from which a windup is.
-/

namespace RADclock.Kernel

open Lib

/-! ## The share of the gap -/

/-- The cap on the gap. -/
def gapCap (secs : BitVec 16) : Bintime :=
  (Bintime.mk 0 (5000000 * NS_AS_BINFRAC)).mul (secs.setWidth 32)

/-- The gap after the cap. -/
def capped (secs : BitVec 16) (gap : Bintime) : Bintime :=
  if gap.gt (gapCap secs) then gapCap secs else gap

/-- Cycles to the next update, without overflow. -/
def cyclesToNext (period : BitVec 64) (secs : BitVec 16) : Nat :=
  (2 ^ 64 - 1) / period.toNat * secs.toNat

/-- `ffdelta` and `frac` fit into 64 bits. -/
structure Fits (period : BitVec 64) (secs : BitVec 16) (gap : Bintime) : Prop where
  ffdelta : cyclesToNext period secs < 2 ^ 64
  frac : (if 0 < gap.sec.toInt then (2 ^ 64 - 1) / (cyclesToNext period secs / gap.sec.toNat)
    else 0) +
    gap.frac.toNat / cyclesToNext period secs < 2 ^ 64

/-- The period is not zero, and the cycles to the next update are less than `2 ^ 64`. -/
def Countable (period : BitVec 64) (secs : BitVec 16) : Prop :=
  period ≠ 0 ∧ cyclesToNext period secs < 2 ^ 64

instance (period : BitVec 64) (secs : BitVec 16) : Decidable (Countable period secs) :=
  inferInstanceAs (Decidable (_ ∧ _))

section

variable {period : BitVec 64} {secs : BitVec 16} {gap : Bintime}

/-- Whole seconds of a capped gap, if there are any. -/
theorem sec_capped_le (h : 0 < (capped secs gap).sec.toInt) :
    (capped secs gap).sec.toInt = (capped secs gap).sec.toNat ∧
      200 * (capped secs gap).sec.toNat ≤ secs.toNat := by
  have hcap : (gapCap secs).val.toNat = 92233720365000000 * secs.toNat := toNat_cap secs
  have hsecs := secs.isLt
  have hcapInt : (gapCap secs).val.toInt = 92233720365000000 * secs.toNat := by
    rw [BitVec.toInt_eq_toNat_of_lt (by omega), hcap]
    push_cast
    rfl
  have hle : (capped secs gap).val.toInt ≤ (gapCap secs).val.toInt := by
    unfold capped
    by_cases hgt : gap.gt (gapCap secs) = true
    · rw [if_pos hgt]
    · rw [if_neg hgt]
      rwa [Bintime.gt_iff, not_lt] at hgt
  rw [Bintime.toInt_val, hcapInt] at hle
  have hfrac := (capped secs gap).frac.isLt
  have hsec : (capped secs gap).sec.toInt = (capped secs gap).sec.toNat := by
    rw [BitVec.toInt_eq_toNat_cond] at h ⊢
    split at h <;> omega
  refine ⟨hsec, ?_⟩
  omega

/-- A cycle at least for every second. -/
theorem secs_le_cyclesToNext (h : period ≠ 0) : secs.toNat ≤ cyclesToNext period secs := by
  have hpos : 0 < period.toNat := by
    rw [Nat.pos_iff_ne_zero]
    intro hzero
    exact h (BitVec.eq_of_toNat_eq hzero)
  have hcycle : 1 ≤ (2 ^ 64 - 1) / period.toNat :=
    (Nat.le_div_iff_mul_le hpos).mpr (by have := period.isLt; omega)
  exact Nat.le_mul_of_pos_left _ hcycle

/-- The share of a capped gap fits. -/
theorem Countable.fits (h : Countable period secs) : Fits period secs (capped secs gap) := by
  refine ⟨h.2, ?_⟩
  have hle : secs.toNat ≤ cyclesToNext period secs := secs_le_cyclesToNext h.1
  have hfrac := (capped secs gap).frac.isLt
  split
  · rename_i hpos
    obtain ⟨hsec, hshare⟩ := sec_capped_le hpos
    generalize (capped secs gap).sec.toNat = g at *
    generalize cyclesToNext period secs = c at *
    have hg : 0 < g := by omega
    have hquot : 200 ≤ c / g := (Nat.le_div_iff_mul_le hg).mpr (by omega)
    have hwhole : (2 ^ 64 - 1) / (c / g) ≤ (2 ^ 64 - 1) / 200 :=
      Nat.div_le_div_left hquot (by decide)
    have hpart : (capped secs gap).frac.toNat / c ≤ (capped secs gap).frac.toNat / 200 :=
      Nat.div_le_div_left (by omega) (by decide)
    omega
  · have := Nat.div_le_self (capped secs gap).frac.toNat (cyclesToNext period secs)
    omega

/-- No divisor is zero. -/
theorem Countable.gapPerCycle (h : Countable period secs) (hsecs : 0 < secs) (gap : Bintime) :
    ∃ frac, gapPerCycle period secs gap = some frac := by
  have hpos : 0 < secs.toNat := hsecs
  have hle : secs.toNat ≤ cyclesToNext period secs := secs_le_cyclesToNext h.1
  -- the number of cycles fits 64 bits, so neither division is by zero
  have hcycles : (-1 / period * secs.setWidth 64 : BitVec 64).toNat = cyclesToNext period secs := by
    rw [BitVec.toNat_mul, BitVec.toNat_udiv, BitVec.toNat_setWidth_of_le (by decide)]
    exact Nat.mod_eq_of_lt h.2
  have hne : (-1 / period * secs.setWidth 64 : BitVec 64) ≠ 0 :=
    ne_zero_of_toNat_pos (by rw [hcycles]; omega)
  have hcap : (if gap.gt (gapCap secs) then gapCap secs else gap) = capped secs gap := rfl
  unfold Kernel.gapPerCycle
  unfold gapCap at hcap
  simp only [hcap, quot_of_ne h.1, Option.bind_some, quot_of_ne (a := (capped secs gap).frac) hne]
  split
  · -- a gap of a second or more is spread in whole seconds first
    rename_i hgap
    obtain ⟨hsec, hshare⟩ := sec_capped_le hgap
    have hquot : (-1 / period * secs.setWidth 64 / (capped secs gap).sec : BitVec 64) ≠ 0 := by
      refine ne_zero_of_toNat_pos ?_
      rw [BitVec.toNat_udiv, hcycles]
      exact Nat.div_pos (by omega) (by omega)
    rw [quot_of_ne (ne_zero_of_toNat_pos (by omega)), Option.bind_some, quot_of_ne hquot]
    exact ⟨_, rfl⟩
  · exact ⟨_, rfl⟩

/-- The share is computed without fault exactly if the cycles can be counted. -/
theorem gapPerCycle_fits_iff (hsecs : 0 < secs) (gap : Bintime) :
    ((∃ frac, gapPerCycle period secs gap = some frac) ∧ Fits period secs (capped secs gap)) ↔
      Countable period secs := by
  constructor
  · rintro ⟨⟨frac, hfrac⟩, hfits⟩
    refine ⟨?_, hfits.ffdelta⟩
    rintro rfl
    cases hfrac
  · exact fun h => ⟨h.gapPerCycle hsecs gap, h.fits⟩

end

/-! ## A windup -/

/-- No division of a windup traps, and nothing overflows in the one that adopts the daemon's
data. -/
structure WindupSafe (tcFrequency : BitVec 64) (delta : BitVec 32)
    (reset : Option (Bintime × Bintime)) (s : FfState) : Prop where
  returns : ∃ s', ffclockWindup tcFrequency delta reset s = some s'
  fits : reset = none → adopts s → (updateGap delta s).isset → 0 < s.ffclockData.secsToNextupdate →
    Fits s.ffclockData.period s.ffclockData.secsToNextupdate
      (capped s.ffclockData.secsToNextupdate (updateGap delta s))

/-- A reset that has to make up a period knows the frequency. A windup that adopts data with an
update to come and finds the two clocks apart, without letting them jump, can count the cycles. -/
def Divisible (tcFrequency : BitVec 64) (delta : BitVec 32) (reset : Option (Bintime × Bintime))
    (s : FfState) : Prop :=
  match reset with
  | some _ => s.tick.cdat.period = 0 → tcFrequency ≠ 0
  | none => adopts s → jumps s.ffclockStatus s.ffclockData = false →
      nextNat delta s ≠ nextMono delta s → 0 < s.ffclockData.secsToNextupdate →
        Countable s.ffclockData.period s.ffclockData.secsToNextupdate

section

variable {tcFrequency : BitVec 64} {delta : BitVec 32} {s : FfState}

/-- There is a gap exactly if the clocks are apart and do not jump. -/
theorem isset_updateGap_iff : (updateGap delta s).isset = true ↔
    jumps s.ffclockStatus s.ffclockData = false ∧ nextNat delta s ≠ nextMono delta s := by
  have hsub : ∀ a b : Bintime, (a.sub b).isset = true ↔ a ≠ b := by
    intro a b
    rw [Bintime.isset_iff, Bintime.val_sub, sub_ne_zero, Ne, Bintime.val_inj_iff]
  unfold updateGap
  by_cases hjump : jumps s.ffclockStatus s.ffclockData = true
  · rw [if_pos hjump]
    simp [hjump, Bintime.isset, Bintime.clear]
  · rw [if_neg hjump, Bool.not_eq_true] at *
    split
    · rw [hsub, and_iff_right hjump]
    · rw [hsub, and_iff_right hjump, ne_comm]

/-- A windup that adopts the daemon's data returns if its period can be computed. -/
theorem windup_returns_iff (hadopts : adopts s) :
    (∃ s', ffclockWindup tcFrequency delta none s = some s') ↔
      ∃ periodMono, monoPeriod s.ffclockData ((nextNat delta s).gt (nextMono delta s))
        (updateGap delta s) = some periodMono := by
  have hmono : ∃ f, windupUpdate (delta.setWidth 64) (ignoreStale s) (bootSlot delta s) =
      (monoPeriod s.ffclockData ((nextNat delta s).gt (nextMono delta s))
        (updateGap delta s)).map f := by
    unfold windupUpdate
    simp only [tick_ignoreStale, ffclockData_ignoreStale, ffclockStatus_ignoreStale]
    exact ⟨_, rfl⟩
  obtain ⟨f, hf⟩ := hmono
  rw [windup_update hadopts, hf, Option.map_map]
  constructor
  · rintro ⟨s', h⟩
    obtain ⟨periodMono, hperiod, -⟩ := Option.map_eq_some_iff.mp h
    exact ⟨periodMono, hperiod⟩
  · rintro ⟨periodMono, hperiod⟩
    rw [hperiod]
    exact ⟨_, rfl⟩

/-- The period of monoFFC takes a share only if there is a gap and an update to come. -/
theorem monoPeriod_returns_iff (cdat : FfclockData) (forwardJump : Bool) (gap : Bintime) :
    (∃ periodMono, monoPeriod cdat forwardJump gap = some periodMono) ↔
      (gap.isset = true → 0 < cdat.secsToNextupdate →
        ∃ frac, gapPerCycle cdat.period cdat.secsToNextupdate gap = some frac) := by
  unfold monoPeriod
  by_cases hset : gap.isset = true ∧ 0 < cdat.secsToNextupdate
  · rw [if_pos hset]
    constructor
    · rintro ⟨periodMono, h⟩ - -
      obtain ⟨frac, hfrac, -⟩ := Option.map_eq_some_iff.mp h
      exact ⟨frac, hfrac⟩
    · intro h
      obtain ⟨frac, hfrac⟩ := h hset.1 hset.2
      rw [hfrac]
      exact ⟨_, rfl⟩
  · rw [if_neg hset]
    exact iff_of_true ⟨_, rfl⟩ fun h1 h2 => absurd ⟨h1, h2⟩ hset

/-- A reset divides by the frequency if it has to make up a period. -/
theorem windup_reset_returns_iff (fb utc : Bintime) :
    (∃ s', ffclockWindup tcFrequency delta (some (fb, utc)) s = some s') ↔
      (s.tick.cdat.period = 0 → tcFrequency ≠ 0) := by
  rw [windup_reset]
  unfold windupReset
  by_cases hzero : s.tick.cdat.period = 0
  · by_cases hfreq : tcFrequency = 0
    · simp [hzero, counterPeriod, quot, hfreq]
    · simp [hzero, counterPeriod, quot]
  · simp only [if_neg hzero]
    exact iff_of_true ⟨_, rfl⟩ fun h => absurd h hzero

end

/-- A windup is safe exactly if the data it adopts counts the cycles, and a reset has a frequency
where it needs one. -/
theorem windupSafe_iff (tcFrequency : BitVec 64) (delta : BitVec 32)
    (reset : Option (Bintime × Bintime)) (s : FfState) :
    WindupSafe tcFrequency delta reset s ↔ Divisible tcFrequency delta reset s := by
  cases reset with
  -- a reset computes no period of the monotonic clock
  | some r =>
    obtain ⟨fb, utc⟩ := r
    constructor
    · exact fun h => (windup_reset_returns_iff fb utc).mp h.returns
    · exact fun h => ⟨(windup_reset_returns_iff fb utc).mpr h, fun hnone => nomatch hnone⟩
  | none =>
    -- only a windup that adopts data computes one
    by_cases hadopts : adopts s
    · constructor
      · intro h _ hjump hapart hsecs
        have hset := isset_updateGap_iff.mpr ⟨hjump, hapart⟩
        have hmono := (monoPeriod_returns_iff _ _ _).mp ((windup_returns_iff hadopts).mp h.returns)
        exact (gapPerCycle_fits_iff hsecs _).mp ⟨hmono hset hsecs, h.fits rfl hadopts hset hsecs⟩
      · intro h
        have hcount : (updateGap delta s).isset = true → 0 < s.ffclockData.secsToNextupdate →
            Countable s.ffclockData.period s.ffclockData.secsToNextupdate := by
          intro hset hsecs
          obtain ⟨hjump, hapart⟩ := isset_updateGap_iff.mp hset
          exact h hadopts hjump hapart hsecs
        refine ⟨(windup_returns_iff hadopts).mpr ((monoPeriod_returns_iff _ _ _).mpr ?_), ?_⟩
        · exact fun hset hsecs => (hcount hset hsecs).gapPerCycle hsecs _
        · exact fun _ _ hset hsecs => (hcount hset hsecs).fits
    · constructor
      · exact fun _ h => absurd h hadopts
      · exact fun _ => ⟨⟨_, windup_project hadopts⟩, fun _ h => absurd h hadopts⟩

/-- Data whose period was never set, one second after the start of the clock. -/
def zeroPeriod : FfclockData := ⟨⟨1, 0⟩, 0, 0, 0, 0, 0, FFCLOCK_STA_UNSYNC, 16, 0, 0⟩

/-- The windup after it divides by zero. -/
theorem not_windupSafe : ¬ ∀ (tcFrequency : BitVec 64) (delta : BitVec 32)
    (reset : Option (Bintime × Bintime)) (cdat : FfclockData) (s : FfState), tcFrequency ≠ 0 →
      WindupSafe tcFrequency delta reset (ffclockSetdata cdat s) := by
  intro h
  have hdiv := (windupSafe_iff _ _ _ _).mp
    (h 1000000000 1000000 none zeroPeriod (ffclockInit .fb) (by decide))
  have hapart : nextNat 1000000 (ffclockSetdata zeroPeriod (ffclockInit .fb)) ≠
      nextMono 1000000 (ffclockSetdata zeroPeriod (ffclockInit .fb)) := by
    rw [Ne, ← Bintime.val_inj_iff, nextNat, natTime, nextMono, projMono, Bintime.val_add,
      Bintime.val_add, val_convertDelta, val_convertDelta]
    decide
  exact (hdiv (by decide) (by decide) hapart (by decide)).1 rfl

end RADclock.Kernel
