import RADclock.Kernel.Readings
import RADclock.Lib.Runs

/-!
# The monotonic clock

An update lets monoFFC run faster or slower than natFFC, so that the gap between them is made up
by the next update, at 5000 PPM at most. The period comes out of several truncating divisions, and
is still within 5100 PPM for every counter of 1 kHz to 10 GHz. The gap is the magnitude of a
difference of two clocks, kept in a signed number: from `2 ^ 63` seconds on it is negative, is then
not capped, and only its fraction counts.

- `gap_share_le`: the arithmetic of the cap.
- `gapPerCycle_spec`, `monoPeriod_spec`: the period of an update.
- `MonoKept`, `GapCond`: what a windup is to keep, and when the gap is a magnitude.
- `smooth_run`: over ticks without a jump, monoFFC advances by the sum of its ticks.
-/

namespace RADclock.Kernel

open Lib

/-! ## The share of the gap -/

/-- The period of a counter of 1 kHz to 10 GHz, in units of `2 ^ -64` seconds. -/
def InRange (period : BitVec 64) : Prop :=
  1844674406 ≤ period.toNat ∧ period.toNat ≤ 18446744073709551

instance (period : BitVec 64) : Decidable (InRange period) := inferInstanceAs (Decidable (_ ∧ _))

/-- Cycles in a second: the quotient is off by less than one part in a thousand, and a product by
any number of seconds fits. -/
theorem cycles_bounds {P : Nat} (hlow : 1844674406 ≤ P) (hhigh : P ≤ 18446744073709551) :
    1000 ≤ (2 ^ 64 - 1) / P ∧ (2 ^ 64 - 1) / P < 2 ^ 48 ∧
      999 * 2 ^ 64 ≤ 1000 * ((2 ^ 64 - 1) / P * P) := by
  have hpos : 0 < P := by omega
  refine ⟨(Nat.le_div_iff_mul_le hpos).mpr (by omega), ?_, ?_⟩
  · rw [Nat.div_lt_iff_lt_mul hpos]
    omega
  · have hdiv := Nat.div_add_mod (2 ^ 64 - 1) P
    have hmod := Nat.mod_lt (2 ^ 64 - 1) hpos
    rw [Nat.mul_comm] at hdiv
    omega

/-- Whole seconds of the gap, shared among the cycles. -/
theorem whole_share_le {g D A : Nat} (hg : 0 < g) (hD : 200000 * g ≤ D)
    (hA : A = (2 ^ 64 - 1) / (D / g)) : 200000 * (A * D) ≤ 200001 * (2 ^ 64 * g) := by
  have hq : 200000 ≤ D / g := (Nat.le_div_iff_mul_le hg).mpr hD
  have hAq : A * (D / g) ≤ 2 ^ 64 := by
    rw [hA]
    exact (Nat.div_mul_le_self _ _).trans (by omega)
  have hD' : D ≤ (D / g + 1) * g := (Nat.lt_mul_of_div_lt (Nat.lt_succ_self _) hg).le
  have hA' : 200000 * A ≤ 2 ^ 64 :=
    calc 200000 * A ≤ D / g * A := Nat.mul_le_mul_right A hq
      _ = A * (D / g) := Nat.mul_comm _ _
      _ ≤ 2 ^ 64 := hAq
  calc 200000 * (A * D) ≤ 200000 * (A * ((D / g + 1) * g)) := by gcongr
    _ = (200000 * (A * (D / g)) + 200000 * A) * g := by ring
    _ ≤ (200000 * 2 ^ 64 + 2 ^ 64) * g := by gcongr
    _ = 200001 * (2 ^ 64 * g) := by ring

/-- The share of a capped gap is less than 5100 PPM of the period. -/
theorem gap_share_le {P S g f A : Nat} (hlow : 1844674406 ≤ P) (hhigh : P ≤ 18446744073709551)
    (hS : 0 < S) (hcap : g * 2 ^ 64 + f ≤ 92233720365000000 * S)
    (hA : A = if 0 < g then (2 ^ 64 - 1) / ((2 ^ 64 - 1) / P * S / g) else 0) :
    10000 * (A + f / ((2 ^ 64 - 1) / P * S)) ≤ 51 * P := by
  obtain ⟨hN, -, hNP⟩ := cycles_bounds hlow hhigh
  generalize (2 ^ 64 - 1) / P = N at *
  have hgS : 200 * g ≤ S := by omega
  have hwhole : 200000 * (A * (N * S)) ≤ 200001 * (2 ^ 64 * g) := by
    by_cases hg : 0 < g
    · refine whole_share_le hg ?_ (by rw [hA, if_pos hg])
      calc 200000 * g = 1000 * (200 * g) := by ring
        _ ≤ N * S := Nat.mul_le_mul hN hgS
    · rw [hA, if_neg hg]
      omega
  have hpart : f / (N * S) * (N * S) ≤ f := Nat.div_mul_le_self _ _
  generalize f / (N * S) = B at *
  -- The share by the cycles of the whole interval is hardly more than the gap.
  have hshare : 200000 * ((A + B) * N) * S ≤ 200001 * 92233720365000000 * S :=
    calc 200000 * ((A + B) * N) * S = 200000 * (A * (N * S)) + 200000 * (B * (N * S)) := by ring
      _ ≤ 200001 * (2 ^ 64 * g) + 200000 * f := by omega
      _ ≤ 200001 * (92233720365000000 * S) := by omega
      _ = 200001 * 92233720365000000 * S := by ring
  have hcycles := Nat.le_of_mul_le_mul_right hshare hS
  have hscaled : (A + B) * (999 * 2 ^ 64) * 200000 ≤ 1000 * (200001 * 92233720365000000) * P :=
    calc (A + B) * (999 * 2 ^ 64) * 200000 ≤ (A + B) * (1000 * (N * P)) * 200000 := by gcongr
      _ = 1000 * (200000 * ((A + B) * N)) * P := by ring
      _ ≤ 1000 * (200001 * 92233720365000000) * P := by gcongr
  omega

/-! ## The period of an update -/

theorem quot_of_ne {a b : BitVec 64} (h : b ≠ 0) : quot a b = some (a / b) := if_neg h

theorem ne_zero_of_toNat_pos {w : Nat} {b : BitVec w} (h : 0 < b.toNat) : b ≠ 0 := by
  rintro rfl
  exact absurd h (by simp)

/-- The cap on the gap: 5000 PPM of the time to the next update. -/
theorem toNat_cap (secs : BitVec 16) :
    ((Bintime.mk 0 (5000000 * NS_AS_BINFRAC)).mul (secs.setWidth 32)).val.toNat =
      92233720365000000 * secs.toNat := by
  have hfrac : (5000000 * NS_AS_BINFRAC).setWidth 128 = 92233720365000000#128 := by decide
  have hlt := secs.isLt
  rw [Bintime.val_mul, val_period, hfrac, BitVec.toNat_mul, BitVec.toNat_setWidth,
    BitVec.toNat_setWidth_of_le (by decide), BitVec.toNat_ofNat]
  omega

/-- A magnitude is cut down to the cap. -/
theorem toNat_capped {gap cap : Bintime} (hgap : 0 ≤ gap.val.toInt) (hcap : 0 ≤ cap.val.toInt) :
    (if gap.gt cap then cap else gap).val.toNat ≤ cap.val.toNat := by
  by_cases h : gap.gt cap = true
  · rw [if_pos h]
  · rw [if_neg h]
    have hle : gap.val.toInt ≤ cap.val.toInt := by rwa [Bintime.gt_iff, not_lt] at h
    have hgapLt := gap.val.isLt
    have hcapLt := cap.val.isLt
    rw [BitVec.toInt_eq_toNat_cond] at hgap hcap hle
    rw [BitVec.toInt_eq_toNat_cond] at hle
    split at hgap <;> split at hcap <;> omega

theorem gapPerCycle_spec {period : BitVec 64} {secs : BitVec 16} {gap : Bintime}
    (hperiod : InRange period) (hsecs : 0 < secs.toNat) (hgap : 0 ≤ gap.val.toInt) :
    ∃ frac, gapPerCycle period secs gap = some frac ∧
      10000 * frac.toNat ≤ 51 * period.toNat := by
  obtain ⟨hlow, hhigh⟩ := hperiod
  have hlt := secs.isLt
  obtain ⟨hN, hN48, -⟩ := cycles_bounds hlow hhigh
  unfold gapPerCycle
  have hcap := toNat_cap secs
  generalize (Bintime.mk 0 (5000000 * NS_AS_BINFRAC)).mul (secs.setWidth 32) = cap at *
  have hcapInt : 0 ≤ cap.val.toInt := by
    rw [BitVec.toInt_eq_toNat_of_lt (by omega)]
    exact Int.natCast_nonneg _
  have hcapped := toNat_capped hgap hcapInt
  simp only
  generalize (if gap.gt cap then cap else gap) = gap' at *
  have hsplit := gap'.toNat_val
  have hfrac := gap'.frac.isLt
  -- None of the divisors is zero, and the number of cycles fits into a word.
  have hcycles : (-1 / period : BitVec 64).toNat = (2 ^ 64 - 1) / period.toNat := by
    rw [BitVec.toNat_udiv]
    rfl
  have hD : (-1 / period * secs.setWidth 64).toNat = (2 ^ 64 - 1) / period.toNat * secs.toNat := by
    rw [BitVec.toNat_mul, hcycles, BitVec.toNat_setWidth_of_le (by decide)]
    apply Nat.mod_eq_of_lt
    calc (2 ^ 64 - 1) / period.toNat * secs.toNat < 2 ^ 48 * 2 ^ 16 :=
          Nat.mul_lt_mul'' hN48 hlt
      _ = 2 ^ 64 := by decide
  have hDpos : 1000 * secs.toNat ≤ (2 ^ 64 - 1) / period.toNat * secs.toNat :=
    Nat.mul_le_mul_right _ hN
  have hgS : 200 * gap'.sec.toNat ≤ secs.toNat := by omega
  have hsecInt : gap'.sec.toInt = gap'.sec.toNat := BitVec.toInt_eq_toNat_of_lt (by omega)
  have hshare := gap_share_le (g := gap'.sec.toNat) (f := gap'.frac.toNat) hlow hhigh hsecs
    (by omega) rfl
  have hpartNat : (gap'.frac / (-1 / period * secs.setWidth 64)).toNat =
      gap'.frac.toNat / ((2 ^ 64 - 1) / period.toNat * secs.toNat) := by
    rw [BitVec.toNat_udiv, hD]
  rw [quot_of_ne (ne_zero_of_toNat_pos (by omega)), Option.bind_some]
  rw [quot_of_ne (a := gap'.frac) (ne_zero_of_toNat_pos (by rw [hD]; omega))]
  by_cases hsec : 0 < gap'.sec.toInt
  · have hpos : 0 < gap'.sec.toNat := by omega
    have hq : (-1 / period * secs.setWidth 64 / gap'.sec : BitVec 64).toNat =
        (2 ^ 64 - 1) / period.toNat * secs.toNat / gap'.sec.toNat := by
      rw [BitVec.toNat_udiv, hD]
    have hqpos : 0 < (2 ^ 64 - 1) / period.toNat * secs.toNat / gap'.sec.toNat :=
      Nat.div_pos (by omega) hpos
    have hwhole : (-1 / (-1 / period * secs.setWidth 64 / gap'.sec) : BitVec 64).toNat =
        (2 ^ 64 - 1) / ((2 ^ 64 - 1) / period.toNat * secs.toNat / gap'.sec.toNat) := by
      rw [BitVec.toNat_udiv, hq]
      rfl
    rw [if_pos hsec, quot_of_ne (ne_zero_of_toNat_pos hpos), Option.bind_some,
      quot_of_ne (ne_zero_of_toNat_pos (by rw [hq]; exact hqpos)), Option.bind_some,
      Option.map_some]
    refine ⟨_, rfl, ?_⟩
    rw [if_pos hpos] at hshare
    rw [BitVec.toNat_add, hwhole, hpartNat]
    exact (Nat.mul_le_mul_left _ (Nat.mod_le _ _)).trans hshare
  · have hzero : ¬ 0 < gap'.sec.toNat := by omega
    rw [if_neg hsec, Option.bind_some, Option.map_some]
    refine ⟨_, rfl, ?_⟩
    rw [if_neg hzero, Nat.zero_add] at hshare
    rw [zero_add, hpartNat]
    exact hshare

/-- The period of monoFFC is positive and within 5100 PPM of the period. -/
def CloseTo (periodMono period : BitVec 64) : Prop :=
  10000 * |(periodMono.toNat : Int) - period.toNat| ≤ 51 * period.toNat ∧ 0 < periodMono

instance (periodMono period : BitVec 64) : Decidable (CloseTo periodMono period) :=
  inferInstanceAs (Decidable (_ ∧ _))

theorem closeTo_self {period : BitVec 64} (hperiod : InRange period) : CloseTo period period := by
  constructor
  · rw [sub_self, abs_zero]
    omega
  · have hlow := hperiod.1
    rw [BitVec.lt_def, show (0 : BitVec 64).toNat = 0 from rfl]
    omega

theorem monoPeriod_spec {cdat : FfclockData} (forwardJump : Bool) {gap : Bintime}
    (hperiod : InRange cdat.period) (hgap : 0 < cdat.secsToNextupdate → 0 ≤ gap.val.toInt) :
    ∃ periodMono, monoPeriod cdat forwardJump gap = some periodMono ∧
      CloseTo periodMono cdat.period := by
  unfold monoPeriod
  -- without a gap or a time to close it the period is the adopted one
  by_cases hset : gap.isset = true ∧ 0 < cdat.secsToNextupdate
  · obtain ⟨frac, hfrac, hshare⟩ := gapPerCycle_spec hperiod hset.2 (hgap hset.2)
    rw [if_pos hset, hfrac, Option.map_some]
    refine ⟨_, rfl, ?_⟩
    obtain ⟨hlow, hhigh⟩ := hperiod
    have hzero : (0 : BitVec 64).toNat = 0 := rfl
    -- the share of the gap is added or subtracted, and stays within the period
    cases forwardJump with
    | true =>
      have hnat : (cdat.period + frac).toNat = cdat.period.toNat + frac.toNat := by
        rw [BitVec.toNat_add, Nat.mod_eq_of_lt (by omega)]
      rw [if_pos rfl, CloseTo, BitVec.lt_def, hnat, hzero, abs_of_nonneg (by omega)]
      omega
    | false =>
      have hle : frac ≤ cdat.period := by
        rw [BitVec.le_def]
        omega
      have hnat : (cdat.period - frac).toNat = cdat.period.toNat - frac.toNat :=
        BitVec.toNat_sub_of_le hle
      rw [if_neg (by decide), CloseTo, BitVec.lt_def, hnat, hzero, abs_of_nonpos (by omega)]
      omega
  · rw [if_neg hset]
    exact ⟨_, rfl, closeTo_self hperiod⟩

/-! ## One tick -/

/-- natFFC at the start of the next tick, from the daemon's data. -/
def nextNat (delta : BitVec 32) (s : FfState) : Bintime :=
  natTime s.ffclockData (s.tick.tickFfcount + delta.setWidth 64)

/-- monoFFC at the start of the next tick, if it does not jump. -/
def nextMono (delta : BitVec 32) (s : FfState) : Bintime := projMono (delta.setWidth 64) s.tick

theorem val_nextMono (delta : BitVec 32) (s : FfState) : (nextMono delta s).val =
    s.tick.tickTimeMono.val + product (delta.setWidth 64) s.tick.periodMono := by
  rw [nextMono, projMono, Bintime.val_add, val_convertDelta]

/-- An update with a period of a 1 kHz to 10 GHz counter leaves a close period; and outside the
jump the new tick starts where the previous one ends. -/
def MonoKept (s : FfState) (op : FfOp) (s' : FfState) : Prop :=
  match op with
  | .windup _ delta none =>
    (adopts s → InRange s.ffclockData.period →
      CloseTo s'.tick.periodMono s'.tick.cdat.period) ∧
    (¬ (adopts s ∧ jumps s.ffclockStatus s.ffclockData) →
      s'.tick.tickTimeMono.val =
        s.tick.tickTimeMono.val + product (delta.setWidth 64) s.tick.periodMono)
  | _ => True

instance (s s' : FfState) : (op : FfOp) → Decidable (MonoKept s op s')
  | .windup _ _ none => inferInstanceAs (Decidable (_ ∧ _))
  | .windup _ _ (some _) | .changeTc _ _ _ | .setdata _ | .setSysclock _ => isTrue trivial

/-- An update whose gap counts finds the two clocks less than `2 ^ 63` seconds apart. -/
def GapCond (s : FfState) (op : FfOp) : Prop :=
  match op with
  | .windup _ delta none =>
    adopts s → 0 < s.ffclockData.secsToNextupdate →
      jumps s.ffclockStatus s.ffclockData = false →
        |(nextNat delta s).val.toInt - (nextMono delta s).val.toInt| < 2 ^ 127
  | _ => True

instance (s : FfState) : (op : FfOp) → Decidable (GapCond s op)
  | .windup _ _ none => inferInstanceAs (Decidable (_ → _ → _ → _))
  | .windup _ _ (some _) | .changeTc _ _ _ | .setdata _ | .setSysclock _ => isTrue trivial

/-- The difference of two clocks less than `2 ^ 63` seconds apart has the sign of the comparison. -/
theorem gap_nonneg {a b : Bintime} (h : |a.val.toInt - b.val.toInt| < 2 ^ 127) :
    0 ≤ (if a.gt b then a.sub b else b.sub a).val.toInt := by
  rw [abs_lt] at h
  by_cases hgt : a.gt b = true
  · rw [if_pos hgt, Bintime.val_sub, BitVec.toInt_sub, Int.bmod_eq_of_le (by omega) (by omega)]
    rw [Bintime.gt_iff] at hgt
    omega
  · rw [if_neg hgt, Bintime.val_sub, BitVec.toInt_sub, Int.bmod_eq_of_le (by omega) (by omega)]
    rw [Bintime.gt_iff] at hgt
    omega

/-- The gap an update shares out: none after a jump. -/
def updateGap (delta : BitVec 32) (s : FfState) : Bintime :=
  if jumps s.ffclockStatus s.ffclockData then .clear
  else if (nextNat delta s).gt (nextMono delta s) then (nextNat delta s).sub (nextMono delta s)
  else (nextMono delta s).sub (nextNat delta s)

/-- What a windup without RTC reset does to monoFFC. -/
theorem mono_windup {tcFrequency : BitVec 64} {delta : BitVec 32} {s s' : FfState}
    (h : ffclockWindup tcFrequency delta none s = some s') :
    (¬ adopts s ∧ s'.tick.tickTimeMono = nextMono delta s ∧
      s'.tick.periodMono = s.tick.periodMono) ∨
    (adopts s ∧ s'.tick.cdat = s.ffclockData ∧
      s'.tick.tickTimeMono = (if jumps s.ffclockStatus s.ffclockData then nextNat delta s
        else nextMono delta s) ∧
      monoPeriod s.ffclockData ((nextNat delta s).gt (nextMono delta s)) (updateGap delta s) =
        some s'.tick.periodMono) := by
  rcases windup_cases h with ⟨fb, utc, p, hreset, -, -⟩ | ⟨-, hadopts, rfl⟩ | ⟨p, -, hadopts,
    hp, rfl⟩
  · cases hreset
  · refine .inl ⟨hadopts, ?_⟩
    rw [tick_publish]
    simp only [windupProject, tick_ignoreStale, nextMono, projMono, and_self]
  · obtain ⟨period, hperiod, rfl⟩ := Option.map_eq_some_iff.mp hp
    refine .inr ⟨hadopts, ?_⟩
    rw [tick_publish]
    simp only [tick_ignoreStale, ffclockData_ignoreStale, ffclockStatus_ignoreStale] at hperiod ⊢
    exact ⟨trivial, rfl, hperiod⟩

/-- Outside the jump a new tick of monoFFC starts where the previous one ends. -/
theorem mono_continues {tcFrequency : BitVec 64} {delta : BitVec 32} {s s' : FfState}
    (h : ffclockWindup tcFrequency delta none s = some s')
    (hsmooth : ¬ (adopts s ∧ jumps s.ffclockStatus s.ffclockData)) :
    s'.tick.tickTimeMono.val =
      s.tick.tickTimeMono.val + product (delta.setWidth 64) s.tick.periodMono := by
  rcases mono_windup h with ⟨-, hmono, -⟩ | ⟨hadopts, -, hmono, -⟩
  · rw [hmono, val_nextMono]
  · rw [hmono, if_neg (fun hjump => hsmooth ⟨hadopts, hjump⟩), val_nextMono]

theorem monoKept_of_gapCond (s : FfState) (op : FfOp) (s' : FfState) (h : ffStep s op = some s')
    (hcond : GapCond s op) : MonoKept s op s' := by
  cases op with
  | windup tcFrequency delta reset =>
    cases reset with
    | some r => trivial
    | none =>
      have hwindup : ffclockWindup tcFrequency delta none s = some s' := h
      -- continuity needs no condition, only the size of the correction does
      refine ⟨?_, mono_continues hwindup⟩
      rcases mono_windup hwindup with ⟨hadopts, -, -⟩ | ⟨hadopts, hcdat, -, hperiod⟩
      · exact fun ha => absurd ha hadopts
      · intro _ hrange
        have hgap : 0 < s.ffclockData.secsToNextupdate → 0 ≤ (updateGap delta s).val.toInt := by
          intro hsecs
          unfold updateGap
          -- a jump leaves no gap; without one the condition says on which side monoFFC is
          by_cases hjump : jumps s.ffclockStatus s.ffclockData = true
          · rw [if_pos hjump]
            decide
          · rw [if_neg hjump]
            exact gap_nonneg (hcond hadopts hsecs (Bool.not_eq_true _ ▸ hjump))
        obtain ⟨periodMono, hspec, hclose⟩ := monoPeriod_spec
          ((nextNat delta s).gt (nextMono delta s)) hrange hgap
        rwa [hcdat, Option.some.inj (hperiod.symm.trans hspec)]
  | changeTc tc tcFrequency ncount => trivial
  | setdata cdat => trivial
  | setSysclock sysclock => trivial

/-! ## Runs -/

/-- Windups without RTC reset and without jump, and pushes of data. -/
def Smooth (s : FfState) (op : FfOp) : Prop :=
  match op with
  | .windup _ _ none => ¬ (adopts s ∧ jumps s.ffclockStatus s.ffclockData)
  | .windup _ _ (some _) => False
  | .changeTc _ _ _ => False
  | _ => True

/-- Counter units of an operation. -/
def FfOp.delta : FfOp → Nat
  | .windup _ delta _ => delta.toNat
  | _ => 0

/-- Counter units to the start of the next tick of the run, if it has one. -/
def firstDelta : List FfOp → Option Nat
  | [] => none
  | .windup _ delta _ :: _ => some delta.toNat
  | _ :: ops => firstDelta ops

/-- What monoFFC advances by over the ticks of a run, in units of `2 ^ -64` seconds. -/
def monoElapsed (s : FfState) : List FfOp → Nat
  | [] => 0
  | op :: ops => op.delta * s.tick.periodMono.toNat +
      match ffStep s op with
      | some s' => monoElapsed s' ops
      | none => 0

theorem monoElapsed_cons {s s' : FfState} {op : FfOp} (h : ffStep s op = some s')
    (ops : List FfOp) :
    monoElapsed s (op :: ops) = op.delta * s.tick.periodMono.toNat + monoElapsed s' ops := by
  rw [monoElapsed, h]

/-- One smooth operation. -/
theorem smooth_step {s s' : FfState} {op : FfOp} (h : ffStep s op = some s') (hs : Smooth s op)
    (hwrap : s.tick.tickFfcount.toNat + op.delta < 2 ^ 64) :
    s'.tick.tickTimeMono.val =
        s.tick.tickTimeMono.val + units (op.delta * s.tick.periodMono.toNat : Nat) ∧
      s'.tick.tickFfcount.toNat = s.tick.tickFfcount.toNat + op.delta := by
  -- an operation that makes no tick counts nothing
  have hsame : s'.tick = s.tick → op.delta = 0 → s'.tick.tickTimeMono.val =
        s.tick.tickTimeMono.val + units (op.delta * s.tick.periodMono.toNat : Nat) ∧
      s'.tick.tickFfcount.toNat = s.tick.tickFfcount.toNat + op.delta := by
    intro htick hdelta
    rw [htick, hdelta, Nat.zero_mul]
    exact ⟨(add_zero _).symm, rfl⟩
  cases op with
  | windup tcFrequency delta reset =>
    cases reset with
    | some r => exact hs.elim
    -- a windup adds its counts at the period of the tick that ends
    | none =>
      have hwindup : ffclockWindup tcFrequency delta none s = some s' := h
      constructor
      · rw [mono_continues hwindup hs, product_eq_units, BitVec.toNat_setWidth_of_le (by decide)]
        rfl
      · rw [tickFfcount_windup hwindup, BitVec.toNat_add, BitVec.toNat_setWidth_of_le (by decide)]
        exact Nat.mod_eq_of_lt hwrap
  | changeTc tc tcFrequency ncount => exact hs.elim
  | setdata cdat =>
    obtain rfl := Option.some.inj h
    exact hsame rfl rfl
  | setSysclock sysclock =>
    obtain rfl := Option.some.inj h
    exact hsame rfl rfl

/-- Over a smooth run monoFFC advances by the sum of its ticks. -/
theorem smooth_run {s s' : FfState} {ops : List FfOp} (h : Steps ffStep s ops s') :
    Along ffStep (fun s op _ => Smooth s op) s ops →
    s.tick.tickFfcount.toNat + (ops.map FfOp.delta).sum < 2 ^ 64 →
    s'.tick.tickTimeMono.val = s.tick.tickTimeMono.val + units (monoElapsed s ops) ∧
      s'.tick.tickFfcount.toNat = s.tick.tickFfcount.toNat + (ops.map FfOp.delta).sum := by
  induction h with
  | nil s => exact fun _ _ => ⟨(add_zero _).symm, rfl⟩
  | @cons s t s' op ops head tail ih =>
    intro hs hwrap
    rw [List.map_cons, List.sum_cons] at hwrap
    obtain ⟨hmono, hcount⟩ := smooth_step head (hs _ head).1 (by omega)
    obtain ⟨ihmono, ihcount⟩ := ih (hs _ head).2 (by omega)
    rw [List.map_cons, List.sum_cons, monoElapsed_cons head, Nat.cast_add, units_add]
    constructor
    · rw [ihmono, hmono, add_assoc]
    · omega

/-- A reading before the next tick is at most the end of the tick, in monoFFC. -/
theorem firstDelta_le {s s' : FfState} {ops : List FfOp} (h : Steps ffStep s ops s') :
    Along ffStep (fun s op _ => Smooth s op) s ops → ∀ d ∈ firstDelta ops,
      d * s.tick.periodMono.toNat ≤ monoElapsed s ops := by
  induction h with
  | nil s => exact fun _ _ hd => nomatch hd
  | @cons s t s' op ops head tail ih =>
    intro hs d hd
    rw [monoElapsed_cons head]
    cases op with
    | windup tcFrequency delta reset =>
      obtain rfl := Option.some.inj hd
      exact Nat.le_add_right _ _
    | changeTc tc tcFrequency ncount => exact (hs _ head).1.elim
    | setdata cdat =>
      obtain rfl := Option.some.inj head
      exact (ih (hs _ head).2 d hd).trans (Nat.le_add_left _ _)
    | setSysclock sysclock =>
      obtain rfl := Option.some.inj head
      exact (ih (hs _ head).2 d hd).trans (Nat.le_add_left _ _)

/-- A smooth run without a windup stays in its tick. -/
theorem tick_of_firstDelta_none {s s' : FfState} {ops : List FfOp} (h : Steps ffStep s ops s') :
    Along ffStep (fun s op _ => Smooth s op) s ops → firstDelta ops = none → s'.tick = s.tick := by
  induction h with
  | nil s => exact fun _ _ => rfl
  | @cons s t s' op ops head tail ih =>
    intro hs hnone
    cases op with
    | windup tcFrequency delta reset => exact nomatch hnone
    | changeTc tc tcFrequency ncount => exact (hs _ head).1.elim
    | setdata cdat =>
      obtain rfl := Option.some.inj head
      exact ih (hs _ head).2 hnone
    | setSysclock sysclock =>
      obtain rfl := Option.some.inj head
      exact ih (hs _ head).2 hnone

/-- The duration between a reading in the first tick of a run and one in its last. -/
def monoBetween (s s' : FfState) (ops : List FfOp) (before after : BitVec 64) : Int :=
  monoElapsed s ops - (before.toNat - s.tick.tickFfcount.toNat) * s.tick.periodMono.toNat +
    (after.toNat - s'.tick.tickFfcount.toNat) * s'.tick.periodMono.toNat

/-- The reading after is ahead of the reading before by a duration. -/
theorem readings_ahead {s s' : FfState} {ops : List FfOp} (h : Steps ffStep s ops s')
    (hs : Along ffStep (fun s op _ => Smooth s op) s ops)
    (hwrap : s.tick.tickFfcount.toNat + (ops.map FfOp.delta).sum < 2 ^ 64)
    {before after : BitVec 64} (hle : before ≤ after)
    (hticks : ∀ d ∈ firstDelta ops,
      before.toNat ≤ s.tick.tickFfcount.toNat + d ∧ s'.tick.tickFfcount ≤ after) :
    0 ≤ monoBetween s s' ops before after ∧
      (ffclockConvertAbs after FFCLOCK_MONO s').val =
        (ffclockConvertAbs before FFCLOCK_MONO s).val +
          units (monoBetween s s' ops before after) := by
  obtain ⟨hmono, hcount⟩ := smooth_run h hs hwrap
  constructor
  · cases hfirst : firstDelta ops with
    | none =>
      -- Both readings are made in one tick.
      have htick := tick_of_firstDelta_none h hs hfirst
      have hle' : (before.toNat : Int) ≤ after.toNat := Int.ofNat_le.mpr hle
      have hsplit : monoBetween s s' ops before after = monoElapsed s ops +
          ((after.toNat : Int) - before.toNat) * s.tick.periodMono.toNat := by
        rw [monoBetween, htick]
        ring
      rw [hsplit]
      exact add_nonneg (Int.natCast_nonneg _) (mul_nonneg (by omega) (Int.natCast_nonneg _))
    | some d =>
      have hfirstle := firstDelta_le h hs d hfirst
      obtain ⟨hbefore, hafter⟩ := hticks d hfirst
      have hafter' : (s'.tick.tickFfcount.toNat : Int) ≤ after.toNat := Int.ofNat_le.mpr hafter
      have hend : ((before.toNat : Int) - s.tick.tickFfcount.toNat) * s.tick.periodMono.toNat ≤
          d * s.tick.periodMono.toNat :=
        mul_le_mul_of_nonneg_right (by omega) (Int.natCast_nonneg _)
      have hlast : 0 ≤ ((after.toNat : Int) - s'.tick.tickFfcount.toNat) *
          s'.tick.periodMono.toNat := mul_nonneg (by omega) (Int.natCast_nonneg _)
      have hcast : (d * s.tick.periodMono.toNat : Int) ≤ monoElapsed s ops :=
        by exact_mod_cast hfirstle
      unfold monoBetween
      omega
  · rw [val_convertAbs _ (by decide), val_convertAbs _ (by decide)]
    show s'.tick.tickTimeMono.val + units (_ * s'.tick.periodMono.toNat) =
      s.tick.tickTimeMono.val + units (_ * s.tick.periodMono.toNat) + units _
    rw [hmono, add_assoc, add_assoc, ← units_add, ← units_add]
    refine congrArg (fun n => s.tick.tickTimeMono.val + units n) ?_
    unfold monoBetween
    ring

/-- Along every run whose updates find the two clocks less than `2 ^ 63` seconds apart, the period
of monoFFC stays close, and its ticks join up outside the jump. Readings of monoFFC do not decrease
while the counter advances over ticks that join up, as long as neither wraps. -/
theorem mono_of_gapCond (s : FfState) (ops : List FfOp)
    (hgap : Along ffStep (fun s op _ => GapCond s op) s ops) :
    Along ffStep MonoKept s ops ∧
      ∀ s', Steps ffStep s ops s' → Along ffStep (fun s op _ => Smooth s op) s ops →
        s.tick.tickFfcount.toNat + (ops.map FfOp.delta).sum < 2 ^ 64 →
        ∀ before after : BitVec 64, before ≤ after →
          (∀ d ∈ firstDelta ops,
            before.toNat ≤ s.tick.tickFfcount.toNat + d ∧ s'.tick.tickFfcount ≤ after) →
          (ffclockConvertAbs before FFCLOCK_MONO s).val.toInt +
            monoBetween s s' ops before after < 2 ^ 127 →
          (ffclockConvertAbs before FFCLOCK_MONO s).gt (ffclockConvertAbs after FFCLOCK_MONO s') =
            false := by
  constructor
  · refine along_inv (I := fun _ => True) ?_ ops s trivial hgap
    exact fun s op s' _ h hcond => ⟨trivial, monoKept_of_gapCond s op s' h hcond⟩
  · intro s' h hs hwrap before after hle hticks hlast
    obtain ⟨hnonneg, hahead⟩ := readings_ahead h hs hwrap hle hticks
    exact not_gt_of_ahead hahead hnonneg hlast

/-- A synchronising update, and a second one that is 1 ms ahead of monoFFC. -/
def oneMillisecond : List FfOp :=
  let cdat : FfclockData :=
    { updateTime := ⟨100, 0⟩, updateFfcount := 1000, leapsecExpected := 0, period := 18446744073
      errbAbs := 0, errbRate := 0, status := 0, secsToNextupdate := 16, leapsecTotal := 0
      leapsecNext := 0 }
  [.setdata cdat, .windup 1000000000 1000 none,
    .setdata { cdat with updateTime := ⟨100, 18446744073709551⟩ }, .windup 1000000000 1000 none]

theorem mono_of_gapCond_oneMillisecond :
    Along ffStep MonoKept (ffclockInit .fb) oneMillisecond :=
  (mono_of_gapCond (ffclockInit .fb) oneMillisecond (by decide +kernel)).1

/-- A synchronising update at 0.9 s, and a second one that puts natFFC at `-2 ^ 63` s. -/
def farApart : List FfOp :=
  let cdat : FfclockData :=
    { updateTime := ⟨0, 0xe666666666666666⟩, updateFfcount := 1000, leapsecExpected := 0
      period := 18446744073, errbAbs := 0, errbRate := 0, status := 0, secsToNextupdate := 1
      leapsecTotal := 0, leapsecNext := 0 }
  [.setdata cdat, .windup 1000000000 1000 none,
    .setdata { cdat with updateTime := ⟨0x8000000000000000, 0⟩, updateFfcount := 2000 },
    .windup 1000000000 1000 none]

/-- The gap of `2 ^ 63 + 0.9` s is not capped: monoFFC goes on at a tenth of the rate. -/
theorem not_mono_farApart : ¬ Along ffStep MonoKept (ffclockInit .fb) farApart := by
  decide +kernel

end RADclock.Kernel
