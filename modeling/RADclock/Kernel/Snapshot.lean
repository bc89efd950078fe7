import RADclock.Kernel.Readings
import RADclock.Kernel.Sysclock

/-!
# Snapshots of the system clocks (`kern_tc.c`)

`sysclock_getsnapshot` keeps the state of both clocks together with one reading of the counter, from
which `sysclock_snap2bintime` makes the times that the clocks would have been read as. It goes its
own way: the FBclock's interval is multiplied without the split that the direct reading has for long
ones, and the leap seconds are those of the tick.

- `sysclockGetsnapshot`, `sysclockSnap2bintime`: the code.
- `SnapAgrees`: the snapshot is read as the clocks are, at the same counter value.
- `snapAgrees_iff`: when it is.
-/

namespace RADclock.Kernel

open Lib

/-! ## The code -/

def MUS_AS_BINFRAC : BitVec 64 := 18446744073709
def SYSCLOCK_FB : Int := 0
def SYSCLOCK_FF : Int := 1
def FBCLOCK_FAST : BitVec 32 := 0x10000
def FBCLOCK_UPTIME : BitVec 32 := 0x20000

/-- What a snapshot is taken of. `tc_windup` keeps `th_bintime` at the sum of the two others. -/
structure SnapState extends ClockState where
  thBoottime : Bintime
  thOffsetCount : BitVec 32
  timeStatus : BitVec 32
  timeEsterror : BitVec 64
  bintime_eq : timehands.thBintime = timehands.thOffset.add thBoottime

/-- `struct fbclock_info`. -/
structure FbclockInfo where
  error : Bintime
  tickTime : Bintime
  thScale : BitVec 64
  status : BitVec 32
deriving DecidableEq, Repr

/-- `struct ffclock_info`. -/
structure FfclockInfo where
  error : Bintime
  tickTime : Bintime
  tickTimeMono : Bintime
  tickTimeDiff : Bintime
  ffclockBoottime : Bintime
  period : BitVec 64
  periodMono : BitVec 64
  leapsecAdjustment : Int
  status : BitVec 32
deriving DecidableEq, Repr

/-- `struct sysclock_snap`. -/
structure SysclockSnap where
  fbInfo : FbclockInfo
  ffInfo : FfclockInfo
  ffcount : BitVec 64
  delta : BitVec 32
  sysclockActive : Sysclock
deriving DecidableEq, Repr

/-- Leap seconds seen by the daemon, with the one that is due at the counter value. -/
def leapsAt (cdat : FfclockData) (ffcount : BitVec 64) : Int :=
  cdat.leapsecTotal.toInt +
    if cdat.leapsecExpected ≠ 0 ∧ cdat.leapsecExpected < ffcount then cdat.leapsecNext.toInt else 0

/-- `sysclock_getsnapshot`. -/
def sysclockGetsnapshot (fast : Bool) (t : SnapState) : SysclockSnap :=
  let delta : BitVec 32 :=
    if fast then 0
    else match t.bypass with
      | some tsc => tsc.setWidth 32 - t.thOffsetCount
      | none => t.tcDelta
  let ffth := t.ff.tick
  let cdat := ffth.cdat
  let ffcount := if fast then ffth.tickFfcount else ffth.tickFfcount + delta.setWidth 64
  let sec := t.timeEsterror.sdiv 1000000
  { fbInfo :=
      { error := ⟨sec, (t.timeEsterror - sec * 1000000) * MUS_AS_BINFRAC⟩
        tickTime := t.timehands.thOffset
        thScale := t.timehands.thScale
        status := t.timeStatus }
    ffInfo :=
      { error :=
          if fast then ffth.tickError
          else ffth.tickError.add ((ffclockConvertDelta (delta.setWidth 64) cdat.period).mul
            ((cdat.errbRate.setWidth 64 * PS_AS_BINFRAC).setWidth 32))
        tickTime := ffth.tickTime
        tickTimeMono := ffth.tickTimeMono
        tickTimeDiff := ffth.tickTimeDiff
        ffclockBoottime := ffth.ffclockBoottime
        period := cdat.period
        periodMono := ffth.periodMono
        leapsecAdjustment := leapsAt cdat ffcount
        status := cdat.status }
    ffcount := ffcount
    delta := delta
    sysclockActive := t.ff.sysclockActive }

/-- `sysclock_snap2bintime`, with what `getboottimebin` returns. -/
def sysclockSnap2bintime (boottimebin : Bintime) (cs : SysclockSnap) (clockfamily : Int)
    (flags : BitVec 32) : Option Bintime :=
  if clockfamily = SYSCLOCK_FB then
    let bt := cs.fbInfo.tickTime
    let bt :=
      if flags &&& FBCLOCK_FAST = 0 ∧ 0 < cs.delta then
        bt.addx (cs.fbInfo.thScale * cs.delta.setWidth 64)
      else bt
    some (if flags &&& FBCLOCK_UPTIME = 0 then bt.add boottimebin else bt)
  else if clockfamily = SYSCLOCK_FF then
    let mono : Bool := flags &&& FFCLOCK_MONO ≠ 0
    let diff : Bool := flags &&& FFCLOCK_DIFF ≠ 0
    let uptime : Bool := flags &&& FFCLOCK_UPTIME ≠ 0
    let period := if mono then cs.ffInfo.periodMono else cs.ffInfo.period
    let bt :=
      if mono then cs.ffInfo.tickTimeMono
      else if diff ∧ ¬ uptime then cs.ffInfo.tickTimeDiff
      else cs.ffInfo.tickTime
    let bt :=
      if flags &&& FFCLOCK_FAST = 0 ∧ 0 < cs.delta then
        bt.add (ffclockConvertDelta (cs.delta.setWidth 64) period)
      else bt
    -- Add appropriate const for Uptime, UTC, or diffFFC clock.
    some
      (if uptime then bt.sub cs.ffInfo.ffclockBoottime
      else if ¬ diff ∨ mono then { bt with sec := bt.sec - .ofInt 64 cs.ffInfo.leapsecAdjustment }
      else bt)
  else none

/-! ## Agreement -/

/-- The flags that the readers of the FFclock pass on. -/
def wrapperFlags : List (BitVec 32) :=
  [FFCLOCK_MONO ||| FFCLOCK_LEAPSEC, FFCLOCK_MONO ||| FFCLOCK_LEAPSEC ||| FFCLOCK_FAST,
    FFCLOCK_MONO ||| FFCLOCK_UPTIME, FFCLOCK_MONO ||| FFCLOCK_UPTIME ||| FFCLOCK_FAST]

/-- The snapshot that is not fast. -/
def SnapState.snap (t : SnapState) : SysclockSnap := sysclockGetsnapshot false t

/-- The clocks, with the counter as the snapshot has it. -/
def SnapState.atSnap (t : SnapState) : ClockState :=
  { t.toClockState with tcDelta := t.snap.delta }

/-- The snapshot is read as the clocks are at its counter value. -/
structure SnapAgrees (t : SnapState) : Prop where
  ff : ∀ flags ∈ wrapperFlags, sysclockSnap2bintime t.thBoottime t.snap SYSCLOCK_FF flags =
    some (ffclockAbstime flags t.snap.ffcount t.ff).2.1
  utc : sysclockSnap2bintime t.thBoottime t.snap SYSCLOCK_FB 0 = some (fbclockBintime t.atSnap)
  uptime : sysclockSnap2bintime t.thBoottime t.snap SYSCLOCK_FB FBCLOCK_UPTIME =
    some (fbclockBinuptime t.atSnap)

/-- The product of the FBclock's interval fits, the counter value is past that of the tick, and the
daemon's leap seconds are those of the tick: at the counter value, and at the start of the tick for
the readings that are of it. -/
structure Plain (t : SnapState) : Prop where
  scale : t.snap.delta < t.timehands.thLargeDelta ∨
    t.timehands.thScale.toNat * t.snap.delta.toNat < 2 ^ 64
  count : t.ff.tick.tickFfcount.toNat + t.snap.delta.toNat < 2 ^ 64 ∨ t.ff.tick.periodMono = 0
  leaps : leapsAt t.ff.ffclockData t.snap.ffcount = leapsAt t.ff.tick.cdat t.snap.ffcount
  fast : leapsAt t.ff.ffclockData t.ff.tick.tickFfcount = leapsAt t.ff.tick.cdat t.snap.ffcount

section

variable {t : SnapState}

/-! ## The FBclock -/

/-- The two halves of the scale are multiplied without overflow. -/
theorem val_bintimeAddTcDelta (bt : Bintime) (scale : BitVec 64) (largeDelta delta : BitVec 32) :
    (bintimeAddTcDelta bt scale (largeDelta.setWidth 64) (delta.setWidth 64)).val =
      bt.val + if delta < largeDelta then (scale * delta.setWidth 64).setWidth 128
        else product scale (delta.setWidth 64) := by
  have hd := delta.isLt
  have hs := scale.isLt
  have hle : largeDelta.setWidth 64 ≤ delta.setWidth 64 ↔ ¬ delta < largeDelta := by
    simp only [BitVec.le_def, BitVec.lt_def, BitVec.toNat_setWidth]
    have := largeDelta.isLt
    omega
  unfold bintimeAddTcDelta
  simp only [hle]
  -- below largeDelta the product fits 64 bits
  by_cases hlt : delta < largeDelta
  · rw [if_neg (not_not.mpr hlt), if_pos hlt, Bintime.val_addx]
  · rw [if_pos hlt, if_neg hlt]
    have hx : scale.toNat / 2 ^ 32 * delta.toNat < 2 ^ 64 :=
      Nat.mul_lt_mul'' (c := 2 ^ 32) (d := 2 ^ 32) (by omega) hd
    have hy : scale.toNat % 2 ^ 32 * delta.toNat < 2 ^ 64 :=
      Nat.mul_lt_mul'' (c := 2 ^ 32) (d := 2 ^ 32) (by omega) hd
    have hwide : (delta.setWidth 64).toNat = delta.toNat := BitVec.toNat_setWidth_of_le (by decide)
    have hhigh : ((scale >>> 32) * delta.setWidth 64).toNat =
        scale.toNat / 2 ^ 32 * delta.toNat := by
      rw [BitVec.toNat_mul, BitVec.toNat_ushiftRight, Nat.shiftRight_eq_div_pow, hwide,
        Nat.mod_eq_of_lt hx]
    have hlow : ((scale &&& 0xffffffff#64) * delta.setWidth 64).toNat =
        scale.toNat % 2 ^ 32 * delta.toNat := by
      rw [BitVec.toNat_mul, Bintime.toNat_low, hwide, Nat.mod_eq_of_lt hy]
    -- otherwise it is taken by halves of the scale
    have hprod : scale.toNat * delta.toNat =
        scale.toNat / 2 ^ 32 * delta.toNat * 2 ^ 32 + scale.toNat % 2 ^ 32 * delta.toNat := by
      conv_lhs => rw [← Nat.div_add_mod scale.toNat (2 ^ 32)]
      ring
    apply BitVec.eq_of_toNat_eq
    rw [Bintime.val_addx, Bintime.val_addx]
    simp only [BitVec.toNat_add, Bintime.toNat_val, BitVec.toNat_setWidth, BitVec.toNat_shiftLeft,
      BitVec.toNat_ushiftRight, hhigh, hlow, Nat.shiftLeft_eq, Nat.shiftRight_eq_div_pow,
      toNat_product, Nat.mod_eq_of_lt (show delta.toNat < 2 ^ 64 by omega), hprod]
    generalize scale.toNat / 2 ^ 32 * delta.toNat = x at *
    generalize scale.toNat % 2 ^ 32 * delta.toNat = y at *
    omega

/-- The product in 64 bits is the interval if it fits. -/
theorem setWidth_mul_eq_iff (scale : BitVec 64) (largeDelta delta : BitVec 32) :
    (scale * delta.setWidth 64).setWidth 128 =
        (if delta < largeDelta then (scale * delta.setWidth 64).setWidth 128
          else product scale (delta.setWidth 64)) ↔
      delta < largeDelta ∨ scale.toNat * delta.toNat < 2 ^ 64 := by
  by_cases hlt : delta < largeDelta
  · rw [if_pos hlt]
    exact iff_of_true rfl (.inl hlt)
  · rw [if_neg hlt, or_iff_right hlt]
    have hd := delta.isLt
    have hwide : (delta.setWidth 64).toNat = delta.toNat := BitVec.toNat_setWidth_of_le (by decide)
    rw [← BitVec.toNat_inj, toNat_product, BitVec.toNat_setWidth_of_le (by decide),
      BitVec.toNat_mul, hwide]
    constructor
    · intro h
      rw [← h]
      exact Nat.mod_lt _ (by decide)
    · exact Nat.mod_eq_of_lt

/-- The FBclock's start of the tick, moved on by the interval of the snapshot. -/
theorem val_snapUptime (t : SnapState) :
    (if 0 < t.snap.delta then
      t.timehands.thOffset.addx (t.timehands.thScale * t.snap.delta.setWidth 64)
      else t.timehands.thOffset).val =
      t.timehands.thOffset.val + (t.timehands.thScale * t.snap.delta.setWidth 64).setWidth 128 := by
  split
  · exact Bintime.val_addx _ _
  · rename_i hzero
    have hzero : t.snap.delta = 0 := BitVec.eq_of_toNat_eq (Nat.eq_zero_of_not_pos hzero)
    simp [hzero]

theorem snapUptime_eq_iff (t : SnapState) :
    sysclockSnap2bintime t.thBoottime t.snap SYSCLOCK_FB FBCLOCK_UPTIME =
        some (fbclockBinuptime t.atSnap) ↔
      t.snap.delta < t.timehands.thLargeDelta ∨
        t.timehands.thScale.toNat * t.snap.delta.toNat < 2 ^ 64 := by
  have hsnap : sysclockSnap2bintime t.thBoottime t.snap SYSCLOCK_FB FBCLOCK_UPTIME =
      some (if 0 < t.snap.delta then
        t.timehands.thOffset.addx (t.timehands.thScale * t.snap.delta.setWidth 64)
        else t.timehands.thOffset) := by
    simp [sysclockSnap2bintime, FBCLOCK_UPTIME, FBCLOCK_FAST, SnapState.snap, sysclockGetsnapshot]
  rw [hsnap, Option.some_inj, ← Bintime.val_inj_iff, val_snapUptime, fbclockBinuptime, getthbintime]
  show _ = (bintimeAddTcDelta t.timehands.thOffset t.timehands.thScale
    (t.timehands.thLargeDelta.setWidth 64) (t.snap.delta.setWidth 64)).val ↔ _
  rw [val_bintimeAddTcDelta, add_right_inj, setWidth_mul_eq_iff]

theorem snapUtc_eq_iff (t : SnapState) :
    sysclockSnap2bintime t.thBoottime t.snap SYSCLOCK_FB 0 = some (fbclockBintime t.atSnap) ↔
      t.snap.delta < t.timehands.thLargeDelta ∨
        t.timehands.thScale.toNat * t.snap.delta.toNat < 2 ^ 64 := by
  have hsnap : sysclockSnap2bintime t.thBoottime t.snap SYSCLOCK_FB 0 =
      some ((if 0 < t.snap.delta then
        t.timehands.thOffset.addx (t.timehands.thScale * t.snap.delta.setWidth 64)
        else t.timehands.thOffset).add t.thBoottime) := by
    simp [sysclockSnap2bintime, SnapState.snap, sysclockGetsnapshot]
  rw [hsnap, Option.some_inj, ← Bintime.val_inj_iff, Bintime.val_add, val_snapUptime,
    fbclockBintime, getthbintime]
  show _ = (bintimeAddTcDelta t.timehands.thBintime t.timehands.thScale
    (t.timehands.thLargeDelta.setWidth 64) (t.snap.delta.setWidth 64)).val ↔ _
  rw [val_bintimeAddTcDelta, t.bintime_eq, Bintime.val_add, add_right_comm, add_right_inj,
    setWidth_mul_eq_iff]

/-! ## The FFclock -/

/-- The point that the snapshot goes to on the line of a clock, before leap seconds. -/
def snapPoint (t : SnapState) (flags : BitVec 32) : Bintime :=
  if 0 < t.snap.delta then
    (t.ff.tick.start flags).add
      (ffclockConvertDelta (t.snap.delta.setWidth 64) (t.ff.tick.periodOf flags))
  else t.ff.tick.start flags

theorem val_snapPoint (t : SnapState) (flags : BitVec 32) :
    (snapPoint t flags).val = (t.ff.tick.start flags).val +
      units (t.snap.delta.toNat * (t.ff.tick.periodOf flags).toNat) := by
  have hwide : (t.snap.delta.setWidth 64).toNat = t.snap.delta.toNat :=
    BitVec.toNat_setWidth_of_le (by decide)
  unfold snapPoint
  split
  · rw [Bintime.val_add, val_convertDelta, product_eq_units, hwide]
  · rename_i hzero
    have hzero : t.snap.delta.toNat = 0 := Nat.eq_zero_of_not_pos hzero
    rw [hzero, Nat.cast_zero, zero_mul]
    exact (add_zero _).symm

/-- A period of a second and more of the 64 bit counter does not vanish. -/
theorem units_wrap_eq_zero_iff (period : BitVec 64) :
    units (2 ^ 64 * period.toNat) = 0 ↔ period = 0 := by
  have hlt := period.isLt
  have hcast : (2 ^ 64 * (period.toNat : Int)) = ((2 ^ 64 * period.toNat : Nat) : Int) := by
    push_cast
    rfl
  rw [hcast, units, BitVec.ofInt_natCast, ← BitVec.toNat_inj, ← BitVec.toNat_inj (y := 0),
    BitVec.toNat_ofNat, Nat.mod_eq_of_lt (by omega)]
  show _ = 0 ↔ _ = 0
  omega

/-- The direct reading is on the same point of the line, unless the counter wraps. -/
theorem snapPoint_eq_iff {t : SnapState} {flags : BitVec 32}
    (hutc : has flags FFCLOCK_UPTIME = false) :
    snapPoint t flags = ffclockConvertAbs t.snap.ffcount flags t.ff ↔
      t.ff.tick.tickFfcount.toNat + t.snap.delta.toNat < 2 ^ 64 ∨
        t.ff.tick.periodOf flags = 0 := by
  have hcount : t.snap.ffcount.toNat =
      (t.ff.tick.tickFfcount.toNat + t.snap.delta.toNat) % 2 ^ 64 := by
    show (t.ff.tick.tickFfcount + t.snap.delta.setWidth 64).toNat = _
    rw [BitVec.toNat_add, BitVec.toNat_setWidth_of_le (by decide)]
  rw [← Bintime.val_inj_iff, val_snapPoint, val_convertAbs _ hutc, add_right_inj]
  by_cases hfit : t.ff.tick.tickFfcount.toNat + t.snap.delta.toNat < 2 ^ 64
  · refine iff_of_true ?_ (.inl hfit)
    rw [hcount, Nat.mod_eq_of_lt hfit]
    congr 2
    omega
  · -- the counter value is that of a wrap before
    have hwrap : (t.snap.delta.toNat : Int) =
        t.snap.ffcount.toNat - t.ff.tick.tickFfcount.toNat + 2 ^ 64 := by
      have := t.ff.tick.tickFfcount.isLt
      have := t.snap.delta.isLt
      omega
    rw [or_iff_right hfit, ← units_wrap_eq_zero_iff, hwrap, add_mul, units_add, add_eq_left]

/-- Leap seconds as they are subtracted. -/
theorem subtractLeaps_eq (cdat : FfclockData) (ffc : BitVec 64) (bt : Bintime) :
    subtractLeaps cdat ffc bt = { bt with sec := bt.sec - .ofInt 64 (leapsAt cdat ffc) } := by
  unfold subtractLeaps leapsAt
  simp only
  split
  · rw [BitVec.ofInt_add, ← sub_sub]
    rfl
  · rw [Int.add_zero]
    rfl

/-- A few leap seconds are told apart. -/
theorem leapsAt_eq_iff (cdat cdat' : FfclockData) (ffc ffc' : BitVec 64) :
    BitVec.ofInt 64 (leapsAt cdat ffc) = .ofInt 64 (leapsAt cdat' ffc') ↔
      leapsAt cdat ffc = leapsAt cdat' ffc' := by
  have hbound : ∀ (cdat : FfclockData) (ffc : BitVec 64),
      -256 ≤ leapsAt cdat ffc ∧ leapsAt cdat ffc ≤ 256 := by
    intro cdat ffc
    have htotal := cdat.leapsecTotal.isLt
    have hnext := cdat.leapsecNext.isLt
    have htotal' := BitVec.toInt_eq_toNat_cond cdat.leapsecTotal
    have hnext' := BitVec.toInt_eq_toNat_cond cdat.leapsecNext
    unfold leapsAt
    constructor <;> split_ifs at * <;> omega
  have hround : ∀ (cdat : FfclockData) (ffc : BitVec 64),
      (BitVec.ofInt 64 (leapsAt cdat ffc)).toInt = leapsAt cdat ffc := by
    intro cdat ffc
    obtain ⟨hlow, hhigh⟩ := hbound cdat ffc
    rw [BitVec.toInt_ofInt]
    apply Int.bmod_eq_of_le <;> omega
  rw [← BitVec.toInt_inj, hround, hround]

/-- A UTC of the snapshot is that of the clock if the time and the leap seconds are. -/
theorem subtractLeaps_eq_iff (cdat cdat' : FfclockData) (ffc ffc' : BitVec 64) (bt : Bintime) :
    { bt with sec := bt.sec - .ofInt 64 (leapsAt cdat ffc) } = subtractLeaps cdat' ffc' bt ↔
      leapsAt cdat' ffc' = leapsAt cdat ffc := by
  rw [subtractLeaps_eq, ← leapsAt_eq_iff, Bintime.mk.injEq, and_iff_left rfl, sub_right_inj,
    eq_comm]

theorem sub_eq_sub_iff (a b c : Bintime) : a.sub c = b.sub c ↔ a = b := by
  rw [← Bintime.val_inj_iff, Bintime.val_sub, Bintime.val_sub, sub_left_inj, Bintime.val_inj_iff]

theorem snapFf_iff (t : SnapState) :
    (∀ flags ∈ wrapperFlags, sysclockSnap2bintime t.thBoottime t.snap SYSCLOCK_FF flags =
        some (ffclockAbstime flags t.snap.ffcount t.ff).2.1) ↔
      (t.ff.tick.tickFfcount.toNat + t.snap.delta.toNat < 2 ^ 64 ∨ t.ff.tick.periodMono = 0) ∧
        leapsAt t.ff.ffclockData t.snap.ffcount = leapsAt t.ff.tick.cdat t.snap.ffcount ∧
        leapsAt t.ff.ffclockData t.ff.tick.tickFfcount =
          leapsAt t.ff.tick.cdat t.snap.ffcount := by
  -- the four readings of the snapshot, then the four of the clock
  have hutc : sysclockSnap2bintime t.thBoottime t.snap SYSCLOCK_FF
      (FFCLOCK_MONO ||| FFCLOCK_LEAPSEC) =
        some { snapPoint t FFCLOCK_MONO with
          sec := (snapPoint t FFCLOCK_MONO).sec -
            .ofInt 64 (leapsAt t.ff.tick.cdat t.snap.ffcount) } := by
    have hflag : (FFCLOCK_MONO ||| FFCLOCK_LEAPSEC) &&& FFCLOCK_FAST = 0 := rfl
    unfold sysclockSnap2bintime snapPoint
    simp only [hflag, true_and]
    rfl
  have hfast : sysclockSnap2bintime t.thBoottime t.snap SYSCLOCK_FF
      (FFCLOCK_MONO ||| FFCLOCK_LEAPSEC ||| FFCLOCK_FAST) =
        some { t.ff.tick.tickTimeMono with
          sec := t.ff.tick.tickTimeMono.sec -
            .ofInt 64 (leapsAt t.ff.tick.cdat t.snap.ffcount) } := rfl
  have hup : sysclockSnap2bintime t.thBoottime t.snap SYSCLOCK_FF
      (FFCLOCK_MONO ||| FFCLOCK_UPTIME) =
        some ((snapPoint t FFCLOCK_MONO).sub t.ff.tick.ffclockBoottime) := by
    have hflag : (FFCLOCK_MONO ||| FFCLOCK_UPTIME) &&& FFCLOCK_FAST = 0 := rfl
    unfold sysclockSnap2bintime snapPoint
    simp only [hflag, true_and]
    rfl
  have hupfast : sysclockSnap2bintime t.thBoottime t.snap SYSCLOCK_FF
      (FFCLOCK_MONO ||| FFCLOCK_UPTIME ||| FFCLOCK_FAST) =
        some (t.ff.tick.tickTimeMono.sub t.ff.tick.ffclockBoottime) := rfl
  have hutc' : (ffclockAbstime (FFCLOCK_MONO ||| FFCLOCK_LEAPSEC) t.snap.ffcount t.ff).2.1 =
      subtractLeaps t.ff.ffclockData t.snap.ffcount
        (ffclockConvertAbs t.snap.ffcount FFCLOCK_MONO t.ff) := rfl
  have hfast' : (ffclockAbstime (FFCLOCK_MONO ||| FFCLOCK_LEAPSEC ||| FFCLOCK_FAST)
      t.snap.ffcount t.ff).2.1 =
        subtractLeaps t.ff.ffclockData t.ff.tick.tickFfcount t.ff.tick.tickTimeMono := rfl
  have hup' : (ffclockAbstime (FFCLOCK_MONO ||| FFCLOCK_UPTIME) t.snap.ffcount t.ff).2.1 =
      (ffclockConvertAbs t.snap.ffcount FFCLOCK_MONO t.ff).sub t.ff.tick.ffclockBoottime := rfl
  have hupfast' : (ffclockAbstime (FFCLOCK_MONO ||| FFCLOCK_UPTIME ||| FFCLOCK_FAST)
      t.snap.ffcount t.ff).2.1 = t.ff.tick.tickTimeMono.sub t.ff.tick.ffclockBoottime := rfl
  simp only [wrapperFlags, List.forall_mem_cons, List.not_mem_nil, false_imp_iff, implies_true,
    and_true, hutc, hutc', hfast, hfast', hup, hup', hupfast, hupfast', Option.some_inj,
    subtractLeaps_eq_iff, sub_eq_sub_iff]
  have hpoint : snapPoint t FFCLOCK_MONO =
      ffclockConvertAbs t.snap.ffcount FFCLOCK_MONO t.ff ↔
        t.ff.tick.tickFfcount.toNat + t.snap.delta.toNat < 2 ^ 64 ∨ t.ff.tick.periodMono = 0 :=
    snapPoint_eq_iff rfl
  rw [← hpoint]
  constructor
  · rintro ⟨hleaps, hfast, hmono⟩
    refine ⟨hmono, ?_, hfast⟩
    rwa [← hmono, subtractLeaps_eq_iff] at hleaps
  · rintro ⟨hmono, hleaps, hfast⟩
    refine ⟨?_, hfast, hmono⟩
    rwa [← hmono, subtractLeaps_eq_iff]

end

/-- A snapshot is read as the clocks are exactly if the FBclock's product fits, the counter has not
wrapped, and the leap seconds are the same. -/
theorem snapAgrees_iff (t : SnapState) : SnapAgrees t ↔ Plain t := by
  constructor
  · intro h
    obtain ⟨hcount, hleaps, hfast⟩ := (snapFf_iff t).mp h.ff
    exact ⟨(snapUptime_eq_iff t).mp h.uptime, hcount, hleaps, hfast⟩
  · intro h
    exact
      { ff := (snapFf_iff t).mpr ⟨h.count, h.leaps, h.fast⟩
        utc := (snapUtc_eq_iff t).mpr h.scale
        uptime := (snapUptime_eq_iff t).mpr h.scale }

/-- Three seconds after a tick, with a counter of 1 GHz. -/
def missedTicks : SnapState where
  timehands := tenSecondsUp.timehands
  ff := ffclockInit .fb
  tcDelta := 3000000000
  bypass := none
  thBoottime := ⟨1700000000, 0⟩
  thOffsetCount := 0
  timeStatus := 0
  timeEsterror := 0
  bintime_eq := rfl

/-- The snapshot loses the whole seconds, though nothing is pending. -/
theorem not_snapAgrees : ¬ ∀ t : SnapState, t.ff.ffclockUpdated = 0 →
    t.ff.ffclockData = t.ff.tick.cdat → SnapAgrees t := by
  intro h
  have hscale := ((snapAgrees_iff missedTicks).mp (h missedTicks rfl rfl)).scale
  revert hscale
  decide

end RADclock.Kernel
