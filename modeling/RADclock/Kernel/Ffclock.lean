import Mathlib.Logic.Function.Basic
import RADclock.Lib.Bintime

/-!
# The feedforward clock of the kernel (`kern_tc.c`, `kern_ffclock.c`)

The kernel keeps the state of the FFclock at the start of each tick in a ring of ten
`fftimehands`. `ffclock_windup` prepares the next one from the current one: by projection when the
daemon has pushed nothing, from the daemon's data when it has, from the time of the RTC when that
was reset. `ffclock_change_tc` prepares one when the counter is replaced. Both write into a slot
that still holds the tick of ten ticks ago, and that is how they are modelled: what a branch does
not assign keeps its old value.

- `FfclockData`, `Fftimehands`, `FfState`: the data of the daemon, a tick, and the globals.
- `ffclockConvertDelta`: a number of counter units in seconds.
- `ffclockWindup`, `ffclockChangeTc`, `ffclockSetdata`: the three writers.
- `ffclockLastTick`, `ffclockConvertAbs`, `ffclockConvertDiff`, `ffclockAbstime`: the readers.
- `windup_cases`: what a windup can do.
- `FfOp`, `ffStep`: the operations as one step function.
-/

namespace RADclock.Kernel

open Lib

/-! ## Data -/

/-- `struct ffclock_data`. -/
structure FfclockData where
  updateTime : Bintime
  updateFfcount : BitVec 64
  leapsecExpected : BitVec 64
  period : BitVec 64
  errbAbs : BitVec 32
  errbRate : BitVec 32
  status : BitVec 32
  secsToNextupdate : BitVec 16
  leapsecTotal : BitVec 8
  leapsecNext : BitVec 8
deriving DecidableEq, Repr

/-- `struct fftimehands`; the next one is that of the next index. -/
structure Fftimehands where
  cdat : FfclockData
  tickTime : Bintime
  tickTimeMono : Bintime
  tickTimeDiff : Bintime
  ffclockBoottime : Bintime
  tickError : Bintime
  tickFfcount : BitVec 64
  periodMono : BitVec 64
  gen : BitVec 8
deriving DecidableEq, Repr

/-- `sysclock_active`. -/
inductive Sysclock where
  | fb | ff
deriving DecidableEq, Repr

instance neZero_ten : NeZero (10 : Nat) := ⟨by decide⟩

/-- The globals of the FFclock. -/
structure FfState where
  ffth : Fin 10 → Fftimehands
  /-- The current tick. -/
  fftimehands : Fin 10
  ffclockData : FfclockData
  ffclockStatus : BitVec 32
  ffclockUpdated : BitVec 8
  sysclockActive : Sysclock

/-- The current tick. -/
def FfState.tick (s : FfState) : Fftimehands := s.ffth s.fftimehands

/-- The slot of the next tick, with what it holds from ten ticks ago. -/
def FfState.stale (s : FfState) : Fftimehands := s.ffth (s.fftimehands + 1)

def NS_AS_BINFRAC : BitVec 64 := 18446744073
def PS_AS_BINFRAC : BitVec 64 := 18446744
def FFCLOCK_STA_UNSYNC : BitVec 32 := 1
def FFCLOCK_SKM_SCALE : Int := 1024

/-- `(status & FFCLOCK_STA_UNSYNC) == FFCLOCK_STA_UNSYNC`. -/
def unsync (status : BitVec 32) : Bool := status &&& FFCLOCK_STA_UNSYNC = FFCLOCK_STA_UNSYNC

/-! ## Counter units in seconds -/

/-- One safe chunk of an interval, at most `delta_max`. -/
def chunk (ffdelta : BitVec 64) : BitVec 64 :=
  if 0xffffffff#64 < ffdelta then 0xffffffff#64 else ffdelta

theorem toNat_chunk (ffdelta : BitVec 64) : (chunk ffdelta).toNat =
    min 0xffffffff ffdelta.toNat := by
  have hmax : (0xffffffff#64).toNat = 0xffffffff := rfl
  unfold chunk
  simp only [BitVec.lt_def, hmax]
  split <;> omega

theorem toNat_sub_chunk (ffdelta : BitVec 64) :
    (ffdelta - chunk ffdelta).toNat = ffdelta.toNat - 0xffffffff := by
  have hle : chunk ffdelta ≤ ffdelta := by
    rw [BitVec.le_def, toNat_chunk]
    omega
  rw [BitVec.toNat_sub_of_le hle, toNat_chunk]
  omega

/-- The loop of `ffclock_convert_delta`, one chunk at a time. -/
def convertDeltaLoop (ffdelta period : BitVec 64) (bt : Bintime) : Bintime :=
  let delta := chunk ffdelta
  let bt := bt.add ((Bintime.mk 0 period).mul (delta.setWidth 32))
  if 0 < ffdelta - delta then convertDeltaLoop (ffdelta - delta) period bt else bt
termination_by ffdelta.toNat
decreasing_by
  rename_i h
  rw [BitVec.lt_def, toNat_sub_chunk, show (0 : BitVec 64).toNat = 0 from rfl] at h
  rw [toNat_sub_chunk]
  omega

/-- `ffclock_convert_delta`. -/
def ffclockConvertDelta (ffdelta period : BitVec 64) : Bintime :=
  convertDeltaLoop ffdelta period .clear

/-- The product, in units of `2 ^ -64` seconds. -/
def product (ffdelta period : BitVec 64) : BitVec 128 :=
  ffdelta.setWidth 128 * period.setWidth 128

@[simp] theorem product_zero (period : BitVec 64) : product 0 period = 0 := zero_mul _

theorem val_period (period : BitVec 64) : (Bintime.mk 0 period).val = period.setWidth 128 := by
  apply BitVec.eq_of_toNat_eq
  rw [Bintime.toNat_val, BitVec.toNat_setWidth_of_le (by decide)]
  exact (congrArg (· + period.toNat) (Nat.zero_mul _)).trans (Nat.zero_add _)

/-- A chunk fits into an `unsigned int`, and what is left is smaller by it. -/
theorem product_chunk (ffdelta period : BitVec 64) :
    product ffdelta period =
      period.setWidth 128 * ((chunk ffdelta).setWidth 32).setWidth 128 +
        product (ffdelta - chunk ffdelta) period := by
  have hsplit : ffdelta.setWidth 128 =
      ((chunk ffdelta).setWidth 32).setWidth 128 + (ffdelta - chunk ffdelta).setWidth 128 := by
    apply BitVec.eq_of_toNat_eq
    have hlt := ffdelta.isLt
    have hchunk := toNat_chunk ffdelta
    simp only [BitVec.toNat_add, BitVec.toNat_setWidth, toNat_sub_chunk]
    omega
  rw [product, product, hsplit]
  ring

theorem val_convertDeltaLoop (period : BitVec 64) : ∀ (n : Nat) (ffdelta : BitVec 64)
    (bt : Bintime), ffdelta.toNat = n →
      (convertDeltaLoop ffdelta period bt).val = bt.val + product ffdelta period := by
  intro n
  induction n using Nat.strong_induction_on with
  | _ n ih =>
    intro ffdelta bt hn
    rw [convertDeltaLoop]
    have hsub := toNat_sub_chunk ffdelta
    by_cases hrest : 0 < ffdelta - chunk ffdelta
    · have hpos : 0 < (ffdelta - chunk ffdelta).toNat := hrest
      rw [if_pos hrest, ih _ (by omega) _ _ rfl, Bintime.val_add, Bintime.val_mul, val_period,
        product_chunk ffdelta period, add_assoc]
    · have hzero : ffdelta - chunk ffdelta = 0 := by
        apply BitVec.eq_of_toNat_eq
        exact Nat.eq_zero_of_not_pos hrest
      rw [if_neg hrest, Bintime.val_add, Bintime.val_mul, val_period,
        product_chunk ffdelta period, hzero, product_zero, add_zero]

theorem val_convertDelta (ffdelta period : BitVec 64) :
    (ffclockConvertDelta ffdelta period).val = product ffdelta period := by
  rw [ffclockConvertDelta, val_convertDeltaLoop period _ ffdelta .clear rfl, Bintime.val_clear,
    zero_add]

/-- Division traps on zero. -/
def quot (a b : BitVec 64) : Option (BitVec 64) := if b = 0 then none else some (a / b)

/-- `((1ULL << 63) / tc_frequency) << 1`. -/
def counterPeriod (tcFrequency : BitVec 64) : Option (BitVec 64) :=
  (quot (1#64 <<< 63) tcFrequency).map fun half : BitVec 64 => half <<< (1 : Nat)

/-! ## The branches of `ffclock_windup`

`ffth` is the slot of the next tick. -/

/-- The boot time after an RTC reset with the FFclock as the system clock. -/
def resetBoottime (ffdelta : BitVec 64) (resetUTC : Bintime) (cur ffth : Fftimehands) : Bintime :=
  -- What monoFFC would have been, with the period the slot holds.
  let mono := cur.tickTimeMono.add (ffclockConvertDelta ffdelta ffth.periodMono)
  if resetUTC.gt mono then ffth.ffclockBoottime.add (resetUTC.sub mono)
  else ffth.ffclockBoottime.sub (mono.sub resetUTC)

/-- An RTC reset. -/
def windupReset (tcFrequency ffdelta : BitVec 64) (resetFBboottime resetUTC : Bintime)
    (s : FfState) (ffth : Fftimehands) : Option (FfState × Fftimehands) :=
  let boottime := match s.sysclockActive with
    | .fb => resetFBboottime
    | .ff => resetBoottime ffdelta resetUTC s.tick ffth
  let period := if s.tick.cdat.period = 0 then counterPeriod tcFrequency
    else some s.tick.cdat.period
  period.map fun period =>
    let cdat : FfclockData :=
      { updateTime := resetUTC, updateFfcount := ffth.tickFfcount, leapsecExpected := 0
        period := period, errbAbs := 0, errbRate := 0, status := FFCLOCK_STA_UNSYNC
        secsToNextupdate := 0, leapsecTotal := 0, leapsecNext := 0 }
    ({ s with ffclockData := cdat, ffclockUpdated := 0, ffclockStatus := FFCLOCK_STA_UNSYNC },
      { ffth with
        cdat := cdat, ffclockBoottime := boottime, tickTime := resetUTC, tickTimeMono := resetUTC
        tickTimeDiff := resetUTC, tickError := .clear, periodMono := cdat.period })

/-- A daemon update from before an RTC reset is ignored. -/
def ignoreStale (s : FfState) : FfState :=
  if 0 < s.ffclockUpdated.toInt ∧ s.tick.cdat.secsToNextupdate = 0 ∧
      s.tick.cdat.updateTime.gt s.ffclockData.updateTime then
    { s with ffclockUpdated := 0 }
  else s

/-- No update to process: the tick is projected from the previous one. -/
def windupProject (ffdelta : BitVec 64) (s : FfState) (ffth : Fftimehands) :
    FfState × Fftimehands :=
  let cdat := s.tick.cdat
  let bt := ffclockConvertDelta ffdelta cdat.period
  let tickTime := s.tick.tickTime.add bt
  let ffth := { ffth with
    cdat := cdat
    tickTime := tickTime
    tickTimeDiff := s.tick.tickTimeDiff.add bt
    tickError := ffth.tickError.add
      (bt.mul ((cdat.errbRate.setWidth 64 * PS_AS_BINFRAC).setWidth 32))
    periodMono := s.tick.periodMono
    tickTimeMono := s.tick.tickTimeMono.add (ffclockConvertDelta ffdelta s.tick.periodMono) }
  let age := (tickTime.sub cdat.updateTime).sec.toInt
  let unsynced : Bool := s.ffclockUpdated = 0 ∧ 3 * FFCLOCK_SKM_SCALE < age ∧
    3 * (cdat.secsToNextupdate.toNat : Int) < age
  (if unsynced then { s with ffclockStatus := s.ffclockStatus ||| FFCLOCK_STA_UNSYNC } else s, ffth)

/-- The portion of the gap to make up in each counter cycle. -/
def gapPerCycle (period : BitVec 64) (secs : BitVec 16) (gap : Bintime) : Option (BitVec 64) :=
  let cap := (Bintime.mk 0 (5000000 * NS_AS_BINFRAC)).mul (secs.setWidth 32)
  let gap := if gap.gt cap then cap else gap
  (quot (-1) period).bind fun cyclesPerSec =>
    let ffdelta := cyclesPerSec * secs.setWidth 64
    let whole := if 0 < gap.sec.toInt then (quot ffdelta gap.sec).bind fun q => quot (-1) q
      else some 0
    whole.bind fun frac => (quot gap.frac ffdelta).map (frac + ·)

/-- `period_mono` of an update. -/
def monoPeriod (cdat : FfclockData) (forwardJump : Bool) (gap : Bintime) : Option (BitVec 64) :=
  if gap.isset ∧ 0 < cdat.secsToNextupdate then
    (gapPerCycle cdat.period cdat.secsToNextupdate gap).map fun frac =>
      if forwardJump then cdat.period + frac else cdat.period - frac
  else some cdat.period

/-- natFFC at the start of the tick, from the daemon's data. -/
def natTime (cdat : FfclockData) (tickFfcount : BitVec 64) : Bintime :=
  cdat.updateTime.add (ffclockConvertDelta (tickFfcount - cdat.updateFfcount) cdat.period)

/-- monoFFC at the start of the tick, from the previous one. -/
def projMono (ffdelta : BitVec 64) (cur : Fftimehands) : Bintime :=
  cur.tickTimeMono.add (ffclockConvertDelta ffdelta cur.periodMono)

/-- The clock gets synchronised: monoFFC may jump to natFFC. -/
def jumps (ffclockStatus : BitVec 32) (cdat : FfclockData) : Bool :=
  unsync ffclockStatus ∧ cdat.status &&& FFCLOCK_STA_UNSYNC = 0

/-- An update to process: the tick is projected from the daemon's data. -/
def windupUpdate (delta : BitVec 64) (s : FfState) (ffth : Fftimehands) :
    Option (FfState × Fftimehands) :=
  let cdat := s.ffclockData
  let bt := ffclockConvertDelta (ffth.tickFfcount - cdat.updateFfcount) cdat.period
  let tickTime := natTime cdat ffth.tickFfcount
  let tickTimeMono := projMono delta s.tick
  let forwardJump := tickTime.gt tickTimeMono
  let gap := if forwardJump then tickTime.sub tickTimeMono else tickTimeMono.sub tickTime
  let jump := jumps s.ffclockStatus cdat
  let boottime := if forwardJump then ffth.ffclockBoottime.add gap else ffth.ffclockBoottime.sub gap
  (monoPeriod cdat forwardJump (if jump then .clear else gap)).map fun periodMono =>
    ({ s with ffclockStatus := cdat.status, ffclockUpdated := 0 },
      { ffth with
        cdat := cdat
        tickTime := tickTime
        tickError := (bt.mul ((cdat.errbRate.setWidth 64 * PS_AS_BINFRAC).setWidth 32)).addx
          (cdat.errbAbs.setWidth 64 * NS_AS_BINFRAC)
        tickTimeDiff := s.tick.tickTimeDiff.add (ffclockConvertDelta delta cdat.period)
        ffclockBoottime := if jump then boottime else ffth.ffclockBoottime
        tickTimeMono := if jump then tickTime else tickTimeMono
        periodMono := periodMono })

/-! ## The writers -/

/-- The next generation, avoiding the reserved `0`. -/
def bumpGen (ogen : BitVec 8) : BitVec 8 := if ogen + 1 = 0 then 1 else ogen + 1

/-- The slot becomes the current tick. -/
def publish (s : FfState) (ffth : Fftimehands) : FfState :=
  { s with
    ffth := Function.update s.ffth (s.fftimehands + 1) { ffth with gen := bumpGen s.stale.gen }
    fftimehands := s.fftimehands + 1 }

/-- The slot as `ffclock_windup` finds it, moved to the start of the tick. -/
def nextSlot (delta : BitVec 32) (s : FfState) : Fftimehands :=
  { s.stale with gen := 0, tickFfcount := s.tick.tickFfcount + delta.setWidth 64 }

/-- `ffclock_windup`; `reset` holds `reset_FBbootime` and `reset_UTC`, and nothing is returned
when a division traps. -/
def ffclockWindup (tcFrequency : BitVec 64) (delta : BitVec 32)
    (reset : Option (Bintime × Bintime)) (s : FfState) : Option FfState :=
  let ffdelta := delta.setWidth 64
  let ffth := nextSlot delta s
  let prepared := match reset with
    | some (fb, utc) => windupReset tcFrequency ffdelta fb utc s ffth
    | none => some (s, { ffth with ffclockBoottime := s.tick.ffclockBoottime })
  prepared.bind fun (s, ffth) =>
    let s := ignoreStale s
    let (s, ffth) :=
      if s.ffclockUpdated.toInt ≤ 0 ∧ reset.isNone then windupProject ffdelta s ffth else (s, ffth)
    let updated := if 0 < s.ffclockUpdated.toInt then windupUpdate ffdelta s ffth else some
      (s, ffth)
    updated.map fun (s, ffth) => publish s ffth

/-- `strcmp(tc_name, "TSC") == 0`, with the reading of the TSC, or not. -/
inductive TcName where
  | tsc (rdtsc : BitVec 64)
  | other
deriving DecidableEq, Repr

/-- The origin of the counter after a change; a counter whose name is `TSC` has not the name
`TSC-low`, so that nothing is shifted. -/
def originFfcount (tc : TcName) (ncount : BitVec 32) : BitVec 64 :=
  match tc with
  | .other => ncount.setWidth 64
  | .tsc now => now - (now.setWidth 32 - ncount).setWidth 64

/-- `ffclock_change_tc`. -/
def ffclockChangeTc (tc : TcName) (tcFrequency : BitVec 64) (ncount : BitVec 32) (s : FfState) :
    Option FfState :=
  (counterPeriod tcFrequency).map fun period =>
    let tickFfcount := originFfcount tc ncount
    let cdat := { s.tick.cdat with
      updateFfcount := tickFfcount, secsToNextupdate := 0, period := period, errbAbs := 0
      errbRate := 0, status := s.tick.cdat.status ||| FFCLOCK_STA_UNSYNC, leapsecExpected := 0
      leapsecTotal := 0, leapsecNext := 0 }
    let ffth := { s.stale with
      cdat := cdat, tickFfcount := tickFfcount, tickTime := s.tick.tickTime
      tickError := s.tick.tickError, tickTimeDiff := s.tick.tickTimeDiff
      tickTimeMono := s.tick.tickTimeMono, periodMono := cdat.period }
    publish { s with ffclockData := cdat, ffclockUpdated := s.ffclockUpdated - 1 } ffth

/-- `sys_ffclock_setdata`, past the checks of the caller. -/
def ffclockSetdata (cdat : FfclockData) (s : FfState) : FfState :=
  { s with ffclockData := cdat, ffclockUpdated := s.ffclockUpdated + 1 }

/-- `ffclock_init`. -/
def ffclockInit (sysclock : Sysclock) : FfState :=
  let cdat : FfclockData := ⟨.clear, 0, 0, 0, 0, 0, 0, 0, 0, 0⟩
  { ffth := fun _ => ⟨cdat, .clear, .clear, .clear, .clear, .clear, 0, 0, 0⟩
    fftimehands := 0, ffclockData := cdat, ffclockStatus := FFCLOCK_STA_UNSYNC
    ffclockUpdated := 0, sysclockActive := sysclock }

/-! ## The readers

The tick is not replaced while a reader runs. -/

def FFCLOCK_FAST : BitVec 32 := 0x1
def FFCLOCK_DIFF : BitVec 32 := 0x2
def FFCLOCK_MONO : BitVec 32 := 0x4
def FFCLOCK_LEAPSEC : BitVec 32 := 0x8
def FFCLOCK_UPTIME : BitVec 32 := 0x10

/-- `(flags & flag) == flag`. -/
def has (flags flag : BitVec 32) : Bool := flags &&& flag = flag

/-- The UTC of the tick's own start, by the clock selected. -/
def Fftimehands.start (ffth : Fftimehands) (flags : BitVec 32) : Bintime :=
  if has flags FFCLOCK_MONO then ffth.tickTimeMono
  else if has flags FFCLOCK_DIFF then ffth.tickTimeDiff
  else ffth.tickTime

/-- An uptime is obtained from UTC by the boot time. -/
def Fftimehands.sinceBoot (ffth : Fftimehands) (flags : BitVec 32) (bt : Bintime) : Bintime :=
  if has flags FFCLOCK_UPTIME then bt.sub ffth.ffclockBoottime else bt

/-- `ffclock_last_tick`. -/
def ffclockLastTick (flags : BitVec 32) (s : FfState) : BitVec 64 × Bintime :=
  (s.tick.tickFfcount, s.tick.sinceBoot flags (s.tick.start flags))

/-- `ffclock_convert_abs`. -/
def ffclockConvertAbs (ffcount : BitVec 64) (flags : BitVec 32) (s : FfState) : Bintime :=
  let ffth := s.tick
  let ffdelta := if ffth.tickFfcount < ffcount then ffcount - ffth.tickFfcount
    else ffth.tickFfcount - ffcount
  let period := if has flags FFCLOCK_MONO then ffth.periodMono else ffth.cdat.period
  let bt2 := ffclockConvertDelta ffdelta period
  let bt := if ffth.tickFfcount < ffcount then (ffth.start flags).add bt2
    else (ffth.start flags).sub bt2
  ffth.sinceBoot flags bt

/-- `ffclock_convert_diff`. -/
def ffclockConvertDiff (ffdelta : BitVec 64) (s : FfState) : Bintime :=
  ffclockConvertDelta ffdelta s.tick.cdat.period

/-- Leap seconds seen by the daemon, and the one that is due. -/
def subtractLeaps (cdat : FfclockData) (ffc : BitVec 64) (bt : Bintime) : Bintime :=
  let bt := { bt with sec := bt.sec - cdat.leapsecTotal.signExtend 64 }
  if cdat.leapsecExpected ≠ 0 ∧ cdat.leapsecExpected < ffc then
    { bt with sec := bt.sec - cdat.leapsecNext.signExtend 64 }
  else bt

/-- `ffclock_abstime`: the counter value, its time and the bound on the error. What
`ffclock_read_counter` returns is `counter`. -/
def ffclockAbstime (flags : BitVec 32) (counter : BitVec 64) (s : FfState) :
    BitVec 64 × Bintime × Bintime :=
  let (ffc, bt) := if has flags FFCLOCK_FAST then ffclockLastTick flags s
    else (counter, ffclockConvertAbs counter flags s)
  let cdat := s.ffclockData
  let bt := if has flags FFCLOCK_LEAPSEC then subtractLeaps cdat ffc bt else bt
  let elapsed := ffclockConvertDiff (ffc - cdat.updateFfcount) s
  let errorBound := (elapsed.mul ((cdat.errbRate.setWidth 64 * PS_AS_BINFRAC).setWidth 32)).addx
    (cdat.errbAbs.setWidth 64 * NS_AS_BINFRAC)
  (ffc, bt, errorBound)

/-! ## What a writer can do -/

@[simp] theorem tick_publish (s : FfState) (ffth : Fftimehands) :
    (publish s ffth).tick = { ffth with gen := bumpGen s.stale.gen } :=
  Function.update_self _ _ _

/-- The slot when there is no RTC reset. -/
def bootSlot (delta : BitVec 32) (s : FfState) : Fftimehands :=
  { nextSlot delta s with ffclockBoottime := s.tick.ffclockBoottime }

@[simp] theorem tick_ignoreStale (s : FfState) : (ignoreStale s).tick = s.tick := by
  unfold ignoreStale
  split <;> rfl

theorem ffclockData_ignoreStale (s : FfState) : (ignoreStale s).ffclockData = s.ffclockData := by
  unfold ignoreStale
  split <;> rfl

theorem ffclockStatus_ignoreStale (s : FfState) :
    (ignoreStale s).ffclockStatus = s.ffclockStatus := by
  unfold ignoreStale
  split <;> rfl

/-- A windup without RTC reset adopts the daemon's data. -/
def adopts (s : FfState) : Prop := 0 < (ignoreStale s).ffclockUpdated.toInt

instance (s : FfState) : Decidable (adopts s) := inferInstanceAs (Decidable (_ < _))

section

variable {tcFrequency : BitVec 64} {delta : BitVec 32} {s s' : FfState}

/-- After a reset nothing is pending, and the two other branches are skipped. -/
theorem windup_reset (fb utc : Bintime) :
    ffclockWindup tcFrequency delta (some (fb, utc)) s =
      (windupReset tcFrequency (delta.setWidth 64) fb utc s (nextSlot delta s)).map fun p =>
        publish p.1 p.2 := by
  unfold ffclockWindup
  cases hp : windupReset tcFrequency (delta.setWidth 64) fb utc s (nextSlot delta s) with
  | none => simp only [hp, Option.bind_none, Option.map_none]
  | some p =>
    have hupdated : p.1.ffclockUpdated = 0 := by
      obtain ⟨period, -, rfl⟩ := Option.map_eq_some_iff.mp hp
      rfl
    have hstale : ignoreStale p.1 = p.1 := by
      rw [ignoreStale, hupdated, if_neg (by simp)]
    simp only [hp, Option.bind_some, hstale, hupdated, Option.isNone_some, and_false,
      Bool.false_eq_true, if_false]
    simp

theorem windup_project (h : ¬ adopts s) :
    ffclockWindup tcFrequency delta none s =
      some (publish (windupProject (delta.setWidth 64) (ignoreStale s) (bootSlot delta s)).1
        (windupProject (delta.setWidth 64) (ignoreStale s) (bootSlot delta s)).2) := by
  have hpos : ¬ 0 < (ignoreStale s).ffclockUpdated.toInt := h
  have hle : (ignoreStale s).ffclockUpdated.toInt ≤ 0 := by omega
  have hkeep : (windupProject (delta.setWidth 64) (ignoreStale s)
      (bootSlot delta s)).1.ffclockUpdated = (ignoreStale s).ffclockUpdated := by
    unfold windupProject
    simp only
    split <;> rfl
  rw [bootSlot] at hkeep
  unfold ffclockWindup
  simp only [Option.bind_some, Option.isNone_none, and_true, if_pos hle, hkeep, if_neg hpos,
    Option.map_some]
  rfl

theorem windup_update (h : adopts s) :
    ffclockWindup tcFrequency delta none s =
      (windupUpdate (delta.setWidth 64) (ignoreStale s) (bootSlot delta s)).map fun p =>
        publish p.1 p.2 := by
  have hpos : 0 < (ignoreStale s).ffclockUpdated.toInt := h
  have hnot : ¬ (ignoreStale s).ffclockUpdated.toInt ≤ 0 := by omega
  unfold ffclockWindup
  simp only [Option.bind_some, Option.isNone_none, and_true, if_neg hnot, if_pos hpos]
  rfl

/-- A windup processes a reset, projects the tick, or adopts the daemon's data. -/
theorem windup_cases {reset : Option (Bintime × Bintime)}
    (h : ffclockWindup tcFrequency delta reset s = some s') :
    (∃ fb utc p, reset = some (fb, utc) ∧
      windupReset tcFrequency (delta.setWidth 64) fb utc s (nextSlot delta s) = some p ∧
      s' = publish p.1 p.2) ∨
    (reset = none ∧ ¬ adopts s ∧
      s' = publish (windupProject (delta.setWidth 64) (ignoreStale s) (bootSlot delta s)).1
        (windupProject (delta.setWidth 64) (ignoreStale s) (bootSlot delta s)).2) ∨
    (∃ p, reset = none ∧ adopts s ∧
      windupUpdate (delta.setWidth 64) (ignoreStale s) (bootSlot delta s) = some p ∧
      s' = publish p.1 p.2) := by
  cases reset with
  | some r =>
    obtain ⟨fb, utc⟩ := r
    rw [windup_reset] at h
    obtain ⟨p, hp, rfl⟩ := Option.map_eq_some_iff.mp h
    exact .inl ⟨fb, utc, p, rfl, hp, rfl⟩
  | none =>
    by_cases hadopts : adopts s
    · rw [windup_update hadopts] at h
      obtain ⟨p, hp, rfl⟩ := Option.map_eq_some_iff.mp h
      exact .inr (.inr ⟨p, rfl, hadopts, hp, rfl⟩)
    · rw [windup_project hadopts] at h
      exact .inr (.inl ⟨rfl, hadopts, (Option.some.inj h).symm⟩)

end

/-- The operations on the FFclock. -/
inductive FfOp where
  | windup (tcFrequency : BitVec 64) (delta : BitVec 32) (reset : Option (Bintime × Bintime))
  | changeTc (tc : TcName) (tcFrequency : BitVec 64) (ncount : BitVec 32)
  | setdata (cdat : FfclockData)
  | setSysclock (sysclock : Sysclock)
deriving DecidableEq, Repr

/-- One operation, unless a division traps. -/
def ffStep (s : FfState) : FfOp → Option FfState
  | .windup tcFrequency delta reset => ffclockWindup tcFrequency delta reset s
  | .changeTc tc tcFrequency ncount => ffclockChangeTc tc tcFrequency ncount s
  | .setdata cdat => some (ffclockSetdata cdat s)
  | .setSysclock sysclock => some { s with sysclockActive := sysclock }

end RADclock.Kernel
