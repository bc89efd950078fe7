import RADclock.Kernel.Ffclock

/-!
# The system clock

The kernel's twelve time functions read the clock that is active through a selector each: UTC or
uptime, now or at the start of the tick, as a `bintime`, in nanoseconds or in microseconds. The
finer form of a reading determines the coarser ones by truncation, for every function but one:
`getmicrotime` goes through the selector of `getmicrouptime`.

- `Timehands`: the FBclock's tick, with its cached truncations.
- `fbclock*`, `ffclock*`: the readers of the two clocks.
- `binuptime`, …, `getmicrotime`: the system time functions.
- `resolutions_agree_iff`: when the resolutions agree.
-/

namespace RADclock.Kernel

open Lib

/-! ## Resolutions -/

/-- `struct timespec`. -/
structure Timespec where
  tvSec : BitVec 64
  tvNsec : Nat
deriving DecidableEq, Repr

/-- `bintime2timespec`, as truncation. -/
def bintime2timespec (bt : Bintime) : Timespec := ⟨bt.sec, bt.frac.toNat * 10 ^ 9 / 2 ^ 64⟩

/-- `bintime2timeval`, as truncation. -/
def bintime2timeval (bt : Bintime) : Timeval :=
  ⟨bt.sec.toInt, (bt.frac.toNat * 10 ^ 6 / 2 ^ 64 : Nat)⟩

/-! ## The state the readers see -/

/-- `struct timehands`, as far as it is read. `tc_windup` truncates `th_bintime` into the other two
forms. -/
structure Timehands where
  thOffset : Bintime
  thBintime : Bintime
  thNanotime : Timespec
  thMicrotime : Timeval
  thScale : BitVec 64
  thLargeDelta : BitVec 32
  nanotime_eq : thNanotime = bintime2timespec thBintime
  microtime_eq : thMicrotime = bintime2timeval thBintime

/-- A state of both clocks, with the counter as it reads. -/
structure ClockState where
  timehands : Timehands
  ff : FfState
  /-- What `tc_delta` returns. -/
  tcDelta : BitVec 32
  /-- `sysctl_kern_ffclock_ffcounter_bypass`, with what `rdtsc` returns. -/
  bypass : Option (BitVec 64)

/-! ## The FBclock -/

/-- `bintime_add_tc_delta`. -/
def bintimeAddTcDelta (bt : Bintime) (scale largeDelta delta : BitVec 64) : Bintime :=
  if largeDelta ≤ delta then
    -- Avoid overflow for `scale * delta`.
    let x := (scale >>> 32) * delta
    let bt := { bt with sec := bt.sec + (x >>> 32) }
    (bt.addx (x <<< 32)).addx ((scale &&& 0xffffffff#64) * delta)
  else bt.addx (scale * delta)

/-- `GETTHBINTIME`: a member of the tick, moved on to now. -/
def getthbintime (member : Timehands → Bintime) (s : ClockState) : Bintime :=
  bintimeAddTcDelta (member s.timehands) s.timehands.thScale (s.timehands.thLargeDelta.setWidth 64)
    (s.tcDelta.setWidth 64)

/-- `GETTHMEMBER`: a member of the tick. -/
def getthmember {α : Type} (member : Timehands → α) (s : ClockState) : α := member s.timehands

def fbclockBinuptime : ClockState → Bintime := getthbintime (·.thOffset)
def fbclockNanouptime (s : ClockState) : Timespec := bintime2timespec (fbclockBinuptime s)
def fbclockMicrouptime (s : ClockState) : Timeval := bintime2timeval (fbclockBinuptime s)
def fbclockBintime : ClockState → Bintime := getthbintime (·.thBintime)
def fbclockNanotime (s : ClockState) : Timespec := bintime2timespec (fbclockBintime s)
def fbclockMicrotime (s : ClockState) : Timeval := bintime2timeval (fbclockBintime s)
def fbclockGetbinuptime : ClockState → Bintime := getthmember (·.thOffset)
def fbclockGetnanouptime (s : ClockState) : Timespec :=
  bintime2timespec (getthmember (·.thOffset) s)
def fbclockGetmicrouptime (s : ClockState) : Timeval := bintime2timeval (getthmember (·.thOffset) s)
def fbclockGetbintime : ClockState → Bintime := getthmember (·.thBintime)
def fbclockGetnanotime : ClockState → Timespec := getthmember (·.thNanotime)
def fbclockGetmicrotime : ClockState → Timeval := getthmember (·.thMicrotime)

/-! ## The FFclock -/

/-- `ffclock_read_counter`. -/
def ffclockReadCounter (s : ClockState) : BitVec 64 :=
  match s.bypass with
  | some tsc => tsc
  | none => s.ff.tick.tickFfcount + s.tcDelta.setWidth 64

/-- `ffclock_abstime(NULL, bt, NULL, flags)`. -/
def abstime (flags : BitVec 32) (s : ClockState) : Bintime :=
  (ffclockAbstime flags (ffclockReadCounter s) s.ff).2.1

def ffclockBintime : ClockState → Bintime := abstime (FFCLOCK_MONO ||| FFCLOCK_LEAPSEC)
def ffclockNanotime (s : ClockState) : Timespec :=
  bintime2timespec (abstime (FFCLOCK_MONO ||| FFCLOCK_LEAPSEC) s)
def ffclockMicrotime (s : ClockState) : Timeval :=
  bintime2timeval (abstime (FFCLOCK_MONO ||| FFCLOCK_LEAPSEC) s)
def ffclockGetbintime : ClockState → Bintime :=
  abstime (FFCLOCK_MONO ||| FFCLOCK_LEAPSEC ||| FFCLOCK_FAST)
def ffclockGetnanotime (s : ClockState) : Timespec :=
  bintime2timespec (abstime (FFCLOCK_MONO ||| FFCLOCK_LEAPSEC ||| FFCLOCK_FAST) s)
def ffclockGetmicrotime (s : ClockState) : Timeval :=
  bintime2timeval (abstime (FFCLOCK_MONO ||| FFCLOCK_LEAPSEC ||| FFCLOCK_FAST) s)
def ffclockBinuptime : ClockState → Bintime := abstime (FFCLOCK_MONO ||| FFCLOCK_UPTIME)
def ffclockNanouptime (s : ClockState) : Timespec :=
  bintime2timespec (abstime (FFCLOCK_MONO ||| FFCLOCK_UPTIME) s)
def ffclockMicrouptime (s : ClockState) : Timeval :=
  bintime2timeval (abstime (FFCLOCK_MONO ||| FFCLOCK_UPTIME) s)
def ffclockGetbinuptime : ClockState → Bintime :=
  abstime (FFCLOCK_MONO ||| FFCLOCK_UPTIME ||| FFCLOCK_FAST)
def ffclockGetnanouptime (s : ClockState) : Timespec :=
  bintime2timespec (abstime (FFCLOCK_MONO ||| FFCLOCK_UPTIME ||| FFCLOCK_FAST) s)
def ffclockGetmicrouptime (s : ClockState) : Timeval :=
  bintime2timeval (abstime (FFCLOCK_MONO ||| FFCLOCK_UPTIME ||| FFCLOCK_FAST) s)

/-! ## The selectors and the system time functions -/

/-- A selector: the FFclock's reader or the FBclock's. -/
def fromclock {α : Type} (ff fb : ClockState → α) (whichclock : Sysclock) (s : ClockState) : α :=
  if whichclock = .ff then ff s else fb s

def bintimeFromclock : Sysclock → ClockState → Bintime := fromclock ffclockBintime fbclockBintime
def nanotimeFromclock : Sysclock → ClockState → Timespec :=
  fromclock ffclockNanotime fbclockNanotime
def microtimeFromclock : Sysclock → ClockState → Timeval :=
  fromclock ffclockMicrotime fbclockMicrotime
def getbintimeFromclock : Sysclock → ClockState → Bintime :=
  fromclock ffclockGetbintime fbclockGetbintime
def getnanotimeFromclock : Sysclock → ClockState → Timespec :=
  fromclock ffclockGetnanotime fbclockGetnanotime
def getmicrotimeFromclock : Sysclock → ClockState → Timeval :=
  fromclock ffclockGetmicrotime fbclockGetmicrotime
def binuptimeFromclock : Sysclock → ClockState → Bintime :=
  fromclock ffclockBinuptime fbclockBinuptime
def nanouptimeFromclock : Sysclock → ClockState → Timespec :=
  fromclock ffclockNanouptime fbclockNanouptime
def microuptimeFromclock : Sysclock → ClockState → Timeval :=
  fromclock ffclockMicrouptime fbclockMicrouptime
def getbinuptimeFromclock : Sysclock → ClockState → Bintime :=
  fromclock ffclockGetbinuptime fbclockGetbinuptime
def getnanouptimeFromclock : Sysclock → ClockState → Timespec :=
  fromclock ffclockGetnanouptime fbclockGetnanouptime
def getmicrouptimeFromclock : Sysclock → ClockState → Timeval :=
  fromclock ffclockGetmicrouptime fbclockGetmicrouptime

def binuptime (s : ClockState) : Bintime := binuptimeFromclock s.ff.sysclockActive s
def nanouptime (s : ClockState) : Timespec := nanouptimeFromclock s.ff.sysclockActive s
def microuptime (s : ClockState) : Timeval := microuptimeFromclock s.ff.sysclockActive s
def bintime (s : ClockState) : Bintime := bintimeFromclock s.ff.sysclockActive s
def nanotime (s : ClockState) : Timespec := nanotimeFromclock s.ff.sysclockActive s
def microtime (s : ClockState) : Timeval := microtimeFromclock s.ff.sysclockActive s
def getbinuptime (s : ClockState) : Bintime := getbinuptimeFromclock s.ff.sysclockActive s
def getnanouptime (s : ClockState) : Timespec := getnanouptimeFromclock s.ff.sysclockActive s
def getmicrouptime (s : ClockState) : Timeval := getmicrouptimeFromclock s.ff.sysclockActive s
def getbintime (s : ClockState) : Bintime := getbintimeFromclock s.ff.sysclockActive s
def getnanotime (s : ClockState) : Timespec := getnanotimeFromclock s.ff.sysclockActive s

/-- `getmicrotime`, through the selector of uptime. -/
def getmicrotime (s : ClockState) : Timeval := getmicrouptimeFromclock s.ff.sysclockActive s

/-! ## Agreement -/

/-- The three resolutions of each function agree. -/
structure ResolutionsAgree (s : ClockState) : Prop where
  nanotime : nanotime s = bintime2timespec (bintime s)
  microtime : microtime s = bintime2timeval (bintime s)
  getnanotime : getnanotime s = bintime2timespec (getbintime s)
  getmicrotime : getmicrotime s = bintime2timeval (getbintime s)
  nanouptime : nanouptime s = bintime2timespec (binuptime s)
  microuptime : microuptime s = bintime2timeval (binuptime s)
  getnanouptime : getnanouptime s = bintime2timespec (getbinuptime s)
  getmicrouptime : getmicrouptime s = bintime2timeval (getbinuptime s)

/-- Uptime of the active clock at the start of the tick. -/
def tickUptime (s : ClockState) : Bintime :=
  match s.ff.sysclockActive with
  | .fb => s.timehands.thOffset
  | .ff => s.ff.tick.tickTimeMono.sub s.ff.tick.ffclockBoottime

/-- UTC of the active clock at the start of the tick, with leap seconds. -/
def tickUTC (s : ClockState) : Bintime :=
  match s.ff.sysclockActive with
  | .fb => s.timehands.thBintime
  | .ff => subtractLeaps s.ff.ffclockData s.ff.tick.tickFfcount s.ff.tick.tickTimeMono

/-- What the selector takes the truncation of is what it selects. -/
theorem fromclock_comp {α β : Type} (f : α → β) (ff fb : ClockState → α) (ff' fb' : ClockState → β)
    (whichclock : Sysclock) (s : ClockState) (hff : ff' s = f (ff s)) (hfb : fb' s = f (fb s)) :
    fromclock ff' fb' whichclock s = f (fromclock ff fb whichclock s) := by
  unfold fromclock
  split
  · exact hff
  · exact hfb

theorem getbinuptime_eq (s : ClockState) : getbinuptime s = tickUptime s := by
  unfold getbinuptime getbinuptimeFromclock fromclock tickUptime
  cases s.ff.sysclockActive <;> rfl

theorem getbintime_eq (s : ClockState) : getbintime s = tickUTC s := by
  unfold getbintime getbintimeFromclock fromclock tickUTC
  cases s.ff.sysclockActive <;> rfl

theorem getmicrotime_eq (s : ClockState) : getmicrotime s = bintime2timeval (tickUptime s) := by
  rw [← getbinuptime_eq]
  exact fromclock_comp bintime2timeval _ _ ffclockGetmicrouptime fbclockGetmicrouptime _ s rfl rfl

/-- The resolutions agree exactly when, at the start of the tick, uptime and UTC of the active clock
are in the same microsecond. -/
theorem resolutions_agree_iff (s : ClockState) :
    ResolutionsAgree s ↔ bintime2timeval (tickUptime s) = bintime2timeval (tickUTC s) := by
  constructor
  · intro h
    rw [← getmicrotime_eq, h.getmicrotime, getbintime_eq]
  · intro h
    exact
      { nanotime := fromclock_comp bintime2timespec _ _ ffclockNanotime fbclockNanotime _ s rfl rfl
        microtime := fromclock_comp bintime2timeval _ _ ffclockMicrotime fbclockMicrotime _
          s rfl rfl
        getnanotime := fromclock_comp bintime2timespec _ _ ffclockGetnanotime fbclockGetnanotime _ s
          rfl s.timehands.nanotime_eq
        getmicrotime := by rw [getmicrotime_eq, h, getbintime_eq]
        nanouptime := fromclock_comp bintime2timespec _ _ ffclockNanouptime fbclockNanouptime _
          s rfl rfl
        microuptime := fromclock_comp bintime2timeval _ _ ffclockMicrouptime fbclockMicrouptime _
          s rfl rfl
        getnanouptime := fromclock_comp bintime2timespec _ _ ffclockGetnanouptime
          fbclockGetnanouptime _ s rfl rfl
        getmicrouptime := fromclock_comp bintime2timeval _ _ ffclockGetmicrouptime
          fbclockGetmicrouptime _ s rfl rfl }

/-- Ten seconds after boot, with the FBclock. -/
def tenSecondsUp : ClockState where
  timehands :=
    { thOffset := ⟨10, 0⟩, thBintime := ⟨1700000010, 0⟩, thNanotime := ⟨1700000010, 0⟩
      thMicrotime := ⟨1700000010, 0⟩, thScale := 18446744073, thLargeDelta := 1000000000
      nanotime_eq := rfl, microtime_eq := rfl }
  ff := ffclockInit .fb
  tcDelta := 0
  bypass := none

/-- `getmicrotime` returns ten seconds. -/
theorem not_resolutions_agree_tenSecondsUp : ¬ ResolutionsAgree tenSecondsUp := by
  intro h
  have hmicro := h.getmicrotime
  revert hmicro
  decide

end RADclock.Kernel
