import RADclock.Kernel.Ffclock

/-!
# The stores of a windup (`kern_tc.c`)

`ffclock_windup` writes the next `fftimehands` in place, one scalar at a time: structures are
assigned word by word, `bintime_add` and its siblings store the fraction first, and a `memcpy` of
the daemon's data goes through its members in order. The stores are listed here in program order,
for each branch, with the values of `ffclockWindup`.

- `TimeStore`, `DataStore`, `TickStore`: the stores to the three structures.
- `copyData`: the stores of a `memcpy` of `struct ffclock_data`.
- `windupStores`: the stores of a windup between clearing the generation of the slot and setting it.
- `storeTick_windupStores`: they leave what `ffclockWindup` publishes.
-/

namespace RADclock.Kernel

open Lib

/-! ## Stores -/

/-- A store to a `struct bintime`. -/
inductive TimeStore where
  | sec (v : BitVec 64)
  | frac (v : BitVec 64)
deriving DecidableEq, Repr

def TimeStore.apply : TimeStore → Bintime → Bintime
  | .sec v, t => { t with sec := v }
  | .frac v, t => { t with frac := v }

/-- A store to a `struct ffclock_data`. -/
inductive DataStore where
  | updateTime (st : TimeStore)
  | updateFfcount (v : BitVec 64)
  | leapsecExpected (v : BitVec 64)
  | period (v : BitVec 64)
  | errbAbs (v : BitVec 32)
  | errbRate (v : BitVec 32)
  | status (v : BitVec 32)
  | secsToNextupdate (v : BitVec 16)
  | leapsecTotal (v : BitVec 8)
  | leapsecNext (v : BitVec 8)
deriving DecidableEq, Repr

def DataStore.apply : DataStore → FfclockData → FfclockData
  | .updateTime st, d => { d with updateTime := st.apply d.updateTime }
  | .updateFfcount v, d => { d with updateFfcount := v }
  | .leapsecExpected v, d => { d with leapsecExpected := v }
  | .period v, d => { d with period := v }
  | .errbAbs v, d => { d with errbAbs := v }
  | .errbRate v, d => { d with errbRate := v }
  | .status v, d => { d with status := v }
  | .secsToNextupdate v, d => { d with secsToNextupdate := v }
  | .leapsecTotal v, d => { d with leapsecTotal := v }
  | .leapsecNext v, d => { d with leapsecNext := v }

/-- A store to a `struct fftimehands`, other than to its generation. -/
inductive TickStore where
  | cdat (st : DataStore)
  | tickTime (st : TimeStore)
  | tickTimeMono (st : TimeStore)
  | tickTimeDiff (st : TimeStore)
  | ffclockBoottime (st : TimeStore)
  | tickError (st : TimeStore)
  | tickFfcount (v : BitVec 64)
  | periodMono (v : BitVec 64)
deriving DecidableEq, Repr

def TickStore.apply : TickStore → Fftimehands → Fftimehands
  | .cdat st, t => { t with cdat := st.apply t.cdat }
  | .tickTime st, t => { t with tickTime := st.apply t.tickTime }
  | .tickTimeMono st, t => { t with tickTimeMono := st.apply t.tickTimeMono }
  | .tickTimeDiff st, t => { t with tickTimeDiff := st.apply t.tickTimeDiff }
  | .ffclockBoottime st, t => { t with ffclockBoottime := st.apply t.ffclockBoottime }
  | .tickError st, t => { t with tickError := st.apply t.tickError }
  | .tickFfcount v, t => { t with tickFfcount := v }
  | .periodMono v, t => { t with periodMono := v }

/-! ## Stores of an expression -/

/-- The assignment of a `struct bintime`. -/
def assign (t : Bintime) : List TimeStore := [.sec t.sec, .frac t.frac]

/-- `bintime_add` to what is `a`: the fraction, the carry, the seconds. -/
def addStores (a b : Bintime) : List TimeStore :=
  let frac := a.frac + b.frac
  .frac frac :: if frac < a.frac then [.sec (a.sec + 1), .sec (a.sec + 1 + b.sec)]
    else [.sec (a.sec + b.sec)]

/-- `bintime_sub` from what is `a`. -/
def subStores (a b : Bintime) : List TimeStore :=
  let frac := a.frac - b.frac
  .frac frac :: if a.frac < frac then [.sec (a.sec - 1), .sec (a.sec - 1 - b.sec)]
    else [.sec (a.sec - b.sec)]

/-- `memcpy` of a `struct ffclock_data`. -/
def copyData (d : FfclockData) : List DataStore :=
  (assign d.updateTime).map .updateTime ++
    [.updateFfcount d.updateFfcount, .leapsecExpected d.leapsecExpected, .period d.period,
      .errbAbs d.errbAbs, .errbRate d.errbRate, .status d.status,
      .secsToNextupdate d.secsToNextupdate, .leapsecTotal d.leapsecTotal,
      .leapsecNext d.leapsecNext]

/-! ## The branches of a windup -/

/-- The boot time at an RTC reset. With the FFclock as the system clock monoFFC is stored first, as
it would have been. -/
def resetBootStores (ffdelta : BitVec 64) (resetFBboottime resetUTC : Bintime) (s : FfState)
    (ffth : Fftimehands) : List TickStore :=
  match s.sysclockActive with
  | .fb => (assign resetFBboottime).map .ffclockBoottime
  | .ff =>
    let bt := ffclockConvertDelta ffdelta ffth.periodMono
    let mono := s.tick.tickTimeMono.add bt
    let boot := if resetUTC.gt mono then addStores ffth.ffclockBoottime (resetUTC.sub mono)
      else subStores ffth.ffclockBoottime (mono.sub resetUTC)
    [(assign s.tick.tickTimeMono).map .tickTimeMono,
      (addStores s.tick.tickTimeMono bt).map .tickTimeMono, boot.map .ffclockBoottime].flatten

/-- An RTC reset. The period is stored to `cdat` only when it was `0`. -/
def resetStores (period ffdelta : BitVec 64) (resetFBboottime resetUTC : Bintime) (s : FfState)
    (ffth : Fftimehands) : List TickStore :=
  [(copyData s.tick.cdat).map .cdat, resetBootStores ffdelta resetFBboottime resetUTC s ffth,
    (assign resetUTC).map .tickTime, (assign resetUTC).map .tickTimeMono,
    (assign resetUTC).map .tickTimeDiff, (assign resetUTC).map fun st => .cdat (.updateTime st),
    [.cdat (.updateFfcount ffth.tickFfcount)],
    if s.tick.cdat.period = 0 then [.cdat (.period period)] else [],
    [.cdat (.errbAbs 0), .cdat (.errbRate 0), .cdat (.status FFCLOCK_STA_UNSYNC),
      .cdat (.secsToNextupdate 0), .cdat (.leapsecExpected 0), .cdat (.leapsecTotal 0),
      .cdat (.leapsecNext 0)],
    [.tickError (.frac 0), .tickError (.sec 0), .periodMono period]].flatten

/-- No update to process. -/
def projectStores (ffdelta : BitVec 64) (s : FfState) (ffth : Fftimehands) : List TickStore :=
  let cur := s.tick
  let bt := ffclockConvertDelta ffdelta cur.cdat.period
  let error := bt.mul ((cur.cdat.errbRate.setWidth 64 * PS_AS_BINFRAC).setWidth 32)
  let btMono := ffclockConvertDelta ffdelta cur.periodMono
  [(copyData cur.cdat).map .cdat, (assign cur.tickTime).map .tickTime,
    (assign cur.tickTimeDiff).map .tickTimeDiff, (addStores cur.tickTime bt).map .tickTime,
    (addStores cur.tickTimeDiff bt).map .tickTimeDiff,
    (addStores ffth.tickError error).map .tickError, [.periodMono cur.periodMono],
    (assign cur.tickTimeMono).map .tickTimeMono,
    (addStores cur.tickTimeMono btMono).map .tickTimeMono].flatten

/-- The period of monoFFC: set to that of the data, then changed to make up the gap. -/
def periodStores (cdat : FfclockData) (gap : Bintime) (periodMono : BitVec 64) : List TickStore :=
  .periodMono cdat.period ::
    if gap.isset ∧ 0 < cdat.secsToNextupdate then [.periodMono periodMono] else []

/-- An update to process, with the period of monoFFC it leads to. -/
def updateStores (periodMono delta : BitVec 64) (s : FfState) (ffth : Fftimehands) :
    List TickStore :=
  let cur := s.tick
  let cdat := s.ffclockData
  let bt := ffclockConvertDelta (ffth.tickFfcount - cdat.updateFfcount) cdat.period
  let error := (bt.mul ((cdat.errbRate.setWidth 64 * PS_AS_BINFRAC).setWidth 32)).addx
    (cdat.errbAbs.setWidth 64 * NS_AS_BINFRAC)
  let tickTime := natTime cdat ffth.tickFfcount
  let tickTimeMono := projMono delta cur
  let forwardJump := tickTime.gt tickTimeMono
  let gap := if forwardJump then tickTime.sub tickTimeMono else tickTimeMono.sub tickTime
  let boot := if forwardJump then addStores ffth.ffclockBoottime gap
    else subStores ffth.ffclockBoottime gap
  [(copyData cdat).map .cdat, (assign cdat.updateTime).map .tickTime,
    (addStores cdat.updateTime bt).map .tickTime, (assign error).map .tickError,
    (assign cur.tickTimeDiff).map .tickTimeDiff,
    (addStores cur.tickTimeDiff (ffclockConvertDelta delta cdat.period)).map .tickTimeDiff,
    (assign cur.tickTimeMono).map .tickTimeMono,
    (addStores cur.tickTimeMono (ffclockConvertDelta delta cur.periodMono)).map .tickTimeMono,
    if jumps s.ffclockStatus cdat then
      boot.map .ffclockBoottime ++ (assign tickTime).map .tickTimeMono
    else [],
    periodStores cdat (if jumps s.ffclockStatus cdat then .clear else gap) periodMono].flatten

/-- The stores of `ffclock_windup` after it has cleared the generation of the slot, up to the one
that sets it; nothing when a division traps. -/
def windupStores (tcFrequency : BitVec 64) (delta : BitVec 32)
    (reset : Option (Bintime × Bintime)) (s : FfState) : Option (List TickStore) :=
  let ffdelta := delta.setWidth 64
  let first := TickStore.tickFfcount (s.tick.tickFfcount + ffdelta)
  let boottime := (assign s.tick.ffclockBoottime).map TickStore.ffclockBoottime
  (ffclockWindup tcFrequency delta reset s).map fun s' =>
    match reset with
    | some (fb, utc) =>
      first :: resetStores s'.tick.periodMono ffdelta fb utc s (nextSlot delta s)
    | none =>
      if adopts s then
        first :: boottime ++
          updateStores s'.tick.periodMono ffdelta (ignoreStale s) (bootSlot delta s)
      else first :: boottime ++ projectStores ffdelta (ignoreStale s) (bootSlot delta s)

/-! ## What the stores leave -/

def storeTime (stores : List TimeStore) (t : Bintime) : Bintime :=
  stores.foldl (fun t st => st.apply t) t

def storeData (stores : List DataStore) (d : FfclockData) : FfclockData :=
  stores.foldl (fun d st => st.apply d) d

def storeTick (stores : List TickStore) (t : Fftimehands) : Fftimehands :=
  stores.foldl (fun t st => st.apply t) t

/-- Both members are stored, in order. -/
@[simp] theorem storeTime_assign (a t : Bintime) : storeTime (assign a) t = a := rfl

/-- The stores of a sum leave the sum, whatever was there. -/
@[simp] theorem storeTime_addStores (a b t : Bintime) : storeTime (addStores a b) t = a.add b := by
  unfold addStores Bintime.add
  -- the branch of the carry is the one that the sum takes
  by_cases hcarry : a.frac + b.frac < a.frac
  · simp only [if_pos hcarry]
    rfl
  · simp only [if_neg hcarry]
    rfl

/-- The stores of a difference leave the difference. -/
@[simp] theorem storeTime_subStores (a b t : Bintime) : storeTime (subStores a b) t = a.sub b := by
  unfold subStores Bintime.sub
  -- the branch of the borrow likewise
  by_cases hborrow : a.frac < a.frac - b.frac
  · simp only [if_pos hborrow]
    rfl
  · simp only [if_neg hborrow]
    rfl

/-- A copied structure is the one it was copied from. -/
@[simp] theorem storeData_copyData (a d : FfclockData) : storeData (copyData a) d = a := by
  simp only [storeData, copyData, assign, List.map, List.cons_append, List.nil_append,
    List.foldl, DataStore.apply, TimeStore.apply]

/-- No store, no change. -/
@[simp] theorem storeTick_nil (t : Fftimehands) : storeTick [] t = t := rfl

/-- The first store, and then the others. -/
@[simp] theorem storeTick_cons (st : TickStore) (stores : List TickStore) (t : Fftimehands) :
    storeTick (st :: stores) t = storeTick stores (st.apply t) := rfl

/-- Stores of one expression after those of another. -/
@[simp] theorem storeTick_append (as bs : List TickStore) (t : Fftimehands) :
    storeTick (as ++ bs) t = storeTick bs (storeTick as t) := List.foldl_append

section Members

variable (stores : List TimeStore) (t : Fftimehands)

/-- Stores into the data of a tick leave the rest of the tick. -/
@[simp] theorem storeTick_cdat (stores : List DataStore) :
    storeTick (stores.map .cdat) t = { t with cdat := storeData stores t.cdat } := by
  induction stores generalizing t with
  | nil => rfl
  | cons st stores ih => exact ih _

/-- Stores into the time of the last update leave the rest of the data. -/
@[simp] theorem storeTick_updateTime :
    storeTick (stores.map fun st => .cdat (.updateTime st)) t =
      { t with cdat := { t.cdat with updateTime := storeTime stores t.cdat.updateTime } } := by
  induction stores generalizing t with
  | nil => rfl
  | cons st stores ih => exact ih _

/-- Stores into one time of a tick leave the rest of it. -/
@[simp] theorem storeTick_tickTime :
    storeTick (stores.map .tickTime) t = { t with tickTime := storeTime stores t.tickTime } := by
  induction stores generalizing t with
  | nil => rfl
  | cons st stores ih => exact ih _

/-- So do those into the monotonic time. -/
@[simp] theorem storeTick_tickTimeMono :
    storeTick (stores.map .tickTimeMono) t =
      { t with tickTimeMono := storeTime stores t.tickTimeMono } := by
  induction stores generalizing t with
  | nil => rfl
  | cons st stores ih => exact ih _

/-- So do those into the difference time. -/
@[simp] theorem storeTick_tickTimeDiff :
    storeTick (stores.map .tickTimeDiff) t =
      { t with tickTimeDiff := storeTime stores t.tickTimeDiff } := by
  induction stores generalizing t with
  | nil => rfl
  | cons st stores ih => exact ih _

/-- So do those into the time of boot. -/
@[simp] theorem storeTick_ffclockBoottime :
    storeTick (stores.map .ffclockBoottime) t =
      { t with ffclockBoottime := storeTime stores t.ffclockBoottime } := by
  induction stores generalizing t with
  | nil => rfl
  | cons st stores ih => exact ih _

/-- So do those into the error. -/
@[simp] theorem storeTick_tickError :
    storeTick (stores.map .tickError) t = { t with tickError := storeTime stores t.tickError } := by
  induction stores generalizing t with
  | nil => rfl
  | cons st stores ih => exact ih _

end Members

/-- The slot after the first store. -/
theorem apply_tickFfcount (delta : BitVec 32) (s : FfState) :
    (TickStore.tickFfcount (s.tick.tickFfcount + delta.setWidth 64)).apply s.stale =
      { nextSlot delta s with gen := s.stale.gen } := rfl

/-- The stores of a reset leave the tick that `windupReset` computes, but for the generation. -/
theorem storeTick_resetStores {tcFrequency ffdelta : BitVec 64} {fb utc : Bintime} {s : FfState}
    {ffth : Fftimehands} {p : FfState × Fftimehands} (g : BitVec 8)
    (h : windupReset tcFrequency ffdelta fb utc s ffth = some p) :
    storeTick (resetStores p.2.periodMono ffdelta fb utc s ffth) { ffth with gen := g } =
      { p.2 with gen := g } := by
  obtain ⟨period, hperiod, rfl⟩ := Option.map_eq_some_iff.mp h
  -- a first reset computes the period, a later one keeps it
  by_cases hzero : s.tick.cdat.period = 0
  · simp only [resetStores, resetBootStores, if_pos hzero, List.flatten_cons, List.flatten_nil]
    -- the clock in use decides which time of boot is taken over
    cases s.sysclockActive with
    | fb => simp [TickStore.apply, DataStore.apply, TimeStore.apply, Bintime.clear]
    | ff =>
      simp only [resetBoottime]
      split <;> simp [TickStore.apply, DataStore.apply, TimeStore.apply, Bintime.clear]
  · rw [if_neg hzero] at hperiod
    obtain rfl := Option.some.inj hperiod
    simp only [resetStores, resetBootStores, if_neg hzero, List.flatten_cons, List.flatten_nil]
    cases s.sysclockActive with
    | fb => simp [TickStore.apply, DataStore.apply, TimeStore.apply, Bintime.clear]
    | ff =>
      simp only [resetBoottime]
      split <;> simp [TickStore.apply, DataStore.apply, TimeStore.apply, Bintime.clear]

/-- The stores of a projection leave the projected tick. -/
theorem storeTick_projectStores (ffdelta : BitVec 64) (s : FfState) (ffth : Fftimehands)
    (g : BitVec 8) :
    storeTick (projectStores ffdelta s ffth) { ffth with gen := g } =
      { (windupProject ffdelta s ffth).2 with gen := g } := by
  simp [projectStores, windupProject, TickStore.apply]

/-- The stores of the monotonic period leave the period of `monoPeriod`. -/
theorem storeTick_periodStores {cdat : FfclockData} {forwardJump : Bool} {gap : Bintime}
    {periodMono : BitVec 64} (h : monoPeriod cdat forwardJump gap = some periodMono)
    (t : Fftimehands) :
    storeTick (periodStores cdat gap periodMono) t = { t with periodMono := periodMono } := by
  unfold monoPeriod at h
  unfold periodStores
  -- the period is stored twice where the second value slews
  by_cases hslew : gap.isset ∧ 0 < cdat.secsToNextupdate
  · rw [if_pos hslew]
    rfl
  · rw [if_neg hslew] at h ⊢
    rw [← Option.some.inj h]
    rfl

/-- The stores of an update leave the tick that `windupUpdate` computes. -/
theorem storeTick_updateStores {delta : BitVec 64} {s : FfState} {ffth : Fftimehands}
    {p : FfState × Fftimehands} (g : BitVec 8) (h : windupUpdate delta s ffth = some p) :
    storeTick (updateStores p.2.periodMono delta s ffth) { ffth with gen := g } =
      { p.2 with gen := g } := by
  obtain ⟨periodMono, hmono, rfl⟩ := Option.map_eq_some_iff.mp h
  simp only [updateStores, List.flatten_cons, List.flatten_nil, storeTick_append,
    storeTick_periodStores hmono]
  -- at a jump the gap goes to the time of boot, and monoFFC takes the new time
  by_cases hjump : jumps s.ffclockStatus s.ffclockData
  · simp only [if_pos hjump]
    split <;> simp [natTime, projMono]
  · simp only [if_neg hjump]
    simp [natTime, projMono]

/-- The stores of a windup leave what it publishes, but for the generation. -/
theorem storeTick_windupStores {tcFrequency : BitVec 64} {delta : BitVec 32}
    {reset : Option (Bintime × Bintime)} {s : FfState} {stores : List TickStore}
    (h : windupStores tcFrequency delta reset s = some stores) :
    ∃ s', ffclockWindup tcFrequency delta reset s = some s' ∧
      storeTick stores s.stale = { s'.tick with gen := s.stale.gen } := by
  obtain ⟨s', hs', rfl⟩ := Option.map_eq_some_iff.mp h
  refine ⟨s', hs', ?_⟩
  -- a reset, a tick without an update, a tick that adopts one
  rcases windup_cases hs' with ⟨fb, utc, p, rfl, hp, rfl⟩ | ⟨rfl, hadopts, rfl⟩ |
    ⟨p, rfl, hadopts, hp, rfl⟩
  · simp only [storeTick_cons, apply_tickFfcount, tick_publish]
    exact storeTick_resetStores s.stale.gen hp
  · simp only [if_neg hadopts, List.cons_append, storeTick_cons, apply_tickFfcount, tick_publish,
      storeTick_append, storeTick_ffclockBoottime, storeTime_assign]
    exact storeTick_projectStores (delta.setWidth 64) (ignoreStale s) (bootSlot delta s) s.stale.gen
  · simp only [if_pos hadopts, List.cons_append, storeTick_cons, apply_tickFfcount, tick_publish,
      storeTick_append, storeTick_ffclockBoottime, storeTime_assign]
    exact storeTick_updateStores s.stale.gen hp

end RADclock.Kernel
