import RADclock.Kernel.Ffclock
import RADclock.Lib.Runs

/-!
# The uptime of the FFclock

Uptime is monoFFC less the boot time. A tick that is projected or adopted continues it, also when
monoFFC jumps to natFFC, since the boot time takes the jump. The other two writers take something
from the slot they write into, which holds the tick of ten ticks ago:

- a change of counter leaves the boot time of the slot in place;
- an RTC reset with the FFclock as the system clock starts from the boot time of the slot, and
  advances monoFFC with the period of the slot.

`UptimeCond` says when what the slot holds makes no difference.
-/

namespace RADclock.Kernel

open Lib

/-- Uptime at the start of the tick, as `ffclock_last_tick` returns it. -/
def uptime (s : FfState) : Bintime := (ffclockLastTick (FFCLOCK_MONO ||| FFCLOCK_UPTIME) s).2

theorem val_uptime (s : FfState) :
    (uptime s).val = s.tick.tickTimeMono.val - s.tick.ffclockBoottime.val :=
  Bintime.val_sub _ _

/-- The operation advances uptime by the length of the finished tick, which a change of counter
does not finish. An RTC reset that follows the FBclock realigns uptime. -/
def UptimeKept (s : FfState) (op : FfOp) (s' : FfState) : Prop :=
  match op with
  | .windup _ delta reset => reset = none ∨ s.sysclockActive = .ff →
      (uptime s').val = (uptime s).val + product (delta.setWidth 64) s.tick.periodMono
  | _ => uptime s' = uptime s

/-- What the next slot holds makes no difference to uptime. -/
def UptimeCond (s : FfState) (op : FfOp) : Prop :=
  match op with
  | .windup _ delta (some _) => s.sysclockActive = .ff →
      product (delta.setWidth 64) s.stale.periodMono - s.stale.ffclockBoottime.val =
        product (delta.setWidth 64) s.tick.periodMono - s.tick.ffclockBoottime.val
  | .changeTc _ _ _ => s.stale.ffclockBoottime = s.tick.ffclockBoottime
  | _ => True

instance (s : FfState) : (op : FfOp) → Decidable (UptimeCond s op)
  | .windup _ _ (some _) => inferInstanceAs (Decidable (_ → _ = _))
  | .changeTc _ _ _ => inferInstanceAs (Decidable (_ = _))
  | .windup _ _ none | .setdata _ | .setSysclock _ => isTrue trivial

/-! ## The branches -/

theorem val_projMono (ffdelta : BitVec 64) (cur : Fftimehands) :
    (projMono ffdelta cur).val = cur.tickTimeMono.val + product ffdelta cur.periodMono := by
  rw [projMono, Bintime.val_add, val_convertDelta]

/-- The boot time takes the jump of an RTC reset. -/
theorem val_resetBoottime (ffdelta : BitVec 64) (utc : Bintime) (cur ffth : Fftimehands) :
    (resetBoottime ffdelta utc cur ffth).val =
      ffth.ffclockBoottime.val + utc.val - cur.tickTimeMono.val -
        product ffdelta ffth.periodMono := by
  unfold resetBoottime
  simp only
  split <;> simp only [Bintime.val_add, Bintime.val_sub, val_convertDelta] <;> ring

theorem uptime_project (ffdelta : BitVec 64) (s : FfState) (ffth : Fftimehands)
    (hboot : ffth.ffclockBoottime = s.tick.ffclockBoottime) :
    (uptime (publish (windupProject ffdelta s ffth).1 (windupProject ffdelta s ffth).2)).val =
      (uptime s).val + product ffdelta s.tick.periodMono := by
  rw [val_uptime, val_uptime, tick_publish]
  show (s.tick.tickTimeMono.add (ffclockConvertDelta ffdelta s.tick.periodMono)).val -
    ffth.ffclockBoottime.val = _
  rw [Bintime.val_add, val_convertDelta, hboot]
  ring

/-- Whether monoFFC jumps or not. -/
theorem uptime_update {ffdelta : BitVec 64} {s : FfState} {ffth : Fftimehands}
    {p : FfState × Fftimehands} (h : windupUpdate ffdelta s ffth = some p)
    (hboot : ffth.ffclockBoottime = s.tick.ffclockBoottime) :
    (uptime (publish p.1 p.2)).val = (uptime s).val + product ffdelta s.tick.periodMono := by
  obtain ⟨periodMono, -, rfl⟩ := Option.map_eq_some_iff.mp h
  rw [val_uptime, val_uptime, tick_publish]
  have hproj := val_projMono ffdelta s.tick
  simp only [hboot]
  by_cases hjump : jumps s.ffclockStatus s.ffclockData = true
  · -- Forward or backward, natFFC less the new boot time is monoFFC less the old one.
    simp only [if_pos hjump]
    split <;> simp only [Bintime.val_add, Bintime.val_sub, hproj] <;> ring
  · simp only [if_neg hjump, hproj]
    ring

theorem uptime_reset {tcFrequency ffdelta : BitVec 64} {fb utc : Bintime} {s : FfState}
    {ffth : Fftimehands} {p : FfState × Fftimehands}
    (h : windupReset tcFrequency ffdelta fb utc s ffth = some p) (hff : s.sysclockActive = .ff) :
    (uptime (publish p.1 p.2)).val =
      s.tick.tickTimeMono.val + product ffdelta ffth.periodMono - ffth.ffclockBoottime.val := by
  obtain ⟨period, -, rfl⟩ := Option.map_eq_some_iff.mp h
  rw [val_uptime, tick_publish]
  simp only [hff, val_resetBoottime]
  ring

theorem uptime_changeTc {tc : TcName} {tcFrequency : BitVec 64} {ncount : BitVec 32}
    {s s' : FfState} (h : ffclockChangeTc tc tcFrequency ncount s = some s') :
    (uptime s').val = s.tick.tickTimeMono.val - s.stale.ffclockBoottime.val := by
  obtain ⟨period, -, rfl⟩ := Option.map_eq_some_iff.mp h
  rw [val_uptime, tick_publish]

/-! ## One operation, and runs -/

theorem uptimeKept_iff (s : FfState) (op : FfOp) (s' : FfState) (h : ffStep s op = some s') :
    UptimeKept s op s' ↔ UptimeCond s op := by
  cases op with
  | windup tcFrequency delta reset =>
    have hignore : (uptime (ignoreStale s)).val = (uptime s).val := by
      rw [val_uptime, val_uptime, tick_ignoreStale]
    -- the RTC reset is the one windup that takes its boot time from the next slot
    rcases windup_cases h with ⟨fb, utc, p, rfl, hp, rfl⟩ | ⟨rfl, -, rfl⟩ | ⟨p, rfl, -, hp, rfl⟩
    · unfold UptimeKept UptimeCond
      simp only [reduceCtorEq, false_or]
      refine forall_congr' fun hff => ?_
      rw [uptime_reset hp hff, val_uptime]
      show s.tick.tickTimeMono.val + product (delta.setWidth 64) s.stale.periodMono -
        s.stale.ffclockBoottime.val = _ ↔ _
      rw [← sub_eq_zero, ← sub_eq_zero (a := product _ s.stale.periodMono - _)]
      refine iff_of_eq (congrArg (· = 0) ?_)
      ring
    · refine iff_of_true (fun _ => ?_) trivial
      rw [uptime_project _ _ _ (by rw [tick_ignoreStale]; rfl), hignore, tick_ignoreStale]
    · refine iff_of_true (fun _ => ?_) trivial
      rw [uptime_update hp (by rw [tick_ignoreStale]; rfl), hignore, tick_ignoreStale]
  -- a change of counter keeps monoFFC and takes the boot time the next slot holds
  | changeTc tc tcFrequency ncount =>
    unfold UptimeKept UptimeCond
    constructor
    · intro hkept
      have hval := congrArg Bintime.val hkept
      rw [uptime_changeTc h, val_uptime, sub_right_inj] at hval
      exact Bintime.val_inj hval
    · intro hboot
      apply Bintime.val_inj
      rw [uptime_changeTc h, val_uptime, hboot]
  | setdata cdat =>
    obtain rfl := Option.some.inj h
    exact iff_of_true rfl trivial
  | setSysclock sysclock =>
    obtain rfl := Option.some.inj h
    exact iff_of_true rfl trivial

/-- A run keeps uptime continuous exactly when, at every change of counter and at every RTC reset
under the FFclock, what the next slot holds makes no difference. -/
theorem uptime_continuous_iff (s : FfState) (ops : List FfOp) :
    Along ffStep UptimeKept s ops ↔ Along ffStep (fun s op _ => UptimeCond s op) s ops :=
  along_congr uptimeKept_iff ops s

/-- The clock is set from the RTC after boot, and then the counter is changed. -/
def rtcThenChange : List FfOp :=
  [.windup 1000000000 1000 (some (⟨1000, 0⟩, ⟨2000, 0⟩)), .changeTc .other 1000000000 0]

/-- The slot after the first tick has no boot time yet: uptime goes from 1000 s to 2000 s. -/
theorem not_uptime_continuous_change :
    ¬ Along ffStep UptimeKept (ffclockInit .fb) rtcThenChange := by
  intro h
  have hchange := (h _ rfl).2 _ rfl
  have hcond := (uptimeKept_iff _ _ _ rfl).mp hchange.1
  exact absurd hcond (by decide)

end RADclock.Kernel
