import RADclock.Sync.State

/-!
# Algorithm parameters (`sync_bidir.c`, initialisation routines)

Error thresholds and windows are derived from the metaparameters and the polling
period: on the first stamp, and again by `update_state` whenever the configuration
changes under a running algorithm.

The windows are counts of stamps. Where the source takes the maximum of a real number
and a small constant and then truncates, the model truncates first, which is the same
number; `ceil` of an integer is that integer. History sizes are `unsigned int`.
-/

namespace RADclock

open Lib Arith

variable {D : Type} [Arith D]

/-- Fraction of the plocal window sacrificed to the near and far windows. -/
def plocalWinratio : Nat := 5

/-- Same, for the warmup phat algorithm. -/
def warmupWinratio : Nat := 4

/-- `set_err_thresholds`. -/
def setErrThresholds (mp : Metaparam D) (s : AlgoState D) : AlgoState D :=
  { s with
    thres :=
      { Eshift := 10.0 * mp.TSLIMIT
        Ep := 3.0 * mp.TSLIMIT
        EpQual := mp.RateErrBOUND / 5.0
        EpSanity := 3.0 * mp.RateErrBOUND
        EplocalQual := mp.plocalQuality
        EplocalSanity := 3.0 * mp.RateErrBOUND
        Eoffset := ofInt mp.offsetRatio * mp.TSLIMIT
        EoffsetQual := 3.0 * (ofInt mp.offsetRatio * mp.TSLIMIT)
        EoffsetSanityMin := 100.0 * mp.TSLIMIT
        EoffsetSanityRate := 20.0 * mp.RateErrBOUND } }

/-- The history window before any adjustment: a week of stamps. -/
def baseHWin (pollPeriod : Nat) : Nat := 3600 * 24 * 7 / pollPeriod

/-- The shift window, at least 100 samples. -/
def baseShiftWin (mp : Metaparam D) (pollPeriod : Nat) : Nat :=
  max (toNat (ceil (10.0 * mp.TSLIMIT / 1e-7 / ofNat pollPeriod))) 100

/-- The offset window, at least 2 samples. -/
def baseOffsetWin (mp : Metaparam D) (pollPeriod : Nat) : Nat :=
  max (toNat (mp.SKM_SCALE / ofNat pollPeriod)) 2

/-- The local period window. -/
def basePlocalWin (mp : Metaparam D) (pollPeriod : Nat) : Nat :=
  max (baseOffsetWin mp pollPeriod * 5) 4

/-- `set_algo_windows`. -/
def setAlgoWindows (mp : Metaparam D) (s : AlgoState D) : AlgoState D :=
  { s with
    win := { s.win with
      hWin := baseHWin s.poll.pollPeriod
      shiftWin := baseShiftWin mp s.poll.pollPeriod
      offsetWin := baseOffsetWin mp s.poll.pollPeriod
      plocalWin := basePlocalWin mp s.poll.pollPeriod } }

/-- The span of the local period window with its far end window. -/
def plocalSpan (w : Windows) : Nat := w.plocalWin + w.plocalWin / (plocalWinratio / 2)

/-- The first half of `adjust_warmup_win`: stamps of warmup, for stamp `i`. -/
def adjustedWarmup (i : Nat) (pollPeriod : Nat) (w : Windows) : Nat :=
  let win := max w.offsetWin (max w.shiftWin (plocalSpan w))
  if i = 0 then
    if w.warmupWin < win then win else w.warmupWin
  else
    -- simply add on an entire new warmup using the new parameters
    (win * pollPeriod + pollPeriod - 1) / pollPeriod + i

/-- The second half: warmup and shift windows fit in half the history window. -/
def adjustedHWin (w : Windows) : Nat :=
  if w.hWin / 2 < w.warmupWin + w.shiftWin then 3 * ((w.warmupWin + w.shiftWin) * 2 + 1)
  else w.hWin

/-- `adjust_warmup_win`. -/
def adjustWarmupWin (i : Nat) (s : AlgoState D) : AlgoState D :=
  let win := { s.win with warmupWin := adjustedWarmup i s.poll.pollPeriod s.win }
  { s with win := { win with hWin := adjustedHWin win } }

/-- A history size: `unsigned int`. -/
def histSz (w : Nat) : Nat := w % 2 ^ 32

/-- Record a change of polling period. -/
def recordPollChange (pollPeriod : Nat) (s : AlgoState D) : AlgoState D :=
  if pollPeriod = s.poll.pollPeriod then s
  else
    { s with
      poll :=
        { pollTransitionTh := s.win.offsetWin
          pollRatio := ofNat pollPeriod / ofNat s.poll.pollPeriod
          pollPeriod := pollPeriod
          pollChangedI := s.si } }

/-- The sizes `update_state` gives to the stamp, RTT, RTThat and thnaive histories; the
OWD histories follow the RTT history. -/
structure HistSizes where
  stamp : Nat
  RTT : Nat
  RTThat : Nat
  thnaive : Nat

/-- Everything as large as the warmup window, for as long as warmup lasts. -/
def histSizes (si : Nat) (w : Windows) : HistSizes :=
  if si < w.warmupWin then
    { stamp := histSz w.warmupWin
      RTT := histSz w.warmupWin
      RTThat := histSz w.warmupWin
      thnaive := histSz w.warmupWin }
  else
    { stamp := histSz (max (plocalSpan w) w.offsetWin)
      RTT := histSz (max (plocalSpan w) (max w.offsetWin w.shiftWin))
      RTThat := histSz w.offsetWin
      thnaive := histSz w.offsetWin }

/-- Resize the time series histories. -/
def resizeHists (sz : HistSizes) (h : Hists D) : Hists D where
  stamp := historyResize h.stamp sz.stamp
  RTT := historyResize h.RTT sz.RTT
  RTThat := historyResize h.RTThat sz.RTThat
  thnaive := historyResize h.thnaive sz.thnaive
  Df := historyResize h.Df sz.RTT
  Db := historyResize h.Db sz.RTT
  Dfhat := historyResize h.Dfhat sz.RTT
  Dbhat := historyResize h.Dbhat sz.RTT
  Asymhat := historyResize h.Asymhat sz.RTT

/-- The left end of the shift window as `update_state` restarts it from stamp `si - 1`
back. -/
def restartShiftEnd (s : AlgoState D) : Nat :=
  let e :=
    if wsub s.win.shiftWin 1 < wsub s.si 1 then wsub (wsub s.si 1) (wsub s.win.shiftWin 1)
    else 0
  max e (historyOld s.hist.RTT)

/-- The full-phase branch of `update_state`: restart the RTT shift window. The window
of the OWDs is not restarted. -/
def restartShift (s : AlgoState D) : Algo D (AlgoState D) := do
  let s1 := { s with win := { s.win with shiftEnd := restartShiftEnd s } }
  let k ← historyMin s1.hist.RTT s1.win.shiftEnd (wsub s1.si 1)
  let v ← historyGet s1.hist.RTT k
  pure { s1 with rtt := { s1.rtt with RTThatShift := v } }

/-- In warmup adjust the warmup window, later restart the shift window. -/
def adjustWindows (s : AlgoState D) : Algo D (AlgoState D) :=
  if s.si < s.win.warmupWin then pure (adjustWarmupWin s.si s) else restartShift s

/-- Give the histories the sizes the windows call for. -/
def resizeAll (s : AlgoState D) : AlgoState D :=
  { s with hist := resizeHists (histSizes s.si s.win) s.hist }

/-- `update_state`. -/
def updateState (mp : Metaparam D) (pollPeriod : Nat) (s : AlgoState D) :
    Algo D (AlgoState D) := do
  let s ← adjustWindows (setAlgoWindows mp (recordPollChange pollPeriod (setErrThresholds mp s)))
  pure (resizeAll s)

end RADclock
