import RADclock.Sync.Params

/-!
# RTT and one-way delays (`sync_bidir.c`, RTT / OWD-Asym)

The raw RTT of the stamp is in `RTT_hist` before any of these functions run. Each of
them is cut where the source has a comment that starts a new paragraph: minima, shift
window, upshift detection.
-/

namespace RADclock

open Lib Arith

variable {D : Type} [Arith D]

/-- A counter value as a real number. -/
def vcD (v : VCounter) : D := ofNat v.toNat

/-! ## Warmup -/

/-- `process_RTT_warmup`. -/
def processRTTWarmup (RTT : VCounter) (s : AlgoState D) : AlgoState D :=
  if RTT < s.rtt.RTThat then
    { s with
      rtt := { s.rtt with RTThat := RTT }
      past := { s.past with pstampI := s.si } }  -- needed for phat
  else s

/-- The raw OWDs `(Df, Db)` of a stamp, by the current clock. -/
def rawOWD (s : AlgoState D) (st : BidirStamp D) : D × D :=
  let TS := (st.Tb + st.Te) / 2.0
  (-(s.osc.phat * vcD st.Ta + s.off.K - s.off.thetahat - TS),
    s.osc.phat * vcD st.Tf + s.off.K - s.off.thetahat - TS)

/-- Store raw OWDs. -/
def recordOWD (d : D × D) (s : AlgoState D) : AlgoState D :=
  { s with hist := { s.hist with
      Df := historyAdd s.hist.Df s.si d.1
      Db := historyAdd s.hist.Db s.si d.2 } }

/-- `0.2` as a `float`: upper bound on a sane OWD minimum. -/
def globalmin : D := 0.20000000298023224

/-- The warmup filter, identical for each direction. -/
def warmupOWD (si : Nat) (hat raw : D) : D :=
  if si < 20 then cmin globalmin (cmax 0 raw)
  else if hat == 0 && decide (0 < raw) then raw  -- allow upjump immediately if bogus
  else if raw < hat ∧ 0 < raw then raw
  else hat

/-- `process_OWDAsym_warmup`. -/
def processOWDAsymWarmup (st : BidirStamp D) (s : AlgoState D) : AlgoState D :=
  let d := rawOWD s st
  let s1 := recordOWD d s
  let f := warmupOWD s.si s.owd.Dfhat d.1
  let b := warmupOWD s.si s.owd.Dbhat d.2
  let crazy := f == globalmin || f == 0 || b == globalmin || b == 0
  { s1 with owd := { s1.owd with
      Dfhat := f
      Dbhat := b
      Asymhat := if crazy then 0 else f - b } }

/-! ## Full algorithms: RTT -/

/-- On-line RTT minima, and the RTThat history. -/
def updateRTTMinima (RTT : VCounter) (s : AlgoState D) : AlgoState D :=
  let hat := min s.rtt.RTThat RTT
  { s with
    rtt := { s.rtt with
      prevRTThat := s.rtt.RTThat
      RTThat := hat
      nextRTThat := min s.rtt.nextRTThat RTT }
    hist := { s.hist with RTThat := historyAdd s.hist.RTThat s.si hat } }

/-- The shift window of the RTT: grown while it is not full, else slid. -/
def updateRTTShift (RTT : VCounter) (s : AlgoState D) : Algo D (AlgoState D) := do
  if s.si < wsub s.win.shiftWin 1 + s.win.shiftEnd then
    pure { s with rtt := { s.rtt with RTThatShift := min s.rtt.RTThatShift RTT } }
  else
    let v ← historyMinSlideValue s.hist.RTT s.rtt.RTThatShift s.win.shiftEnd (wsub s.si 1)
    pure
      { s with
        rtt := { s.rtt with RTThatShift := v }
        win := { s.win with shiftEnd := s.win.shiftEnd + 1 } }

/-- Overwrite `RTThat_hist` with `v` from index `j` back to `jmin`. The loop index is
unsigned: with `jmin = 0` it wraps, and the loop never ends. -/
def rewriteBack (v : VCounter) (jmin : Nat) :
    Nat → History VCounter → Algo D (History VCounter)
  | 0, h => do
    if jmin = 0 then
      let h ← historySet h 0 v
      let _ ← historySet h (2 ^ 64 - 1) v
      Exec.halt
    else pure h
  | j + 1, h => do
    if j + 1 < jmin then pure h
    else
      let h ← historySet h (j + 1) v
      rewriteBack v jmin j h

/-- First stamp after a detected upshift. -/
def lastshift (s : AlgoState D) : Nat := wsub (s.si + 1) s.win.shiftWin

/-- How far back the RTThat history is corrected. -/
def upshiftJmin (s : AlgoState D) : Nat :=
  let jmin :=
    if wsub s.win.offsetWin 1 < s.si then s.si - wsub s.win.offsetWin 1 else 0
  max (lastshift s) jmin

/-- Recalculate the RTT state recorded with the next pstamp. -/
def recalcNextPstamp (s : AlgoState D) : AlgoState D :=
  if lastshift s ≤ s.past.nextPstampI then
    { s with past := { s.past with
        nextPstampPerr := s.osc.phat * (vcD s.past.nextPstamp.RTT - vcD s.rtt.RTThat)
        nextPstampRTThat := s.rtt.RTThat } }
  else s

/-- Adopt the shift window's minimum in the on-line estimators. -/
def adoptShift (s : AlgoState D) : AlgoState D :=
  { s with rtt := { s.rtt with
      RTThat := s.rtt.RTThatShift
      nextRTThat := s.rtt.RTThatShift } }

/-- Upward shift detection, and the reaction to it. -/
def detectUpshift (s : AlgoState D) : Algo D (AlgoState D) := do
  if s.rtt.RTThat + s.rtt.RTThatShiftThres < s.rtt.RTThatShift then
    let s1 := recalcNextPstamp (adoptShift s)
    let h ← rewriteBack s1.rtt.RTThat (upshiftJmin s1) s1.si s1.hist.RTThat
    pure ({ s1 with hist := { s1.hist with RTThat := h } }.addStatus STARAD_RTT_UPSHIFT)
  else pure (s.delStatus STARAD_RTT_UPSHIFT)

/-- `process_RTT_full`. -/
def processRTTFull (RTT : VCounter) (s : AlgoState D) : Algo D (AlgoState D) := do
  let s ← updateRTTShift RTT (updateRTTMinima RTT s)
  detectUpshift s

/-! ## Full algorithms: OWD and asymmetry -/

/-- A minimum that ignores values which are not positive. -/
def fullOWD (hat raw : D) : D := if raw < hat ∧ 0 < raw then raw else hat

/-- On-line OWD minima. -/
def updateOWDMinima (d : D × D) (s : AlgoState D) : AlgoState D :=
  { s with owd := { s.owd with
      Dfhat := fullOWD s.owd.Dfhat d.1
      Dbhat := fullOWD s.owd.Dbhat d.2
      nextDfhat := fullOWD s.owd.nextDfhat d.1
      nextDbhat := fullOWD s.owd.nextDbhat d.2 } }

/-- The shift window shared by both OWDs. -/
def updateOWDShift (d : D × D) (s : AlgoState D) : Algo D (AlgoState D) := do
  if s.si < wsub s.win.shiftWin 1 + s.win.shiftEndOWD then
    pure { s with owd := { s.owd with
        DfhatShift := cmin s.owd.DfhatShift d.1
        DbhatShift := cmin s.owd.DbhatShift d.2 } }
  else
    let f ← historyMinSlideValueDbl s.hist.Df s.owd.DfhatShift s.win.shiftEndOWD (wsub s.si 1)
    let b ← historyMinSlideValueDbl s.hist.Db s.owd.DbhatShift s.win.shiftEndOWD (wsub s.si 1)
    pure
      { s with
        owd := { s.owd with DfhatShift := f, DbhatShift := b }
        win := { s.win with shiftEndOWD := s.win.shiftEndOWD + 1 } }

/-- OWD upshift detection. The history records the post-shift value. -/
def detectOWDUpshift (s : AlgoState D) : AlgoState D :=
  let upF := s.owd.Dfhat + s.owd.DfhatShiftThres < s.owd.DfhatShift
  let upB := s.owd.Dbhat + s.owd.DbhatShiftThres < s.owd.DbhatShift
  let f := if upF then s.owd.DfhatShift else s.owd.Dfhat
  let b := if upB then s.owd.DbhatShift else s.owd.Dbhat
  { s with
    owd := { s.owd with
      Dfhat := f
      nextDfhat := if upF then s.owd.DfhatShift else s.owd.nextDfhat
      Dbhat := b
      nextDbhat := if upB then s.owd.DbhatShift else s.owd.nextDbhat
      Asymhat := f - b }
    hist := { s.hist with
      Dfhat := historyAdd s.hist.Dfhat s.si f
      Dbhat := historyAdd s.hist.Dbhat s.si b
      Asymhat := historyAdd s.hist.Asymhat s.si (f - b) } }

/-- `process_OWDAsym_full`. -/
def processOWDAsymFull (st : BidirStamp D) (s : AlgoState D) : Algo D (AlgoState D) := do
  let d := rawOWD s st
  let s ← updateOWDShift d (updateOWDMinima d (recordOWD d s))
  pure (detectOWDUpshift s)

end RADclock
