import RADclock.Sync.Clock

/-!
# `RADalgo_bidir`, and runs of it

The phases of the algorithm over the life of one server:

- stamp `0`: thresholds, windows and histories are set up, basic state is initialised;
- stamps `1, …, warmup_win - 1`: the warmup sub-algorithms; the last of these stamps also
  initialises the full ones;
- from stamp `warmup_win` on: the full sub-algorithms, after `manage_historywin`.

A run is a list of calls, each with the configuration in force at that moment. An
on-the-fly change is a call whose configuration carries an update bit in its mask.
-/

namespace RADclock

open Lib Arith

variable {D : Type} [Arith D]

/-! ## History window -/

/-- Middle of the first history window: start preparing the successors. -/
def initHalfWindow (st : BidirStamp D) (RTT : VCounter) (s : AlgoState D) : AlgoState D :=
  { s with
    rtt := { s.rtt with nextRTThat := s.stamp.RTT }
    win := { s.win with jsearchWin := s.win.warmupWin }
    osc := { s.osc with jcount := 1 }
    past := { s.past with
      nextPstampI := s.si
      nextPstampRTThat := s.rtt.RTThat
      nextPstampPerr := s.osc.phat * (vcD RTT - vcD s.rtt.RTThat)
      nextPstamp := st }
    thres := { s.thres with EpQual := s.thres.EpQual / 10.0 }
    err := { s.err with cumsumHwin := 0, sqCumsumHwin := 0, nerrorHwin := 0 } }

/-- History window full: replace variables with prepared values. `Df` and `Db` are the
last raw values. -/
def slideHistorywin (st : BidirStamp D) (RTT : VCounter) (Df Db : D) (s : AlgoState D) :
    AlgoState D :=
  { s with
    win := { s.win with historyEnd := s.win.historyEnd + s.win.hWin / 2 }
    owd := { s.owd with
      Dfhat := s.owd.nextDfhat
      Dbhat := s.owd.nextDbhat
      nextDfhat := Df
      nextDbhat := Db }
    rtt := { s.rtt with
      RTThat := s.rtt.nextRTThat
      nextRTThat := s.stamp.RTT }
    osc := { s.osc with jcount := 1 }
    past :=
      { pstampI := s.past.nextPstampI
        pstampRTThat := s.past.nextPstampRTThat
        pstampPerr := s.past.nextPstampPerr
        pstamp := s.past.nextPstamp
        nextPstampI := s.si
        nextPstampRTThat := s.rtt.nextRTThat
        nextPstampPerr := s.osc.phat * (vcD RTT - vcD s.rtt.nextRTThat)
        nextPstamp := st }
    err := { s.err with
      cumsum := s.err.cumsumHwin
      sqCumsum := s.err.sqCumsumHwin
      nerror := s.err.nerrorHwin
      cumsumHwin := 0
      sqCumsumHwin := 0
      nerrorHwin := 0 } }

/-- The first branch of `manage_historywin`. -/
def reachHalf (st : BidirStamp D) (RTT : VCounter) (s : AlgoState D) :
    Algo D (AlgoState D) := do
  if s.si = s.win.hWin / 2 then
    Exec.emit (.halfWindow s.si)
    pure (initHalfWindow st RTT s)
  else pure s

/-- The second branch of `manage_historywin`. -/
def reachEnd (st : BidirStamp D) (RTT : VCounter) (s : AlgoState D) :
    Algo D (AlgoState D) := do
  if s.si = s.win.historyEnd then
    let Df ← historyGet s.hist.Df (wsub s.si 1)
    let Db ← historyGet s.hist.Db (wsub s.si 1)
    let s := slideHistorywin st RTT Df Db s
    Exec.emit (.slide s.si s.past.current)
    pure s
  else pure s

/-- `manage_historywin`. -/
def manageHistorywin (st : BidirStamp D) (RTT : VCounter) (s : AlgoState D) :
    Algo D (AlgoState D) := do
  let s ← reachHalf st RTT s
  reachEnd st RTT s

/-! ## Initialisations -/

/-- `init_algos`, on the first stamp. -/
def initAlgos (conf : Config D) (st : BidirStamp D) (RTT : VCounter) (s : AlgoState D) :
    AlgoState D :=
  let phat := conf.phatInit
  let Asym := 1e-6 * (conf.asymHost + conf.asymNet)
  let Df := (vcD RTT * phat + Asym) / 2.0
  let Db := Df - Asym
  { s with
    rtt := { s.rtt with RTThat := RTT }
    osc := { s.osc with phat := phat }
    ends := { s.ends with wwidth := 1 }
    owd := { s.owd with Dfhat := Df, Dbhat := Db, Asymhat := Asym }
    ploc := { s.ploc with plocal := phat }
    off := { s.off with K := st.Tb - vcD st.Ta * phat, thetahat := 0, thetastamp := st }
    hist := { s.hist with
      Df := historyAdd s.hist.Df s.si Df
      Db := historyAdd s.hist.Db s.si Db
      thnaive := historyAdd s.hist.thnaive s.si 0 }
    output := { s.output with bestTf := st.Tf, pathpenalty := vcD RTT * phat } }

/-- Add the value `v` at the `n` indices from `j` on. -/
def fillHistory (v : VCounter) : Nat → Nat → History VCounter → History VCounter
  | _, 0, h => h
  | j, n + 1, h => fillHistory v (j + 1) n (historyAdd h j v)

/-- The left end of the shift windows at the end of warmup. -/
def initShiftEnd (s : AlgoState D) : Nat :=
  max (if s.win.shiftWin < s.si then s.si - wsub s.win.shiftWin 1 else 0)
    (historyOld s.hist.RTT)

/-- `init_RTTOWDAsym_full`. -/
def initRTTOWDAsymFull (s : AlgoState D) : Algo D (AlgoState D) := do
  let e := initShiftEnd s
  let kf ← historyMinDbl s.hist.Df e s.si
  let f ← historyGet s.hist.Df kf
  let kb ← historyMinDbl s.hist.Db e s.si
  let b ← historyGet s.hist.Db kb
  let kr ← historyMin s.hist.RTT e s.si
  let r ← historyGet s.hist.RTT kr
  pure
    { s with
      rtt := { s.rtt with
        nextRTThat := s.rtt.RTThat
        RTThatShift := r
        prevRTThat := s.rtt.RTThat }
      owd := { s.owd with
        nextDfhat := s.owd.Dfhat
        nextDbhat := s.owd.Dbhat
        DfhatShift := f
        DbhatShift := b }
      win := { s.win with shiftEnd := e, shiftEndOWD := e }
      hist := { s.hist with
        RTThat := fillHistory s.rtt.RTThat 0 (s.si + 1) s.hist.RTThat } }

/-- `init_phat_full`. -/
def initPhatFull (s : AlgoState D) : Algo D (AlgoState D) := do
  let pstamp ← historyGet s.hist.stamp s.past.pstampI
  let st ← historyGet2 s.hist.stamp s.ends.nearI s.ends.farI
  let r ← historyGet2 s.hist.RTT s.ends.nearI s.ends.farI
  pure
    { s with
      past := { s.past with
        pstamp := pstamp
        pstampPerr := 0
        pstampRTThat := s.rtt.RTThat }
      osc := { s.osc with
        perr := (vcD (r.2 + r.1) - vcD (2 * s.rtt.RTThat)) * s.osc.phat / (st.1.Tb - st.2.Tb)
        phatSanityCount := 0 } }

/-- Start the local period algorithm, or record a problem: it will have to restart when
that resolves. -/
def startPlocal (s : AlgoState D) : Algo D (AlgoState D) :=
  if availableEnd s ≤ s.win.plocalEnd then resetPlocal s
  else pure { s with ploc := { s.ploc with plocalProblem := true } }

/-- `init_plocal_full`. -/
def initPlocalFull (s : AlgoState D) : Algo D (AlgoState D) := do
  let s ← startPlocal (setPlocalEnd s)
  pure { s with ploc := { s.ploc with plocalSanityCount := 0 } }

/-- `init_thetahat_full`. -/
def initThetahatFull (st : BidirStamp D) (s : AlgoState D) : AlgoState D :=
  { s with off := { s.off with
      offsetSanityCount := 0
      offsetQualityCount := 0
      thetastamp := st } }

/-- `parameters_calibration`: near servers are less than 3 ms away. -/
def parametersCalibration (s : AlgoState D) : AlgoState D :=
  let near : Bool := decide (vcD s.rtt.RTThat < 3e-3 / s.osc.phat)
  let thres : VCounter :=
    if near then UInt64.ofNat (toNat (ceil (s.thres.Eshift / s.osc.phat)))
    else UInt64.ofNat (toNat (ceil (3.0 * s.thres.Eshift / s.osc.phat)))
  { s with
    rtt := { s.rtt with RTThatShiftThres := thres }
    thres := { s.thres with
      EoffsetQual := if near then 3.0 * s.thres.Eoffset else 6.0 * s.thres.Eoffset
      EplocalQual := if near then s.thres.EplocalQual else 2.0 * s.thres.EplocalQual }
    owd := { s.owd with
      DfhatShiftThres := vcD thres * s.osc.phat
      DbhatShiftThres := vcD thres * s.osc.phat } }

/-! ## Statistics -/

/-- `collect_stats_state`. -/
def collectStatsState (st : BidirStamp D) (s : AlgoState D) : AlgoState D :=
  let SD := st.Te - st.Tb
  if SD < 50e-6 then { s with stats := { s.stats with good := s.stats.good + 1 } }
  else if SD < 200e-6 then { s with stats := { s.stats with avg := s.stats.avg + 1 } }
  else { s with stats := { s.stats with bad := s.stats.bad + 1 } }

/-- `print_stats_state`, which resets the counts. -/
def printStatsState (s : AlgoState D) : AlgoState D :=
  if s.si < s.win.warmupWin ∨ s.si % (6 * 3600 / s.poll.pollPeriod) = 0 then
    { s with stats := ⟨0, 0, 0⟩ }
  else s

/-! ## One stamp -/

/-- What one call is given besides the configuration: the stamp, the quality warning, and
the value of an uninitialised local of `process_thetahat_full`. -/
structure Input (D : Type) where
  stamp : BidirStamp D
  qualWarning : Bool
  Ebound : D

def NTP_BURST : Nat := 8

/-- Create the per-stamp histories. -/
def initHists (sz : Nat) : Hists D where
  stamp := historyInit .stamp sz
  Df := historyInit .Df sz
  Db := historyInit .Db sz
  Dfhat := historyInit .Dfhat sz
  Dbhat := historyInit .Dbhat sz
  Asymhat := historyInit .Asymhat sz
  RTT := historyInit .RTT sz
  RTThat := historyInit .RTThat sz
  thnaive := historyInit .thnaive sz

/-- The set-up on the first stamp. -/
def firstStamp (conf : Config D) (s : AlgoState D) : AlgoState D :=
  let s1 := setErrThresholds conf.metaparam s
  let s2 := { s1 with poll := { s1.poll with pollPeriod := conf.pollPeriod, pollRatio := 1.0 } }
  let s3 := setAlgoWindows conf.metaparam s2
  let s4 := adjustWarmupWin 0 { s3 with win := { s3.win with warmupWin := 100 } }
  { s4 with hist := initHists (histSz s4.win.warmupWin) }

/-- React to an on-the-fly configuration update. -/
def reactToUpdate (conf : Config D) (s : AlgoState D) : Algo D (AlgoState D) :=
  if conf.algoUpdate then updateState conf.metaparam conf.pollPeriod s else pure s

/-- Insert the stamp and its RTT into their histories. -/
def recordStamp (st : BidirStamp D) (s : AlgoState D) : AlgoState D :=
  { s with hist := { s.hist with
      RTT := historyAdd s.hist.RTT s.si st.RTT
      stamp := historyAdd s.hist.stamp s.si st } }

/-- The initialisation phase, stamp `0`. -/
def initPhase (conf : Config D) (st : BidirStamp D) (s : AlgoState D) : AlgoState D :=
  ((initAlgos conf st st.RTT s).addStatus STARAD_WARMUP).addStatus STARAD_UNSYNC

/-- Full algorithm initialisation, on the last stamp of warmup. -/
def initFull (st : BidirStamp D) (s : AlgoState D) : Algo D (AlgoState D) := do
  let s := { s with win := { s.win with historyEnd := wsub s.win.hWin 1 } }
  let s ← initRTTOWDAsymFull s
  let s ← initPhatFull s
  let s ← initPlocalFull s
  let s := initThetahatFull st s
  let s := { s with pen := { s.pen with Pbase := s.output.pathpenalty } }
  pure ((parametersCalibration s).delStatus STARAD_WARMUP)

/-- The path penalty and the status in warmup. -/
def finishWarmup (mp : Metaparam D) (s : AlgoState D) : AlgoState D :=
  let s := { s with output := { s.output with
      pathpenalty := vcD s.rtt.RTThat * s.osc.phat * mp.relasymBoundGlobal } }
  if NTP_BURST ≤ s.si then s.delStatus STARAD_UNSYNC else s

/-- In warmup the local period is a copy of phat. -/
def copyPhat (s : AlgoState D) : AlgoState D :=
  { s with ploc := { s.ploc with plocal := s.osc.phat } }

/-- The sub-algorithms of the warmup phase. -/
def warmupAlgos (mp : Metaparam D) (st : BidirStamp D) (s : AlgoState D) :
    Algo D (AlgoState D) := do
  let s := processOWDAsymWarmup st (processRTTWarmup st.RTT s)
  let s ← processPhatWarmup st.RTT s
  let s ← processThetahatWarmup mp st (copyPhat s)
  pure (finishWarmup mp s)

/-- The warmup phase. -/
def warmupPhase (mp : Metaparam D) (st : BidirStamp D) (s : AlgoState D) :
    Algo D (AlgoState D) := do
  let s ← warmupAlgos mp st s
  if s.si = wsub s.win.warmupWin 1 then initFull st s else pure s

/-- The full phase. -/
def fullPhase (mp : Metaparam D) (inp : Input D) (s : AlgoState D) :
    Algo D (AlgoState D) := do
  let s ← manageHistorywin inp.stamp inp.stamp.RTT s
  let s ← processRTTFull inp.stamp.RTT s
  let s ← processOWDAsymFull inp.stamp s
  let s ← updateNextPstamp inp.stamp inp.stamp.RTT s
  let s ← processPhatFull inp.stamp inp.stamp.RTT inp.qualWarning s
  let s ← processPlocalFull inp.qualWarning s
  let s ← processThetahatFull mp inp.stamp inp.qualWarning inp.Ebound s
  updatePathpenaltyFull mp inp.stamp s

/-- The phase a stamp falls into. -/
def phases (conf : Config D) (inp : Input D) (s : AlgoState D) : Algo D (AlgoState D) :=
  if s.stampI = 0 then pure (initPhase conf inp.stamp s)
  else if s.si < s.win.warmupWin then warmupPhase conf.metaparam inp.stamp s
  else fullPhase conf.metaparam inp s

/-- The last stamp becomes this one. -/
def copyStamp (st : BidirStamp D) (s : AlgoState D) : AlgoState D :=
  printStatsState (collectStatsState st { s with stamp := st })

/-- Clock error estimates, aged from `thetastamp`. -/
def updateErrors (mp : Metaparam D) (st : BidirStamp D) (s : AlgoState D) :
    Algo D (AlgoState D) := do
  if 0 < s.stampI then
    let d ← counterDiff st.Tf s.off.thetastamp.Tf
    let b := s.err.EboundMinLast + s.osc.phat * vcD d * mp.RateErrBOUND
    pure
      { s with err := { s.err with
          errorBound := b
          cumsumHwin := s.err.cumsumHwin + b
          sqCumsumHwin := s.err.sqCumsumHwin + b * b
          nerrorHwin := s.err.nerrorHwin + 1
          cumsum := s.err.cumsum + b
          sqCumsum := s.err.sqCumsum + b * b
          nerror := s.err.nerror + 1 } }
  else pure s

/-- Fill the output structure. -/
def fillOutput (RTT : VCounter) (s : AlgoState D) : AlgoState D :=
  { s with output := { s.output with
      nStamps := 1 + s.stampI
      RTT := RTT
      RTThat := s.rtt.RTThat
      RTThatNew := s.rtt.nextRTThat
      RTThatShift := s.rtt.RTThatShift
      phat := s.osc.phat
      perr := s.osc.perr
      plocal := s.ploc.plocal
      K := s.off.K
      thetahat := s.off.thetahat
      minETLast := s.off.minET
      status := s.status
      Pchange := s.pen.Pchange
      Pquality := s.pen.Pquality } }

/-- Move on to the next stamp index, with the set-up of the first. -/
def nextStamp (conf : Config D) (s : AlgoState D) : AlgoState D :=
  let s := { s with stampI := s.stampI + 1 }
  if s.stampI = 0 then firstStamp conf s else s

/-- `RADalgo_bidir`. -/
def RADalgoBidir (conf : Config D) (inp : Input D) (s : AlgoState D) :
    Algo D (AlgoState D) := do
  let s ← reactToUpdate conf (nextStamp conf s)
  let s ← phases conf inp (recordStamp inp.stamp s)
  let s ← updateErrors conf.metaparam inp.stamp (copyStamp inp.stamp s)
  pure (fillOutput inp.stamp.RTT s)

/-- A call: the configuration in force and the input. -/
structure Call (D : Type) where
  conf : Config D
  inp : Input D

/-- Process a list of calls. -/
def runFrom : List (Call D) → AlgoState D → Algo D (AlgoState D)
  | [], s => pure s
  | c :: cs, s => do
    let s ← RADalgoBidir c.conf c.inp s
    runFrom cs s

/-- Every step of a run meets the condition `C` on the call and the state before it. -/
def RunMeets (C : Call D → AlgoState D → Prop) : List (Call D) → AlgoState D → Prop
  | [], _ => True
  | c :: cs, s =>
    C c s ∧ ∀ s', (RADalgoBidir c.conf c.inp s).res = some s' → RunMeets C cs s'

/-- The stamps of a list of calls, as a series. -/
def stampsOf (cs : List (Call D)) (k : Nat) : BidirStamp D :=
  match cs[k]? with
  | some c => c.inp.stamp
  | none => 0

/-- A run from initialisation. -/
def run (cs : List (Call D)) : Algo D (AlgoState D) := runFrom cs AlgoState.zero

end RADclock
