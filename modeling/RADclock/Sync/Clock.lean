import RADclock.Sync.Path

/-!
# Clock parameters (`sync_bidir.c`, phat, plocal, thetahat, pathpenalty)

The sub-algorithms that estimate the oscillator period, its local refinement, the
offset, and the path penalty. Sums of unsigned indices that the source writes out with
several `+` and `-` are collected into one wrapping subtraction.

The differences of counter readings of *different stamps* go through `counterDiff`, and
the point errors of the full algorithms are emitted where they are computed.
-/

namespace RADclock

open Lib Arith

variable {D : Type} [Arith D]

/-- Two lookups, then two dereferences. -/
def historyGet2 {α : Type} (h : History α) (i j : Nat) : Algo D (α × α) := do
  let p ← historyFind h i
  let q ← historyFind h j
  let a ← Exec.deref p
  let b ← Exec.deref q
  pure (a, b)

/-! ## phat -/

/-- `compute_phat`: a naive period from two stamps, `0` when they do not differ. -/
def computePhat (far near : BidirStamp D) : Algo D D := do
  let DelTa ← counterDiff near.Ta far.Ta
  let DelTf ← counterDiff near.Tf far.Tf
  let DelTb := near.Tb - far.Tb
  let DelTe := near.Te - far.Te
  if DelTa = 0 ∨ DelTb ≤ 0 ∨ DelTe ≤ 0 ∨ DelTf = 0 then pure 0
  else pure ((DelTb / vcD DelTa + DelTe / vcD DelTf) / 2.0)

/-- The error of a period estimate from the pair `(far, near)`. -/
def pairErr (phat : D) (RTTfar RTTnear RTThat : VCounter) (far near : BidirStamp D) : D :=
  phat * (vcD (RTTfar + RTTnear) - vcD (2 * RTThat)) / (near.Tb - far.Tb)

/-- Select the near and far packets for stamp `si`: slide the near window by one, or
widen both windows. -/
def warmupEnds (RTT : VCounter) (s : AlgoState D) : Algo D Ends := do
  if s.si % warmupWinratio ≠ 0 then
    let near ← historyMinSlide s.hist.RTT s.ends.nearI (wsub s.si s.ends.wwidth) (wsub s.si 1)
    pure { s.ends with nearI := near }
  else
    let tmp ← historyFind s.hist.RTT s.ends.wwidth
    let near ← historyFind s.hist.RTT s.ends.nearI
    let far ← historyFind s.hist.RTT s.ends.farI
    let t ← Exec.deref tmp
    let f ← Exec.deref far
    let n ← Exec.deref near
    pure
      { farI := if t < f then s.ends.wwidth else s.ends.farI
        nearI := if RTT < n then s.si else s.ends.nearI
        wwidth := s.ends.wwidth + 1 }

/-- Move to the period `phat`, keeping the clock continuous at the last stamp. -/
def movePhat (phat perr : D) (s : AlgoState D) : AlgoState D :=
  { s with
    off := { s.off with K := s.off.K + vcD s.stamp.Ta * (s.osc.phat - phat) }
    osc := { s.osc with phat := phat, perr := perr } }

/-- `process_phat_warmup`. -/
def processPhatWarmup (RTT : VCounter) (s : AlgoState D) : Algo D (AlgoState D) := do
  let ends ← warmupEnds RTT s
  let s1 := { s with ends := ends }
  let st ← historyGet2 s1.hist.stamp ends.nearI ends.farI
  let phat ← computePhat st.2 st.1
  if phat == 0 then pure s1
  else if s.ends.nearI ≠ ends.nearI ∨ s.ends.farI ≠ ends.farI then
    let r ← historyGet2 s1.hist.RTT ends.farI ends.nearI
    pure (movePhat phat (pairErr phat r.1 r.2 s1.rtt.RTThat st.2 st.1) s1)
  else pure s1

/-- `update_next_pstamp`. -/
def updateNextPstamp (st : BidirStamp D) (RTT : VCounter) (s : AlgoState D) :
    Algo D (AlgoState D) := do
  if s.osc.jcount ≤ s.win.jsearchWin then
    let s1 := { s with osc := { s.osc with jcount := s.osc.jcount + 1 } }
    if RTT < s.past.nextPstamp.RTT then
      Exec.emit (.pointErr RTT s.rtt.RTThat)
      pure { s1 with past := { s1.past with
          nextPstampI := s.si
          nextPstampRTThat := s.rtt.RTThat
          nextPstampPerr := s.osc.phat * vcD (RTT - s.rtt.RTThat)
          nextPstamp := st } }
    else pure s1
  else pure s

/-- The distance between the current RTT baseline and that of `pstamp`. -/
def baseerr (s : AlgoState D) : D :=
  if s.past.pstampRTThat < s.rtt.RTThat then
    s.osc.phat * vcD (s.rtt.RTThat - s.past.pstampRTThat)
  else s.osc.phat * vcD (s.past.pstampRTThat - s.rtt.RTThat)

/-- `process_phat_full`. Its return value only reaches an argument of
`process_plocal_full` that is not used. -/
def processPhatFull (st : BidirStamp D) (RTT : VCounter) (qualWarning : Bool)
    (s : AlgoState D) : Algo D (AlgoState D) := do
  let s := s.delStatus STARAD_PHAT_UPDATED
  Exec.emit (.pointErr RTT s.rtt.RTThat)
  let perrI := s.osc.phat * (vcD RTT - vcD s.rtt.RTThat)
  if s.thres.Ep ≤ perrI then pure s
  else
    let perrIJ := (fabs perrI + fabs s.past.pstampPerr + baseerr s) / (st.Tb - s.past.pstamp.Tb)
    if s.osc.perr ≤ perrIJ ∧ s.thres.EpQual ≤ perrIJ then pure s
    else
      let phat ← computePhat s.past.pstamp st
      if s.thres.EpSanity < fabs (s.osc.phat - phat) / s.osc.phat ∨ qualWarning = true then
        let s1 := { s with osc := { s.osc with phatSanityCount := s.osc.phatSanityCount + 1 } }
        pure (s1.addStatus STARAD_PHAT_SANITY)
      else
        let s1 := movePhat phat perrIJ s
        pure ((s1.addStatus STARAD_PHAT_UPDATED).delStatus STARAD_PHAT_SANITY)

/-! ## plocal -/

/-- The width of the end windows of the full plocal algorithm. -/
def fullWwidth (plocalWin : Nat) : Nat := max 4 (plocalWin / plocalWinratio)

/-- `reset_plocal`, for the current stamp. -/
def resetPlocal (s : AlgoState D) : Algo D (AlgoState D) := do
  let w := fullWwidth s.win.plocalWin
  let far ← historyMin s.hist.RTT (wsub (s.si + 1) (s.win.plocalWin + w / 2))
    (wsub (s.si + w) (s.win.plocalWin + w / 2))
  let near ← historyMin s.hist.RTT (wsub (s.si + 1) w) s.si
  pure
    { s with
      ends := { wwidth := w, farI := far, nearI := near }
      ploc := { s.ploc with plocalProblem := false } }

/-- The index required to be available before the local period can be estimated. -/
def requiredEnd (s : AlgoState D) : Nat :=
  wsub (s.si + 1) (s.win.plocalWin + s.ends.wwidth + s.ends.wwidth / 2)

/-- The oldest index the local period may use. -/
def availableEnd (s : AlgoState D) : Nat :=
  max s.poll.pollChangedI (max (historyOld s.hist.stamp) (historyOld s.hist.RTT))

/-- Record the required index. -/
def setPlocalEnd (s : AlgoState D) : AlgoState D :=
  { s with win := { s.win with plocalEnd := requiredEnd s } }

/-- Slide the near and far windows, and estimate the local period from the pair. -/
def slidePlocal (qualWarning : Bool) (s : AlgoState D) : Algo D (AlgoState D) := do
  let w := s.ends.wwidth
  let far ← historyMinSlide s.hist.RTT s.ends.farI (wsub s.si (w + s.win.plocalWin + w / 2))
    (wsub s.si (1 + s.win.plocalWin + w / 2))
  let near ← historyMinSlide s.hist.RTT s.ends.nearI (wsub s.si w) (wsub s.si 1)
  let s := { s with ends := { s.ends with farI := far, nearI := near } }
  let st ← historyGet2 s.hist.stamp near far
  let plocal ← computePhat st.2 st.1
  if plocal == 0 then pure s
  else
    let r ← historyGet2 s.hist.RTT far near
    let plocalerr := pairErr s.osc.phat r.1 r.2 s.rtt.RTThat st.2 st.1
    let s1 := { s with output := { s.output with plocalerr := plocalerr } }
    if s.thres.EplocalQual ≤ fabs plocalerr then
      pure ((s1.addStatus STARAD_PLOCAL_QUALITY).delStatus STARAD_PLOCAL_SANITY)
    else
      let s2 := s1.delStatus STARAD_PLOCAL_QUALITY
      if s.thres.EplocalSanity < fabs (s.ploc.plocal - plocal) / s.ploc.plocal ∨
          qualWarning = true then
        let s3 := s2.addStatus STARAD_PLOCAL_SANITY
        pure { s3 with ploc := { s3.ploc with
            plocalSanityCount := s3.ploc.plocalSanityCount + 1 } }
      else
        let s3 := { s2 with ploc := { s2.ploc with plocal := plocal, plocalerr := plocalerr } }
        pure (s3.delStatus STARAD_PLOCAL_SANITY)

/-- Recover from a past problem. -/
def recoverPlocal (s : AlgoState D) : Algo D (AlgoState D) :=
  if s.ploc.plocalProblem then resetPlocal s else pure s

/-- Default to phat while windows fill. -/
def defaultPlocal (s : AlgoState D) : AlgoState D :=
  { s with ploc := { s.ploc with plocal := s.osc.phat, plocalProblem := true } }

/-- `process_plocal_full`, once the required index is recorded. -/
def runPlocal (qualWarning : Bool) (s : AlgoState D) : Algo D (AlgoState D) := do
  if s.win.plocalEnd < availableEnd s then pure (defaultPlocal s)
  else
    let s ← recoverPlocal s
    slidePlocal qualWarning s

/-- `process_plocal_full`. -/
def processPlocalFull (qualWarning : Bool) (s : AlgoState D) : Algo D (AlgoState D) :=
  runPlocal qualWarning (setPlocalEnd s)

/-! ## thetahat -/

/-- The offset window: shorter or longer while a poll transition lasts. -/
def thetaWin (s : AlgoState D) : Nat :=
  if 0 < s.poll.pollTransitionTh then
    toNat (ofNat (wsub s.win.offsetWin s.poll.pollTransitionTh) +
      ceil (ofNat s.poll.pollTransitionTh * s.poll.pollRatio))
  else s.win.offsetWin

/-- The safe form of `MAX(least, si - win + 1)`. -/
def safeJmin (least si win : Nat) : Nat :=
  max least (if wsub win 1 < si then si - wsub win 1 else 0)

/-- One stamp less of poll transition to serve. -/
def stepTransition (s : AlgoState D) : AlgoState D :=
  { s with poll := { s.poll with pollTransitionTh := s.poll.pollTransitionTh - 1 } }

/-- The naive offset of a stamp. -/
def naiveTheta (s : AlgoState D) (st : BidirStamp D) : D :=
  (s.osc.phat * (vcD st.Ta + vcD st.Tf) + (2.0 * s.off.K - (st.Tb + st.Te))) / 2.0

/-- Store a naive offset. -/
def recordTheta (th : D) (s : AlgoState D) : AlgoState D :=
  { s with hist := { s.hist with thnaive := historyAdd s.hist.thnaive s.si th } }

/-- What the window loop accumulates. -/
structure ThetaAcc (D : Type) where
  thetahat : D
  wsum : D
  minET : D
  jbest : Nat
  gapsize : D

/-- Account for packet `j` with error `ET` and naive offset `th`. -/
def ThetaAcc.add (s : AlgoState D) (j : Nat) (ET th : D) (a : ThetaAcc D) : ThetaAcc D :=
  let wj := exp (-ET * ET / s.thres.Eoffset / s.thres.Eoffset)
  let best := j = s.si ∨ ET < a.minET
  { thetahat := a.thetahat + wj * th
    wsum := a.wsum + wj
    minET := if best then ET else a.minET
    jbest := if best then j else a.jbest
    gapsize := a.gapsize }

/-- The RTT and the stamp of packet `j`. -/
def rttAndStamp (s : AlgoState D) (j : Nat) : Algo D (VCounter × BidirStamp D) := do
  let RTTtmp ← historyFind s.hist.RTT j
  let stampTmp ← historyFind s.hist.stamp j
  let r ← Exec.deref RTTtmp
  let t ← Exec.deref stampTmp
  pure (r, t)

/-- The error of a packet: its point error, and ageing with a pessimistic rate. -/
def errET (mp : Metaparam D) (s : AlgoState D) (RTT RTThat delTf : VCounter) : D :=
  s.osc.phat * (vcD RTT - vcD RTThat) + s.osc.phat * vcD delTf * mp.BestSKMrate

/-- The window loop of the warmup algorithm, from packet `j` back to `jmin`. -/
def warmupLoop (mp : Metaparam D) (s : AlgoState D) (st : BidirStamp D) (jmin : Nat) :
    Nat → ThetaAcc D → Algo D (ThetaAcc D)
  | 0, a => pure a  -- `jmin` is at least 1
  | j + 1, a => do
    if j + 1 < jmin then pure a
    else
      let p ← rttAndStamp s (j + 1)
      let d ← counterDiff st.Tf p.2.Tf
      let th ← historyGet s.hist.thnaive (j + 1)
      warmupLoop mp s st jmin j (a.add s (j + 1) (errET mp s p.1 s.rtt.RTThat d) th)

/-- Emit a point error. -/
def emitPoint (point : Bool) (RTT RTThat : VCounter) : Algo D Unit :=
  if point then Exec.emit (.pointErr RTT RTThat) else pure ()

/-- The loop for the second best error in the window, against the current RTThat. The
point errors are emitted in the full algorithm only (`point`). -/
def secondLoop (point : Bool) (mp : Metaparam D) (s : AlgoState D) (st : BidirStamp D)
    (jbest jmin : Nat) : Nat → D → Algo D D
  | 0, e => pure e
  | j + 1, e => do
    if j + 1 < jmin then pure e
    else if j + 1 = jbest then secondLoop point mp s st jbest jmin j e
    else
      let p ← rttAndStamp s (j + 1)
      emitPoint point p.1 s.rtt.RTThat
      let d ← counterDiff st.Tf p.2.Tf
      let ET := errET mp s p.1 s.rtt.RTThat d
      let e' :=
        if j + 1 = s.si ∨ (jbest = 1 ∧ j + 1 = wsub s.si 1) then ET  -- initialize
        else if ET < e then ET else e
      secondLoop point mp s st jbest jmin j e'

/-- The left end of the window in warmup. -/
def warmupJmin (s : AlgoState D) : Nat :=
  max (safeJmin 1 s.si (thetaWin s)) (max (historyOld s.hist.RTT) (historyOld s.hist.thnaive))

/-- Adopt a new estimate, and the bound on its error. -/
def adoptTheta (st : BidirStamp D) (minET Ebound : D) (s : AlgoState D) : AlgoState D :=
  { s with
    off := { s.off with minET := minET, thetastamp := st }
    err := { s.err with EboundMinLast := Ebound } }

/-- Count an estimate that looks insane. -/
def warnSanity (s : AlgoState D) : AlgoState D :=
  { s with off := { s.off with
      offsetSanityCount := s.off.offsetSanityCount + 1 } }.addStatus STARAD_OFFSET_SANITY

/-- Quality and sanity of the warmup estimate. A result that looks insane is adopted with
a warning. -/
def judgeWarmup (st : BidirStamp D) (a : ThetaAcc D) (EboundMin gapsize : D)
    (s : AlgoState D) : AlgoState D :=
  if a.minET < s.thres.EoffsetQual then
    let s1 := s.delStatus STARAD_OFFSET_QUALITY
    let th := if a.wsum == 0 then s.off.thetahat else a.thetahat / a.wsum
    let s2 := if a.wsum == 0 then s1 else adoptTheta st a.minET EboundMin s1
    let s3 :=
      if s.thres.EoffsetSanityMin + s.thres.EoffsetSanityRate * gapsize <
          fabs (s.off.thetahat - th) then warnSanity s2
      else s2.delStatus STARAD_OFFSET_SANITY
    { s3 with off := { s3.off with thetahat := th } }
  else s.addStatus STARAD_OFFSET_QUALITY

/-- Copy local variables to the output. -/
def outputTheta (pDf pDb thNaive : D) (a : ThetaAcc D) (bestTf : VCounter) (s : AlgoState D) :
    AlgoState D :=
  { s with output := { s.output with
      pDf := pDf
      pDb := pDb
      thNaive := thNaive
      minET := a.minET
      wsum := a.wsum
      bestTf := bestTf } }

/-- The perceived backward delay `Ca(Tf) - Te`. -/
def perceivedDb (s : AlgoState D) (st : BidirStamp D) : D :=
  vcD st.Tf * s.osc.phat + s.off.K - st.Te - s.off.thetahat

/-- `process_thetahat_warmup`. -/
def processThetahatWarmup (mp : Metaparam D) (st : BidirStamp D) (s : AlgoState D) :
    Algo D (AlgoState D) := do
  let thNaive := naiveTheta s st
  let s1 := recordTheta thNaive s
  let jmin := warmupJmin s1
  let s2 := stepTransition s1
  let a ← warmupLoop mp s2 st jmin s2.si ⟨0, 0, 0, 0, 0⟩
  let EboundMin ← secondLoop false mp s2 st a.jbest jmin s2.si 0
  let d ← counterDiff st.Tf s2.stamp.Tf
  let s3 := judgeWarmup st a EboundMin (s2.osc.phat * vcD d) s2
  let pDf := st.Tb - (vcD st.Ta * s3.osc.phat + s3.off.K) + s3.off.thetahat
  let best ← historyGet s3.hist.stamp a.jbest
  pure (outputTheta pDf (perceivedDb s3 st) thNaive a best.Tf s3)

/-- Widen `gapsize` to the largest gap between stamps in the window. -/
def windowGap (s : AlgoState D) (j : Nat) (gapsize : D) : Algo D D := do
  if j < wsub s.si 1 then
    let p ← historyGet2 s.hist.stamp j (j + 1)
    let d ← counterDiff p.2.Tf p.1.Tf
    pure (cmax gapsize (s.osc.phat * vcD d))
  else pure gapsize

/-- The RTT, the RTThat and the stamp of packet `j`. -/
def fullPoint (s : AlgoState D) (j : Nat) : Algo D (VCounter × VCounter × BidirStamp D) := do
  let RTTtmp ← historyFind s.hist.RTT j
  let RTThatTmp ← historyFind s.hist.RTThat j
  let stampTmp ← historyFind s.hist.stamp j
  let r ← Exec.deref RTTtmp
  let rh ← Exec.deref RTThatTmp
  let t ← Exec.deref stampTmp
  pure (r, rh, t)

/-- The window loop of the full algorithm: point errors are those recorded with each
packet, and the naive offset is corrected by the local period. -/
def fullLoop (mp : Metaparam D) (s : AlgoState D) (st : BidirStamp D) (jmin : Nat) :
    Nat → ThetaAcc D → Algo D (ThetaAcc D)
  | 0, a => pure a  -- `jmin` is at least 1
  | j + 1, a => do
    if j + 1 < jmin then pure a
    else
      let g ← windowGap s (j + 1) a.gapsize
      let p ← fullPoint s (j + 1)
      Exec.emit (.pointErr p.1 p.2.1)
      let d ← counterDiff st.Tf p.2.2.Tf
      let th ← historyGet s.hist.thnaive (j + 1)
      let th' :=
        if s.ploc.plocalProblem then th
        else th - (s.ploc.plocal / s.osc.phat - 1.0) * s.osc.phat * vcD d
      fullLoop mp s st jmin j
        ({ a with gapsize := g }.add s (j + 1) (errET mp s p.1 p.2.1 d) th')

/-- The left end of the window in the full algorithm. -/
def fullJmin (s : AlgoState D) : Nat :=
  max (safeJmin (if 0 < s.poll.pollTransitionTh then 2 else 1) s.si (thetaWin s))
    (max (historyOld s.hist.stamp) (max (historyOld s.hist.RTT)
      (max (historyOld s.hist.RTThat) (historyOld s.hist.thnaive))))

/-- The candidate estimate: the last reliable one when quality is poor. -/
def candidateTheta (a : ThetaAcc D) (s : AlgoState D) : D :=
  if a.minET < s.thres.EoffsetQual then
    if a.wsum == 0 then s.off.thetahat else a.thetahat / a.wsum
  else s.off.thetahat

/-- Quality of the candidate. -/
def judgeQuality (a : ThetaAcc D) (s : AlgoState D) : AlgoState D :=
  if a.minET < s.thres.EoffsetQual then s.delStatus STARAD_OFFSET_QUALITY
  else
    { s with off := { s.off with
        offsetQualityCount := s.off.offsetQualityCount + 1 } }.addStatus STARAD_OFFSET_QUALITY

/-- Sanity of the candidate `th`; an insane one is refused. -/
def judgeSanity (st : BidirStamp D) (a : ThetaAcc D) (th EboundMin gapsize : D)
    (qualWarning : Bool) (s : AlgoState D) : AlgoState D :=
  if s.thres.EoffsetSanityMin + s.thres.EoffsetSanityRate * gapsize <
      fabs (s.off.thetahat - th) ∨ qualWarning = true then warnSanity s
  else
    let s1 := { s with off := { s.off with thetahat := th } }
    -- a genuine update, not a repetition
    let s2 :=
      if a.minET < s.thres.EoffsetQual ∧ (a.wsum == 0) = false then
        adoptTheta st a.minET EboundMin s1
      else s1
    s2.delStatus STARAD_OFFSET_SANITY

/-- `process_thetahat_full`. `Ebound` is what its local variable of that name holds, which
the source never sets. -/
def processThetahatFull (mp : Metaparam D) (st : BidirStamp D) (qualWarning : Bool)
    (Ebound : D) (s : AlgoState D) : Algo D (AlgoState D) := do
  let thNaive := naiveTheta s st
  let s1 := recordTheta thNaive s
  let d0 ← counterDiff st.Tf s1.stamp.Tf
  let jmin := fullJmin s1
  let s2 := stepTransition s1
  let a ← fullLoop mp s2 st jmin s2.si ⟨0, 0, 0, 0, s2.osc.phat * vcD d0⟩
  let EboundMin ← secondLoop true mp s2 st a.jbest jmin s2.si
    (if jmin ≤ s2.si then Ebound else 0)
  let th := candidateTheta a s2
  let s3 := judgeQuality a s2
  let d ← counterDiff st.Tf s3.off.thetastamp.Tf
  let gapsize := cmax a.gapsize (s3.osc.phat * vcD d)
  let s4 := judgeSanity st a th EboundMin gapsize qualWarning s3
  let pDf := -(vcD st.Ta * s4.osc.phat + s4.off.K - st.Tb - s4.off.thetahat)
  let best ← historyGet s4.hist.stamp a.jbest
  pure (outputTheta pDf (perceivedDb s4 st) thNaive a best.Tf s4)

/-! ## Path penalty -/

/-- `memcmp` of two stamps, as a test of equality. -/
def sameStamp (a b : BidirStamp D) : Bool :=
  a.Ta == b.Ta && bitEq a.Tb b.Tb && bitEq a.Te b.Te && a.Tf == b.Tf

/-- The EWMA updates of `Pquality` over the samples of a gap: `(Err, Pquality)` after
`n` of them. -/
def qualityLoop (drift alpha : D) : Nat → D × D → D × D
  | 0, p => p
  | n + 1, p =>
    let Err := p.1 + drift
    qualityLoop drift alpha n (Err, p.2 * (1.0 - alpha) + alpha * Err)

/-- Half the movement of the RTT baseline at this stamp. -/
def totalVariation (s : AlgoState D) : D :=
  if s.rtt.RTThat ≠ s.rtt.prevRTThat then
    if s.rtt.prevRTThat < s.rtt.RTThat then
      vcD (s.rtt.RTThat - s.rtt.prevRTThat) * s.osc.phat / 2.0
    else vcD (s.rtt.prevRTThat - s.rtt.RTThat) * s.osc.phat / 2.0
  else 0

/-- `update_pathpenalty_full`. -/
def updatePathpenaltyFull (mp : Metaparam D) (st : BidirStamp D) (s : AlgoState D) :
    Algo D (AlgoState D) := do
  let pp : D := ofNat s.poll.pollPeriod
  let alpha := 1.0 - exp (-pp / mp.pathScale)
  let Pbase := s.pen.Pbase * (1.0 - alpha) +
    alpha * s.osc.phat * vcD s.rtt.RTThat * mp.relasymBoundGlobal
  let Pchange := s.pen.Pchange * pow (1.0 - alpha) 0.5 + totalVariation s
  let d ← counterDiff st.Tf s.stamp.Tf
  let nsamples := max 1 (toNat (round (s.osc.phat * vcD d / pp)))
  let q := qualityLoop (pp * mp.RateErrBOUND) alpha nsamples (s.pen.PqualityErr, s.pen.Pquality)
  pure
    { s with
      pen :=
        { Pbase := Pbase
          Pchange := Pchange
          PqualityErr := if sameStamp s.off.thetastamp st then s.off.minET else q.1
          Pquality := q.2 }
      output := { s.output with pathpenalty := Pbase + Pchange + q.2 } }

end RADclock
