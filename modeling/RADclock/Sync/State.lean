import RADclock.Sync.History

/-!
# The state of one server's algorithm (`struct bidir_algostate`)

The record follows `sync_algo.h` field by field, in the groups its comments make:
histories, OWD minima, windows, polling period, error thresholds, end windows, RTT
minima, oscillator period, past stamps, local period, offset, path penalty, error
statistics. Two things are kept with it that the source passes by pointer beside it:
the status word of `struct radclock_data` and `struct bidir_algooutput`.

`stamp_i` starts at `-1`; inside a call it is the index of the stamp being processed,
and `AlgoState.si` is that index as the unsigned number the source works with.
-/

namespace RADclock

open Lib

/-! ## Configuration -/

/-- `struct bidir_metaparam`. -/
structure Metaparam (D : Type) where
  TSLIMIT : D
  SKM_SCALE : D
  RateErrBOUND : D
  BestSKMrate : D
  offsetRatio : Int
  plocalQuality : D
  pathScale : D
  relasymBoundGlobal : D

/-- The part of `struct radclock_config` the algorithm reads. The polling period is
within `[RAD_MINPOLL, RAD_MAXPOLL]`, which the configuration parser enforces. -/
structure Config (D : Type) where
  mask : UInt32
  pollPeriod : Nat
  metaparam : Metaparam D
  phatInit : D
  asymHost : D
  asymNet : D
  minPoll : 1 ≤ pollPeriod
  maxPoll : pollPeriod ≤ 1024

def UPDMASK_NOUPD : UInt32 := 0x0000000
def UPDMASK_POLLPERIOD : UInt32 := 0x0000001
def UPDMASK_TEMPQUALITY : UInt32 := 0x0000004

/-- `HAS_UPDATE(val, mask)`. -/
def hasUpdate (val mask : UInt32) : Bool := val &&& mask == mask

/-- The test of `RADalgo_bidir` for an on-the-fly change. -/
def Config.algoUpdate {D : Type} (conf : Config D) : Bool :=
  hasUpdate conf.mask UPDMASK_POLLPERIOD || hasUpdate conf.mask UPDMASK_TEMPQUALITY

/-! ## State -/

/-- Time series histories. -/
structure Hists (D : Type) where
  stamp : History (BidirStamp D)
  Df : History D
  Db : History D
  Dfhat : History D
  Dbhat : History D
  Asymhat : History D
  RTT : History VCounter
  RTThat : History VCounter
  thnaive : History D

/-- One-way delays, and the path asymmetry. -/
structure OWD (D : Type) where
  Dfhat : D
  nextDfhat : D
  DfhatShift : D
  DfhatShiftThres : D
  Dbhat : D
  nextDbhat : D
  DbhatShift : D
  DbhatShiftThres : D
  Asymhat : D

/-- Window sizes, measured in packet index. -/
structure Windows where
  hWin : Nat
  historyEnd : Nat
  warmupWin : Nat
  shiftWin : Nat
  shiftEnd : Nat
  shiftEndOWD : Nat
  plocalWin : Nat
  plocalEnd : Nat
  offsetWin : Nat
  jsearchWin : Nat

/-- The polling period and its last change. -/
structure Poll (D : Type) where
  pollPeriod : Nat
  pollTransitionTh : Nat
  pollRatio : D
  pollChangedI : Nat

/-- Error thresholds. -/
structure Thresholds (D : Type) where
  Eshift : D
  Ep : D
  EpQual : D
  EpSanity : D
  EplocalQual : D
  EplocalSanity : D
  Eoffset : D
  EoffsetQual : D
  EoffsetSanityMin : D
  EoffsetSanityRate : D

/-- The near and far end windows, and the packets chosen in them. -/
structure Ends where
  wwidth : Nat
  nearI : Nat
  farI : Nat

/-- Minimal RTTs: over the top window, over its next half, over the shift window. -/
structure RTTs where
  RTThat : VCounter
  prevRTThat : VCounter
  nextRTThat : VCounter
  RTThatShift : VCounter
  RTThatShiftThres : VCounter

/-- Oscillator period estimation. -/
structure Osc (D : Type) where
  phat : D
  perr : D
  jcount : Nat
  phatSanityCount : Nat

/-- Record of past stamps for oscillator period estimation. -/
structure Past (D : Type) where
  pstamp : BidirStamp D
  nextPstamp : BidirStamp D
  pstampI : Nat
  nextPstampI : Nat
  pstampPerr : D
  nextPstampPerr : D
  pstampRTThat : VCounter
  nextPstampRTThat : VCounter

/-- `pstamp`, with what is recorded of it. -/
def Past.current {D : Type} (p : Past D) : PastStamp D :=
  ⟨p.pstampI, p.pstamp, p.pstampRTThat, p.pstampPerr⟩

/-- `next_pstamp`, with what is recorded of it. -/
def Past.next {D : Type} (p : Past D) : PastStamp D :=
  ⟨p.nextPstampI, p.nextPstamp, p.nextPstampRTThat, p.nextPstampPerr⟩

/-- Plocal estimation. -/
structure Plocal (D : Type) where
  plocal : D
  plocalerr : D
  plocalSanityCount : Nat
  plocalProblem : Bool

/-- Offset estimation. -/
structure Offset (D : Type) where
  K : D
  thetahat : D
  minET : D
  thetastamp : BidirStamp D
  offsetQualityCount : Nat
  offsetSanityCount : Nat

/-- Path penalty. -/
structure Penalty (D : Type) where
  Pbase : D
  Pchange : D
  PqualityErr : D
  Pquality : D

/-- `struct algo_error`. -/
structure AlgoError (D : Type) where
  EboundMinLast : D
  errorBound : D
  nerror : Nat
  cumsum : D
  sqCumsum : D
  nerrorHwin : Nat
  cumsumHwin : D
  sqCumsumHwin : D

/-- Server delay counts (good, average, bad). -/
structure StatsSD where
  good : Nat
  avg : Nat
  bad : Nat

/-- `struct bidir_algooutput`, less the leap second fields that the algorithm does not
write. -/
structure AlgoOutput (D : Type) where
  nStamps : Int
  RTT : VCounter
  phat : D
  perr : D
  plocal : D
  plocalerr : D
  K : D
  thetahat : D
  RTThat : VCounter
  RTThatNew : VCounter
  RTThatShift : VCounter
  thNaive : D
  minET : D
  minETLast : D
  pDf : D
  pDb : D
  wsum : D
  bestTf : VCounter
  status : UInt32
  pathpenalty : D
  Pchange : D
  Pquality : D

/-- `struct bidir_algostate`, with the status word and the output. -/
structure AlgoState (D : Type) where
  stampI : Int
  stamp : BidirStamp D
  hist : Hists D
  owd : OWD D
  win : Windows
  poll : Poll D
  thres : Thresholds D
  ends : Ends
  rtt : RTTs
  osc : Osc D
  past : Past D
  ploc : Plocal D
  off : Offset D
  pen : Penalty D
  err : AlgoError D
  stats : StatsSD
  status : UInt32
  output : AlgoOutput D

variable {D : Type}

/-- The index of the stamp being processed. -/
def AlgoState.si (s : AlgoState D) : Nat := s.stampI.toNat

section Zero

variable [Zero D]

/-- The histories before `history_init`: zero bytes. -/
def Hists.zero : Hists D where
  stamp := { historyInit .stamp 0 with newestI := 0 }
  Df := { historyInit .Df 0 with newestI := 0 }
  Db := { historyInit .Db 0 with newestI := 0 }
  Dfhat := { historyInit .Dfhat 0 with newestI := 0 }
  Dbhat := { historyInit .Dbhat 0 with newestI := 0 }
  Asymhat := { historyInit .Asymhat 0 with newestI := 0 }
  RTT := { historyInit .RTT 0 with newestI := 0 }
  RTThat := { historyInit .RTThat 0 with newestI := 0 }
  thnaive := { historyInit .thnaive 0 with newestI := 0 }

/-- The state `init_handle` allocates: zero bytes, `stamp_i` set to `-1`. -/
def AlgoState.zero : AlgoState D where
  stampI := -1
  stamp := 0
  hist := Hists.zero
  owd := ⟨0, 0, 0, 0, 0, 0, 0, 0, 0⟩
  win := ⟨0, 0, 0, 0, 0, 0, 0, 0, 0, 0⟩
  poll := ⟨0, 0, 0, 0⟩
  thres := ⟨0, 0, 0, 0, 0, 0, 0, 0, 0, 0⟩
  ends := ⟨0, 0, 0⟩
  rtt := ⟨0, 0, 0, 0, 0⟩
  osc := ⟨0, 0, 0, 0⟩
  past := ⟨0, 0, 0, 0, 0, 0, 0, 0⟩
  ploc := ⟨0, 0, 0, false⟩
  off := ⟨0, 0, 0, 0, 0, 0⟩
  pen := ⟨0, 0, 0, 0⟩
  err := ⟨0, 0, 0, 0, 0, 0, 0, 0⟩
  stats := ⟨0, 0, 0⟩
  status := 0
  output := ⟨0, 0, 0, 0, 0, 0, 0, 0, 0, 0, 0, 0, 0, 0, 0, 0, 0, 0, 0, 0, 0, 0⟩

end Zero

/-! ## Status word -/

def STARAD_UNSYNC : UInt32 := 0x0001
def STARAD_WARMUP : UInt32 := 0x0002
def STARAD_RTT_UPSHIFT : UInt32 := 0x0020
def STARAD_PHAT_UPDATED : UInt32 := 0x0040
def STARAD_PHAT_SANITY : UInt32 := 0x0080
def STARAD_PLOCAL_QUALITY : UInt32 := 0x0100
def STARAD_PLOCAL_SANITY : UInt32 := 0x0200
def STARAD_OFFSET_QUALITY : UInt32 := 0x0400
def STARAD_OFFSET_SANITY : UInt32 := 0x0800

/-- `ADD_STATUS`. -/
def AlgoState.addStatus (s : AlgoState D) (bit : UInt32) : AlgoState D :=
  { s with status := s.status ||| bit }

/-- `DEL_STATUS`. -/
def AlgoState.delStatus (s : AlgoState D) (bit : UInt32) : AlgoState D :=
  { s with status := s.status &&& ~~~bit }

end RADclock
