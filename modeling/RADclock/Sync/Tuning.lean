import RADclock.Sync.Windows

/-!
# States that follow the configuration

Thresholds and windows come from the metaparameters and the polling period, on the first stamp and
whenever `update_state` runs. In between a call leaves the lengths of the windows alone, and three
of the thresholds are retuned: for the quality of phat at the half window, for those of plocal and
of the offset at the end of warmup, where the server turns out to be far.

- `Tuning`: what `update_state` reads of a configuration.
- `TunedBy c A n s`: stamp `A` has set the state up by `c`, and what the stamps from `A` to `n - 1`
  have left is what they must.
- `RADalgoBidir_setUp`: a call that reacts to an update, or is the first one, sets the state up.
- `RADalgoBidir_tunedBy`: any other call follows the tuning the state was set up by.
-/

namespace RADclock

open Lib Lib.Exec

variable {D : Type} [Arith D]

/-! ## Statement -/

/-- What `update_state` reads of a configuration. -/
structure Tuning (D : Type) where
  pollPeriod : Nat
  metaparam : Metaparam D

/-- The tuning of a configuration. -/
def Config.tuning (conf : Config D) : Tuning D := ⟨conf.pollPeriod, conf.metaparam⟩

/-- The thresholds as `set_err_thresholds` leaves them. -/
def errThresholds (mp : Metaparam D) : Thresholds D := (setErrThresholds mp AlgoState.zero).thres

/-- The first half window asks for more of phat. -/
def Thresholds.atHalf (t : Thresholds D) : Thresholds D := { t with EpQual := t.EpQual / 10.0 }

/-- The thresholds of the metaparameters, after the half window or before, for a server that warmup
has found to be far or not. -/
def retunedThresholds (mp : Metaparam D) (half far : Bool) : Thresholds D :=
  { errThresholds mp with
    EpQual := if half then (errThresholds mp).EpQual / 10.0 else (errThresholds mp).EpQual
    EplocalQual :=
      if far then 2.0 * (errThresholds mp).EplocalQual else (errThresholds mp).EplocalQual
    EoffsetQual :=
      if far then 6.0 * (errThresholds mp).Eoffset else 3.0 * (errThresholds mp).Eoffset }

/-- One of the stamps from `A` to `n - 1` was the one at the half window, in the full phase. -/
def HalfPassed (A n : Nat) (w : Windows) : Prop :=
  A ≤ w.hWin / 2 ∧ w.hWin / 2 < n ∧ w.warmupWin ≤ w.hWin / 2 ∧ 0 < w.hWin / 2

instance (A n : Nat) (w : Windows) : Decidable (HalfPassed A n w) :=
  inferInstanceAs (Decidable (_ ∧ _ ∧ _ ∧ _))

/-- The windows that stamp `A` sets up: in warmup those of the tuning with a warmup window that
serves them, later those of the tuning alone. -/
structure WindowsOf (c : Tuning D) (A : Nat) (w : Windows) : Prop where
  shift : w.shiftWin = baseShiftWin c.metaparam c.pollPeriod
  offset : w.offsetWin = baseOffsetWin c.metaparam c.pollPeriod
  plocal : w.plocalWin = basePlocalWin c.metaparam c.pollPeriod
  warmup : A < w.warmupWin →
    w.warmupWin = if A = 0 then max 100 (neededWarmup w) else neededWarmup w + A
  hWin : w.hWin = if A < w.warmupWin then adjustedHWin { w with hWin := baseHWin c.pollPeriod }
    else baseHWin c.pollPeriod

/-- Stamp `A` has set the state up, and all stamps below `n` have been processed. -/
structure TunedBy (c : Tuning D) (A n : Nat) (s : AlgoState D) : Prop where
  poll : s.poll.pollPeriod = c.pollPeriod
  windows : WindowsOf c A s.win
  thresholds : ∃ far : Bool, (far = true → A < s.win.warmupWin ∧ s.win.warmupWin ≤ n) ∧
    s.thres = retunedThresholds c.metaparam (decide (HalfPassed A n s.win)) far

/-- Windows of the same lengths. -/
structure SameLengths (w w' : Windows) : Prop where
  hWin : w'.hWin = w.hWin
  warmupWin : w'.warmupWin = w.warmupWin
  shiftWin : w'.shiftWin = w.shiftWin
  plocalWin : w'.plocalWin = w.plocalWin
  offsetWin : w'.offsetWin = w.offsetWin

/-- What a call without an update does to a state, as far as the configuration is concerned: it
leaves the thresholds `t`. -/
structure Retunes (s s' : AlgoState D) (t : Thresholds D) : Prop where
  poll : s'.poll.pollPeriod = s.poll.pollPeriod
  lengths : SameLengths s.win s'.win
  thres : s'.thres = t

variable {mp : Metaparam D} {s s' : AlgoState D} {conf : Config D} {c : Tuning D} {A n : Nat}

omit [Arith D] in
theorem SameLengths.refl (w : Windows) : SameLengths w w := ⟨rfl, rfl, rfl, rfl, rfl⟩

omit [Arith D] in
theorem SameLengths.trans {w w' w'' : Windows} (h : SameLengths w w') (h' : SameLengths w' w'') :
    SameLengths w w'' where
  hWin := h'.hWin.trans h.hWin
  warmupWin := h'.warmupWin.trans h.warmupWin
  shiftWin := h'.shiftWin.trans h.shiftWin
  plocalWin := h'.plocalWin.trans h.plocalWin
  offsetWin := h'.offsetWin.trans h.offsetWin

omit [Arith D] in
theorem Retunes.refl (s : AlgoState D) : Retunes s s s.thres := ⟨rfl, SameLengths.refl _, rfl⟩

theorem HalfPassed.congr {w w' : Windows} (hw : SameLengths w w') :
    HalfPassed A n w' ↔ HalfPassed A n w := by
  unfold HalfPassed
  rw [hw.hWin, hw.warmupWin]

theorem SameLengths.neededWarmup_eq {w w' : Windows} (hw : SameLengths w w') :
    neededWarmup w' = neededWarmup w := by
  unfold neededWarmup plocalSpan
  rw [hw.offsetWin, hw.shiftWin, hw.plocalWin]

theorem WindowsOf.congr {w w' : Windows} (h : WindowsOf c A w) (hw : SameLengths w w') :
    WindowsOf c A w' := by
  refine ⟨hw.shiftWin.trans h.shift, hw.offsetWin.trans h.offset, hw.plocalWin.trans h.plocal,
    ?_, ?_⟩
  · rw [hw.warmupWin, hw.neededWarmup_eq]
    exact h.warmup
  · have hadj : adjustedHWin { w' with hWin := baseHWin c.pollPeriod } =
        adjustedHWin { w with hWin := baseHWin c.pollPeriod } := by
      unfold adjustedHWin
      dsimp only
      rw [hw.warmupWin, hw.shiftWin]
    rw [hw.hWin, hadj, hw.warmupWin]
    exact h.hWin

/-- A call that leaves the thresholds alone, at a stamp that does not pass the half window. -/
theorem TunedBy.same (h : TunedBy c A n s) (hr : Retunes s s' s.thres) {m : Nat} (hm : n ≤ m)
    (hhalf : HalfPassed A m s.win ↔ HalfPassed A n s.win) : TunedBy c A m s' := by
  obtain ⟨far, hfar, hthres⟩ := h.thresholds
  refine ⟨hr.poll.trans h.poll, h.windows.congr hr.lengths, far, fun hf => ?_, ?_⟩
  · rw [hr.lengths.warmupWin]
    exact ⟨(hfar hf).1, (hfar hf).2.trans hm⟩
  · rw [hr.thres, hthres, decide_eq_decide.mpr ((HalfPassed.congr hr.lengths).trans hhalf)]

/-- The stamp at the half window. -/
theorem TunedBy.half (h : TunedBy c A n s) (hr : Retunes s s' s.thres.atHalf)
    (hno : ¬ HalfPassed A n s.win) (hyes : HalfPassed A (n + 1) s.win) :
    TunedBy c A (n + 1) s' := by
  obtain ⟨far, hfar, hthres⟩ := h.thresholds
  rw [decide_eq_false hno] at hthres
  refine ⟨hr.poll.trans h.poll, h.windows.congr hr.lengths, far, fun hf => ?_, ?_⟩
  · rw [hr.lengths.warmupWin]
    exact ⟨(hfar hf).1, (hfar hf).2.trans (Nat.le_succ n)⟩
  · rw [hr.thres, hthres, decide_eq_true ((HalfPassed.congr hr.lengths).mpr hyes)]
    rfl

/-- Where the upshift threshold is not touched: everywhere but in the calibration. -/
theorem processRTTFull_thres (RTT : VCounter) (s : AlgoState D) :
    Returns (processRTTFull RTT s) (fun s' =>
      s'.rtt.RTThatShiftThres = s.rtt.RTThatShiftThres) := by
  refine Returns.bind (updateRTTShift_frame RTT (updateRTTMinima RTT s)) ?_
  rintro s1 ⟨v, e, rfl⟩
  refine (detectUpshift_frame _).mono ?_
  rintro s2 ⟨hat, next, perr, nhat, h, stt, rfl⟩
  rfl

/-- The thresholds that a stamp of the full phase leaves. -/
def halfThres (s : AlgoState D) : Thresholds D :=
  if s.si = s.win.hWin / 2 then s.thres.atHalf else s.thres

/-- The half window tightens the quality of phat. -/
theorem manageHistorywin_retunes (st : BidirStamp D) (RTT : VCounter) :
    Returns (manageHistorywin st RTT s) (fun s' => Retunes s s' (halfThres s) ∧
      s'.rtt.RTThatShiftThres = s.rtt.RTThatShiftThres) := by
  refine (manageHistorywin_cases _ _ _).mono ?_
  rintro s' ⟨s1, hs1, hcase⟩
  have h1 : Retunes s s1 (halfThres s) ∧ s1.rtt.RTThatShiftThres = s.rtt.RTThatShiftThres := by
    rw [hs1]
    unfold halfThres
    split
    · exact ⟨⟨rfl, ⟨rfl, rfl, rfl, rfl, rfl⟩, rfl⟩, rfl⟩
    · exact ⟨Retunes.refl s, rfl⟩
  rcases hcase with ⟨-, Df, Db, rfl⟩ | ⟨-, rfl⟩
  · obtain ⟨h1, hthres⟩ := h1
    exact ⟨⟨h1.poll, h1.lengths.trans ⟨rfl, rfl, rfl, rfl, rfl⟩, h1.thres⟩, hthres⟩
  · exact h1

theorem fullPhase_retunes (inp : Input D) : Returns (fullPhase mp inp s) (fun s' =>
    Retunes s s' (halfThres s) ∧ s'.rtt.RTThatShiftThres = s.rtt.RTThatShiftThres) := by
  refine Returns.bind (manageHistorywin_retunes _ _) ?_
  rintro s1 ⟨h1, hthres1⟩
  refine Returns.bind ((processRTTFull_frame _ _).and (processRTTFull_thres _ _)) ?_
  rintro s2 ⟨⟨rtt, e, perr, nhat, h', stt, rfl⟩, hthres2⟩
  refine Returns.bind (processOWDAsymFull_frame _ _) ?_
  rintro s3 ⟨owd, e', Dfhat, Dbhat, Asymhat, rfl⟩
  -- no algorithm of the full phase writes a threshold; only the window ends move
  refine Returns.bind (Q := fun s4 => s4.win = { s1.win with shiftEnd := e, shiftEndOWD := e' } ∧
    s4.rtt = rtt ∧ s4.poll = s1.poll ∧ s4.thres = s1.thres)
    ((updateNextPstamp_cases _ _ _).mono ?_) ?_
  · rintro s4 ⟨c, rfl | ⟨-, -, perr', nhat', rfl⟩⟩
    · exact ⟨rfl, rfl, rfl, rfl⟩
    · exact ⟨rfl, rfl, rfl, rfl⟩
  rintro s4 ⟨hw4, hr4, hp4, ht4⟩
  refine Returns.bind (processPhatFull_frame _ _ _ _) ?_
  rintro s5 ⟨K, phat, perr', c, stt', rfl⟩
  refine Returns.bind (processPlocalFull_frame _ _) ?_
  rintro s6 ⟨en, ends, ploc, out, stt', rfl⟩
  refine Returns.bind (processThetahatFull_frame _ _ _ _ _) ?_
  rintro s7 ⟨t, off, err, stt', out', rfl, -⟩
  refine (updatePathpenaltyFull_frame _ _ _).mono ?_
  rintro s8 ⟨pen, out', rfl⟩
  -- and of the windows it keeps every length
  have hlen : SameLengths s1.win { s4.win with plocalEnd := en } := by
    rw [hw4]
    exact ⟨rfl, rfl, rfl, rfl, rfl⟩
  refine ⟨⟨?_, h1.lengths.trans hlen, ?_⟩, ?_⟩
  · show s4.poll.pollPeriod = _
    rw [hp4]
    exact h1.poll
  · show s4.thres = _
    rw [ht4]
    exact h1.thres
  · show s4.rtt.RTThatShiftThres = _
    rw [hr4]
    exact hthres2.trans hthres1

/-- The last statements of a call. -/
theorem finish_retunes (st : BidirStamp D) :
    Returns (do
      let s ← updateErrors mp st (copyStamp st s)
      pure (fillOutput st.RTT s)) (fun s' => Retunes s s' s.thres ∧ s'.stampI = s.stampI ∧
        s'.output.nStamps = 1 + s.stampI) := by
  obtain ⟨stats, hcopy⟩ := copyStamp_frame st s
  rw [hcopy]
  refine Returns.bind (updateErrors_frame _ _ _) ?_
  rintro s1 ⟨err, rfl⟩
  exact Returns.pure ⟨⟨rfl, SameLengths.refl _, rfl⟩, rfl, rfl⟩

end RADclock
