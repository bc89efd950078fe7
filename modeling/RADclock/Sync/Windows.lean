import RADclock.Sync.PathLookups

/-!
# The windows, and what a configuration change does to them

- `WinOk`: bounds that hold of the windows at all times, by the clamps of
  `set_algo_windows`.
- `WarmWin`: during warmup, the warmup window covers every other window and fits with the
  shift window in half the history window (`adjust_warmup_win`).
- `updateState_cases`: a configuration change, in full: new thresholds and windows, then
  either a new warmup window or a restarted shift window, then new history sizes.
-/

namespace RADclock

open Lib Lib.Exec

variable {D : Type} [Arith D]

/-- Lower bounds on the windows. -/
structure WinOk (w : Windows) : Prop where
  offset : 2 ≤ w.offsetWin
  plocal : w.plocalWin = max (w.offsetWin * 5) 4
  shift : 100 ≤ w.shiftWin

theorem WinOk.ten_le_plocal {w : Windows} (h : WinOk w) : 10 ≤ w.plocalWin := by
  have h1 := h.offset
  have h2 := h.plocal
  omega

/-- The warmup window serves all others. -/
structure WarmWin (w : Windows) : Prop extends WinOk w where
  hundred : 100 ≤ w.warmupWin
  offset_le : w.offsetWin ≤ w.warmupWin
  shift_le : w.shiftWin ≤ w.warmupWin
  span_le : plocalSpan w ≤ w.warmupWin
  half : w.warmupWin + w.shiftWin ≤ w.hWin / 2

/-- The local period algorithm looks back less than a warmup window. -/
theorem WarmWin.reach_lt {w : Windows} (h : WarmWin w) :
    plocalReach w.plocalWin < w.warmupWin := by
  have h1 := h.span_le
  have h2 := h.hundred
  have h3 := h.ten_le_plocal
  unfold plocalSpan plocalWinratio at h1
  unfold plocalReach fullWwidth plocalWinratio
  omega

/-- The same windows, up to the left ends that move with every stamp. -/
structure SameWin (w w' : Windows) : Prop where
  hWin : w'.hWin = w.hWin
  historyEnd : w'.historyEnd = w.historyEnd
  warmupWin : w'.warmupWin = w.warmupWin
  shiftWin : w'.shiftWin = w.shiftWin
  plocalWin : w'.plocalWin = w.plocalWin
  offsetWin : w'.offsetWin = w.offsetWin
  jsearchWin : w'.jsearchWin = w.jsearchWin

theorem SameWin.trans {w w' w'' : Windows} (h : SameWin w w') (h' : SameWin w' w'') :
    SameWin w w'' where
  hWin := h'.hWin.trans h.hWin
  historyEnd := h'.historyEnd.trans h.historyEnd
  warmupWin := h'.warmupWin.trans h.warmupWin
  shiftWin := h'.shiftWin.trans h.shiftWin
  plocalWin := h'.plocalWin.trans h.plocalWin
  offsetWin := h'.offsetWin.trans h.offsetWin
  jsearchWin := h'.jsearchWin.trans h.jsearchWin

/-- The windows as `set_algo_windows` leaves them. -/
def newWindows (mp : Metaparam D) (pollPeriod : Nat) (w : Windows) : Windows :=
  { w with
    hWin := baseHWin pollPeriod
    shiftWin := baseShiftWin mp pollPeriod
    offsetWin := baseOffsetWin mp pollPeriod
    plocalWin := basePlocalWin mp pollPeriod }

theorem newWindows_ok (mp : Metaparam D) (pollPeriod : Nat) (w : Windows) :
    WinOk (newWindows mp pollPeriod w) where
  offset := Nat.le_max_right _ _
  plocal := rfl
  shift := Nat.le_max_right _ _

/-- The windows as `adjust_warmup_win` leaves them, for stamp `i`. -/
def warmWindows (i pollPeriod : Nat) (w : Windows) : Windows :=
  { w with
    warmupWin := adjustedWarmup i pollPeriod w
    hWin := adjustedHWin { w with warmupWin := adjustedWarmup i pollPeriod w } }

/-- The warmup window that serves a set of windows, without regard to the stamp index. -/
def neededWarmup (w : Windows) : Nat := max w.offsetWin (max w.shiftWin (plocalSpan w))

theorem adjustedWarmup_zero (pollPeriod : Nat) (w : Windows) :
    adjustedWarmup 0 pollPeriod w = max w.warmupWin (neededWarmup w) := by
  unfold adjustedWarmup neededWarmup
  dsimp only
  rw [if_pos rfl]
  split <;> omega

/-- Later on an entire new warmup is added. -/
theorem adjustedWarmup_pos {i pollPeriod : Nat} (hi : i ≠ 0) (hp : 1 ≤ pollPeriod) (w : Windows) :
    adjustedWarmup i pollPeriod w = neededWarmup w + i := by
  unfold adjustedWarmup neededWarmup
  dsimp only
  rw [if_neg hi, Nat.add_sub_assoc hp, Nat.mul_comm, Nat.mul_add_div (by omega),
    Nat.div_eq_of_lt (by omega), Nat.add_zero]

theorem adjustedHWin_half (w : Windows) : w.warmupWin + w.shiftWin ≤ adjustedHWin w / 2 := by
  unfold adjustedHWin
  split <;> omega

/-- After an adjustment the warmup window serves all others. -/
theorem warmWindows_ok {i pollPeriod : Nat} (hp : 1 ≤ pollPeriod) {w : Windows} (hw : WinOk w)
    (h100 : i = 0 → 100 ≤ w.warmupWin) : WarmWin (warmWindows i pollPeriod w) := by
  have hneed : neededWarmup w ≤ adjustedWarmup i pollPeriod w := by
    by_cases hi : i = 0
    · subst hi
      rw [adjustedWarmup_zero]
      exact Nat.le_max_right _ _
    · rw [adjustedWarmup_pos hi hp]
      exact Nat.le_add_right _ _
  have hshift := hw.shift
  unfold neededWarmup at hneed
  refine { toWinOk := ⟨hw.offset, hw.plocal, hw.shift⟩, hundred := ?_, offset_le := ?_,
           shift_le := ?_, span_le := ?_,
           half := adjustedHWin_half { w with warmupWin := adjustedWarmup i pollPeriod w } }
  · show 100 ≤ adjustedWarmup i pollPeriod w
    omega
  · show w.offsetWin ≤ adjustedWarmup i pollPeriod w
    omega
  · show w.shiftWin ≤ adjustedWarmup i pollPeriod w
    omega
  · show plocalSpan w ≤ adjustedWarmup i pollPeriod w
    omega

/-- An adjustment for stamp `i > 0` leaves a full warmup to serve. -/
theorem lt_adjustedWarmup {i pollPeriod : Nat} (hi : i ≠ 0) (hp : 1 ≤ pollPeriod) {w : Windows}
    (hw : WinOk w) : i + 1 < adjustedWarmup i pollPeriod w := by
  have hshift := hw.shift
  rw [adjustedWarmup_pos hi hp]
  unfold neededWarmup
  omega

/-- The windows the first stamp sets up. -/
def firstWindows (mp : Metaparam D) (pollPeriod : Nat) : Windows :=
  warmWindows 0 pollPeriod
    { newWindows mp pollPeriod ⟨0, 0, 0, 0, 0, 0, 0, 0, 0, 0⟩ with warmupWin := 100 }

/-! ## `update_state` -/

theorem recordPollChange_frame (pp : Nat) (s : AlgoState D) :
    ∃ poll, poll.pollPeriod = pp ∧ recordPollChange pp s = { s with poll := poll } := by
  unfold recordPollChange
  split
  · next h => exact ⟨s.poll, h.symm, rfl⟩
  · exact ⟨_, rfl, rfl⟩

/-- New thresholds and windows, before anything is adjusted to them. -/
theorem newParams_frame (mp : Metaparam D) (pp : Nat) (s : AlgoState D) :
    ∃ poll, poll.pollPeriod = pp ∧
      setAlgoWindows mp (recordPollChange pp (setErrThresholds mp s)) =
        { s with
          poll := poll
          thres := (setErrThresholds mp s).thres
          win := newWindows mp pp s.win } := by
  obtain ⟨poll, hpp, hpoll⟩ := recordPollChange_frame pp (setErrThresholds mp s)
  refine ⟨poll, hpp, ?_⟩
  rw [hpoll, ← hpp]
  rfl

theorem updateState_cases (mp : Metaparam D) (pp : Nat) (s : AlgoState D) :
    Returns (updateState mp pp s) fun s' => ∃ poll, poll.pollPeriod = pp ∧
      (s.si < s.win.warmupWin ∧ s' = resizeAll
          { s with
            poll := poll
            thres := (setErrThresholds mp s).thres
            win := warmWindows s.si pp (newWindows mp pp s.win) } ∨
        s.win.warmupWin ≤ s.si ∧ ∃ v e, s' = resizeAll
          { s with
            poll := poll
            thres := (setErrThresholds mp s).thres
            win := { newWindows mp pp s.win with shiftEnd := e }
            rtt := { s.rtt with RTThatShift := v } }) := by
  obtain ⟨poll, hpp, hset⟩ := newParams_frame mp pp s
  unfold updateState
  rw [hset]
  refine Returns.bind (Q := fun s1 =>
      s.si < s.win.warmupWin ∧ s1 =
          { s with
            poll := poll
            thres := (setErrThresholds mp s).thres
            win := warmWindows s.si pp (newWindows mp pp s.win) } ∨
        s.win.warmupWin ≤ s.si ∧ ∃ v e, s1 =
          { s with
            poll := poll
            thres := (setErrThresholds mp s).thres
            win := { newWindows mp pp s.win with shiftEnd := e }
            rtt := { s.rtt with RTThatShift := v } }) ?_ ?_
  · refine Returns.ite (fun hlt => Returns.pure (Or.inl ⟨hlt, ?_⟩)) fun hge => ?_
    · unfold adjustWarmupWin warmWindows
      rw [← hpp]
      rfl
    · refine (restartShift_frame _).mono ?_
      rintro s1 ⟨v, rfl⟩
      exact Or.inr ⟨Nat.not_lt.mp hge, v, _, rfl⟩
  · rintro s1 (⟨hlt, rfl⟩ | ⟨hge, v, e, rfl⟩)
    · exact Returns.pure ⟨poll, hpp, Or.inl ⟨hlt, rfl⟩⟩
    · exact Returns.pure ⟨poll, hpp, Or.inr ⟨hge, v, e, rfl⟩⟩

/-- The first stamp: windows from the configuration, histories of the size of the warmup
window. -/
theorem firstStamp_eq (conf : Config D) (s : AlgoState D) :
    firstStamp conf s =
      { s with
        thres := (setErrThresholds conf.metaparam s).thres
        poll := { s.poll with pollPeriod := conf.pollPeriod, pollRatio := 1.0 }
        win := warmWindows 0 conf.pollPeriod
          { newWindows conf.metaparam conf.pollPeriod s.win with warmupWin := 100 }
        hist := initHists (histSz (adjustedWarmup 0 conf.pollPeriod
          { newWindows conf.metaparam conf.pollPeriod s.win with warmupWin := 100 })) } := rfl

end RADclock
