import RADclock.Sync.Transitions

/-!
# The transition of the offset window

After a change of the polling period, the offset window is adjusted over as many stamps as the old
window had. Every stamp takes one off what is left to serve.
-/

namespace RADclock

open Lib Lib.Exec

variable {D : Type} [Arith D] {mp : Metaparam D} {s : AlgoState D}

theorem processThetahatWarmup_poll (st : BidirStamp D) (s : AlgoState D) :
    Returns (processThetahatWarmup mp st s) fun s' => s'.poll = (stepTransition s).poll := by
  refine Returns.skip fun a => Returns.skip fun e => Returns.skip fun d =>
    Returns.skip fun best => ?_
  obtain ⟨off, bound, stt, heq, -⟩ := judgeWarmup_frame st a e
    ((stepTransition (recordTheta (naiveTheta s st) s)).osc.phat * vcD d)
    (stepTransition (recordTheta (naiveTheta s st) s))
  refine Returns.pure ?_
  rw [heq]
  rfl

theorem warmupAlgos_poll (st : BidirStamp D) (s : AlgoState D) :
    Returns (warmupAlgos mp st s) fun s' => s'.poll = (stepTransition s).poll := by
  rw [warmupAlgos_eq]
  refine Returns.bind (beforeTheta_frame _ _) ?_
  rintro s1 ⟨i, owd, Df, Db, ends, K, phat, perr, rfl⟩
  refine Returns.bind (processThetahatWarmup_poll st _) fun s2 h2 => ?_
  obtain ⟨out, stt, hfin⟩ := finishWarmup_frame mp s2
  refine Returns.pure ?_
  rw [hfin]
  exact h2

/-- The poll transition and the offset window are left alone. -/
structure SamePoll (s s' : AlgoState D) : Prop where
  idx : s'.stampI = s.stampI
  poll : s'.poll = s.poll
  offsetWin : s'.win.offsetWin = s.win.offsetWin

omit [Arith D] in
theorem SamePoll.trans {s' s'' : AlgoState D} (h : SamePoll s s') (h' : SamePoll s' s'') :
    SamePoll s s'' where
  idx := h'.idx.trans h.idx
  poll := h'.poll.trans h.poll
  offsetWin := h'.offsetWin.trans h.offsetWin

/-- What is left to serve decides about the window, with nothing else of the state but the two. -/
theorem SamePoll.thetaWin {s' : AlgoState D} (h : SamePoll s s') : thetaWin s' = thetaWin s := by
  unfold RADclock.thetaWin
  rw [h.poll, h.offsetWin]

/-! ## A change of the configuration -/

theorem recordPollChange_pollPeriod (pp : Nat) (s : AlgoState D) :
    (recordPollChange pp s).poll.pollPeriod = pp := by
  obtain ⟨poll, hpp, heq⟩ := recordPollChange_frame pp s
  rw [heq, hpp]

theorem updateState_poll (pp : Nat) (s : AlgoState D) :
    Returns (updateState mp pp s) fun s' => s'.stampI = s.stampI ∧
      s'.poll = (recordPollChange pp s).poll ∧ s'.win.offsetWin = baseOffsetWin mp pp := by
  obtain ⟨hpoll, hidx⟩ : (recordPollChange pp (setErrThresholds mp s)).poll =
      (recordPollChange pp s).poll ∧
      (recordPollChange pp (setErrThresholds mp s)).stampI = s.stampI := by
    unfold recordPollChange
    by_cases h : pp = s.poll.pollPeriod
    · rw [if_pos h, if_pos (show pp = (setErrThresholds mp s).poll.pollPeriod from h)]
      exact ⟨rfl, rfl⟩
    · rw [if_neg h, if_neg (show pp ≠ (setErrThresholds mp s).poll.pollPeriod from h)]
      exact ⟨rfl, rfl⟩
  have hwin : (setAlgoWindows mp (recordPollChange pp (setErrThresholds mp s))).win.offsetWin =
      baseOffsetWin mp pp :=
    congrArg (baseOffsetWin mp) (recordPollChange_pollPeriod pp _)
  refine Returns.bind (Q := SamePoll
    (setAlgoWindows mp (recordPollChange pp (setErrThresholds mp s)))) ?_ fun s1 h1 => ?_
  · refine Returns.ite (fun _ => Returns.pure ⟨rfl, rfl, rfl⟩) fun _ => ?_
    refine (restartShift_frame _).mono ?_
    rintro s1 ⟨v, rfl⟩
    exact ⟨rfl, rfl, rfl⟩
  · refine Returns.pure ⟨h1.idx.trans hidx, h1.poll.trans hpoll, ?_⟩
    exact h1.offsetWin.trans hwin

/-! ## Up to the search for the offset, and from there on -/

theorem beforeTheta_samePoll (st : BidirStamp D) (s : AlgoState D) :
    Returns (beforeTheta st s) (SamePoll s) := by
  refine (beforeTheta_frame _ _).mono ?_
  rintro s1 ⟨i, owd, Df, Db, ends, K, phat, perr, rfl⟩
  exact ⟨rfl, rfl, rfl⟩

theorem manageHistorywin_samePoll (st : BidirStamp D) (RTT : VCounter) :
    Returns (manageHistorywin st RTT s) (SamePoll s) := by
  refine (manageHistorywin_cases _ _ _).mono ?_
  rintro s' ⟨s1, hs1, hcase⟩
  have h1 : SamePoll s s1 := by
    rw [hs1]
    split <;> exact ⟨rfl, rfl, rfl⟩
  rcases hcase with ⟨-, Df, Db, rfl⟩ | ⟨-, rfl⟩
  · exact h1.trans ⟨rfl, rfl, rfl⟩
  · exact h1

theorem toPlocal_samePoll (inp : Input D) (s : AlgoState D) :
    Returns (toPlocal inp s) (SamePoll s) := by
  refine Returns.bind (Q := SamePoll s) ?_ fun s1 h1 => ?_
  · refine Returns.bind (manageHistorywin_samePoll _ _) fun s1 h1 => ?_
    refine (updateRTTShift_frame _ _).mono ?_
    rintro s2 ⟨v, e, rfl⟩
    exact h1.trans ⟨rfl, rfl, rfl⟩
  refine Returns.bind (detectUpshift_frame _) ?_
  rintro s2 ⟨hat, next, perr, nhat, h, stt, rfl⟩
  refine Returns.bind (processOWDAsymFull_frame _ _) ?_
  rintro s3 ⟨owd, e, Dfhat, Dbhat, Asymhat, rfl⟩
  refine Returns.bind (updateNextPstamp_cases _ _ _) ?_
  rintro s4 ⟨c, hs4⟩
  refine (processPhatFull_frame _ _ _ _).mono ?_
  rintro s5 ⟨K, phat, perr', n, stt', rfl⟩
  rcases hs4 with rfl | ⟨-, -, perr'', nhat', rfl⟩
  · exact h1.trans ⟨rfl, rfl, rfl⟩
  · exact h1.trans ⟨rfl, rfl, rfl⟩

theorem processPlocalFull_samePoll (q : Bool) (s : AlgoState D) :
    Returns (processPlocalFull q s) (SamePoll s) := by
  refine (processPlocalFull_frame _ _).mono ?_
  rintro s1 ⟨e, ends, ploc, out, stt, rfl⟩
  exact ⟨rfl, rfl, rfl⟩

theorem processThetahatFull_poll (st : BidirStamp D) (q : Bool) (E : D) (s : AlgoState D) :
    Returns (processThetahatFull mp st q E s) (SamePoll (stepTransition s)) := by
  refine Returns.skip fun d0 => Returns.skip fun a => Returns.skip fun e =>
    Returns.skip fun d => Returns.skip fun best => Returns.pure ?_
  obtain ⟨n, stt, hqual⟩ := judgeQuality_frame a
    (stepTransition (recordTheta (naiveTheta s st) s))
  rw [hqual]
  obtain ⟨off, bound, stt', hsan, -⟩ := judgeSanity_frame st a
    (candidateTheta a (stepTransition (recordTheta (naiveTheta s st) s))) e
    (Arith.cmax a.gapsize ((stepTransition (recordTheta (naiveTheta s st) s)).osc.phat * vcD d)) q
    { stepTransition (recordTheta (naiveTheta s st) s) with
      off := { (stepTransition (recordTheta (naiveTheta s st) s)).off with offsetQualityCount := n }
      status := stt }
  rw [hsan]
  exact ⟨rfl, rfl, rfl⟩

theorem initFull_samePoll (st : BidirStamp D) (s : AlgoState D) :
    Returns (initFull st s) (SamePoll s) := by
  refine Returns.bind (initRTTOWDAsymFull_frame _) ?_
  rintro s1 ⟨r, f, b, rfl⟩
  refine Returns.bind (initPhatFull_frame _) ?_
  rintro s2 ⟨ps, perr, rfl⟩
  refine Returns.bind (initPlocalFull_frame _) ?_
  rintro s3 ⟨e, ends, ploc, rfl⟩
  exact Returns.pure ⟨rfl, rfl, rfl⟩

/-! ## One call -/

/-- A stamp of warmup or of the full phase takes one off. -/
theorem phases_poll (conf : Config D) (inp : Input D) (hidx : s.stampI ≠ 0) :
    Returns (phases conf inp s) (SamePoll (stepTransition s)) := by
  have hstep : ∀ s1, SamePoll s s1 → SamePoll (stepTransition s) (stepTransition s1) := by
    intro s1 h1
    refine ⟨h1.idx, ?_, h1.offsetWin⟩
    show { s1.poll with pollTransitionTh := s1.poll.pollTransitionTh - 1 } = _
    rw [h1.poll]
    rfl
  unfold phases
  rw [if_neg hidx]
  refine Returns.ite (fun _ => ?_) fun _ => ?_
  · unfold warmupPhase
    rw [warmupAlgos_eq]
    simp only [bind_assoc]
    refine Returns.bind (beforeTheta_samePoll _ _) fun s1 h1 => ?_
    refine Returns.bind ((processThetahatWarmup_poll _ _).and
      (processThetahatWarmup_frame _ _ _)) ?_
    rintro s2 ⟨hpoll, t, off, bound, stt, out, heq, -⟩
    have h2 : SamePoll (stepTransition s1) s2 :=
      ⟨by rw [heq]; rfl, hpoll, by rw [heq]; rfl⟩
    obtain ⟨out', stt', hfin⟩ := finishWarmup_frame conf.metaparam s2
    rw [pure_bind, hfin]
    have h3 : SamePoll (stepTransition s) { s2 with output := out', status := stt' } :=
      ((hstep s1 h1).trans h2).trans ⟨rfl, rfl, rfl⟩
    refine Returns.ite (fun _ => ?_) fun _ => Returns.pure h3
    exact (initFull_samePoll _ _).mono fun s4 h4 => h3.trans h4
  · rw [fullPhase_eq]
    refine Returns.bind (toPlocal_samePoll _ _) fun s1 h1 => ?_
    refine Returns.bind (processPlocalFull_samePoll _ _) fun s2 h2 => ?_
    refine Returns.bind (processThetahatFull_poll _ _ _ _) fun s3 h3 => ?_
    refine (updatePathpenaltyFull_frame _ _ _).mono ?_
    rintro s4 ⟨pen, out, rfl⟩
    exact ((hstep s2 (h1.trans h2)).trans h3).trans ⟨rfl, rfl, rfl⟩

theorem endCall_samePoll (st : BidirStamp D) (s : AlgoState D) :
    Returns (endCall mp st s) (SamePoll s) := by
  obtain ⟨stats, hcopy⟩ := copyStamp_frame st s
  unfold endCall
  rw [hcopy]
  refine Returns.bind (updateErrors_frame _ _ _) ?_
  rintro s1 ⟨err, rfl⟩
  exact Returns.pure ⟨rfl, rfl, rfl⟩

end RADclock
