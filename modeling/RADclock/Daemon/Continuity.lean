import RADclock.Daemon.RecordedBound
import RADclock.Sync.Divisors
import RADclock.Sync.Errors

/-!
# Continuity of the clock

The clock of a state is the line `phat * T + K`. The two algorithms that move it, in warmup and in
the full phase, turn it about the `Ta` of the last stamp; all others leave `phat` and `K` alone.
What the offset algorithm of the full phase adds there is bounded by its sanity check.

- `uncorrected`, `absolute`: the clocks of a state, at a counter value.
- `SameClock`: what the sub-algorithms of the path do.
- `Pivots`: what any sub-algorithm does to the uncorrected clock, in exact arithmetic.
- `clock_continuous`: over all runs.
-/

namespace RADclock

open Lib Lib.Exec Lib.Arith

/-! ## Clocks -/

section Clocks

variable {D : Type} [Arith D] {s : AlgoState D}

/-- `C(T) = phat * T + K`. -/
def uncorrected (s : AlgoState D) (T : VCounter) : D := s.osc.phat * vcD T + s.off.K

/-- The uncorrected clock less the offset estimate. -/
def absolute (s : AlgoState D) (T : VCounter) : D := uncorrected s T - s.off.thetahat

/-- The clock parameters and what judges their updates are left alone. -/
structure SameClock (s s' : AlgoState D) : Prop where
  stamp : s'.stamp = s.stamp
  phat : s'.osc.phat = s.osc.phat
  plocal : s'.ploc.plocal = s.ploc.plocal
  off : s'.off = s.off
  EpSanity : s'.thres.EpSanity = s.thres.EpSanity
  sanityMin : s'.thres.EoffsetSanityMin = s.thres.EoffsetSanityMin
  sanityRate : s'.thres.EoffsetSanityRate = s.thres.EoffsetSanityRate

omit [Arith D] in
/-- Unchanged by both, unchanged by the two together. -/
theorem SameClock.trans {s' s'' : AlgoState D} (h : SameClock s s') (h' : SameClock s' s'') :
    SameClock s s'' where
  stamp := h'.stamp.trans h.stamp
  phat := h'.phat.trans h.phat
  plocal := h'.plocal.trans h.plocal
  off := h'.off.trans h.off
  EpSanity := h'.EpSanity.trans h.EpSanity
  sanityMin := h'.sanityMin.trans h.sanityMin
  sanityRate := h'.sanityRate.trans h.sanityRate

/-- The history window does not touch the clock. -/
theorem manageHistorywin_clock (st : BidirStamp D) (RTT : VCounter) (s : AlgoState D) :
    Returns (manageHistorywin st RTT s) (SameClock s) := by
  refine (manageHistorywin_cases _ _ _).mono ?_
  rintro s' ⟨s1, hs1, hcase⟩
  have h1 : SameClock s s1 := by
    rw [hs1]
    split <;> exact ⟨rfl, rfl, rfl, rfl, rfl, rfl, rfl⟩
  rcases hcase with ⟨-, Df, Db, rfl⟩ | ⟨-, rfl⟩
  · exact h1.trans ⟨rfl, rfl, rfl, rfl, rfl, rfl, rfl⟩
  · exact h1

/-- Nothing before `process_phat_full` has a part in it. -/
theorem toPhat_clock (inp : Input D) (s : AlgoState D) :
    Returns (toPhat inp s) (SameClock s) := by
  refine Returns.bind (Q := SameClock s) ?_ fun s1 h1 => ?_
  · refine Returns.bind (manageHistorywin_clock _ _ _) fun s1 h1 => ?_
    refine (updateRTTShift_frame _ _).mono ?_
    rintro s2 ⟨v, e, rfl⟩
    exact h1.trans ⟨rfl, rfl, rfl, rfl, rfl, rfl, rfl⟩
  · refine Returns.bind (detectUpshift_frame _) ?_
    rintro s2 ⟨hat, next, perr, nhat, h, stt, rfl⟩
    refine Returns.bind (processOWDAsymFull_frame _ _) ?_
    rintro s3 ⟨owd, e, Dfhat, Dbhat, Asymhat, rfl⟩
    refine (updateNextPstamp_cases _ _ _).mono ?_
    rintro s4 ⟨c, rfl | ⟨-, -, perr, nhat, rfl⟩⟩ <;>
      exact h1.trans ⟨rfl, rfl, rfl, rfl, rfl, rfl, rfl⟩

/-- Nor does the start of the full phase, or its thresholds. -/
theorem initFull_clock (st : BidirStamp D) (s : AlgoState D) :
    Returns (initFull st s) fun s' => s'.stamp = s.stamp ∧ s'.osc.phat = s.osc.phat ∧
      s'.ploc.plocal = s.ploc.plocal ∧ s'.off.K = s.off.K ∧
        s'.thres.EpSanity = s.thres.EpSanity ∧
          s'.thres.EoffsetSanityMin = s.thres.EoffsetSanityMin ∧
            s'.thres.EoffsetSanityRate = s.thres.EoffsetSanityRate := by
  refine Returns.bind (initRTTOWDAsymFull_frame _) ?_
  rintro s1 ⟨r, f, b, rfl⟩
  refine Returns.bind (initPhatFull_frame _) ?_
  rintro s2 ⟨ps, perr, rfl⟩
  refine Returns.bind ((initPlocalFull_plocal _).and (initPlocalFull_frame _)) ?_
  rintro s3 ⟨hplocal, e, ends, ploc, rfl⟩
  exact Returns.pure ⟨rfl, rfl, hplocal, rfl, rfl, rfl, rfl⟩

/-- The judgement of an offset leaves the uncorrected clock. -/
theorem judgeWarmup_K (st : BidirStamp D) (a : ThetaAcc D) (e g : D) (s : AlgoState D) :
    (judgeWarmup st a e g s).off.K = s.off.K := by
  unfold judgeWarmup
  split
  · dsimp only
    split <;> split <;> rfl
  · rfl

/-- The quality test leaves the clock. -/
theorem judgeQuality_off (a : ThetaAcc D) (s : AlgoState D) :
    (judgeQuality a s).off.K = s.off.K ∧ (judgeQuality a s).off.thetahat = s.off.thetahat ∧
      (judgeQuality a s).off.thetastamp = s.off.thetastamp ∧ (judgeQuality a s).osc = s.osc ∧
        (judgeQuality a s).thres = s.thres := by
  unfold judgeQuality
  split <;> exact ⟨rfl, rfl, rfl, rfl, rfl⟩

/-- The candidate is adopted as it is, or refused. -/
theorem judgeSanity_off (st : BidirStamp D) (a : ThetaAcc D) (th e g : D) (q : Bool)
    (s : AlgoState D) : (judgeSanity st a th e g q s).off.K = s.off.K ∧
      ((judgeSanity st a th e g q s).off.thetahat = s.off.thetahat ∨ q = false ∧
        ¬ s.thres.EoffsetSanityMin + s.thres.EoffsetSanityRate * g < fabs (s.off.thetahat - th) ∧
          (judgeSanity st a th e g q s).off.thetahat = th) := by
  unfold judgeSanity
  split
  · exact ⟨rfl, Or.inl rfl⟩
  · next hno =>
    obtain ⟨hsane, hq⟩ := not_or.mp hno
    dsimp only
    split <;> exact ⟨rfl, Or.inr ⟨Bool.eq_false_iff.mpr hq, hsane, rfl⟩⟩

/-- `gapsize`, as `process_thetahat_full` has it when the candidate is judged. -/
def thetaGap (mp : Metaparam D) (st : BidirStamp D) (s : AlgoState D) : Algo D D := do
  let a ← fullBest mp st s
  let d ← counterDiff st.Tf s.off.thetastamp.Tf
  pure (cmax a.gapsize (s.osc.phat * vcD d))

/-- Up to `process_thetahat_full`. -/
def toTheta (inp : Input D) (s : AlgoState D) : Algo D (AlgoState D) := do
  let s ← toPlocal inp s
  processPlocalFull inp.qualWarning s

/-- A call of the full phase, cut before the offset. -/
theorem fullPhase_theta (mp : Metaparam D) (inp : Input D) (s : AlgoState D) :
    fullPhase mp inp s = toTheta inp s >>= fun s =>
      processThetahatFull mp inp.stamp inp.qualWarning inp.Ebound s >>=
        updatePathpenaltyFull mp inp.stamp := by
  rw [fullPhase_eq]
  unfold toTheta fromPlocal
  simp only [bind_assoc]

/-- The offset is no part of the uncorrected clock. -/
theorem processThetahatFull_K (mp : Metaparam D) (st : BidirStamp D) (q : Bool) (E : D)
    (s : AlgoState D) : Returns (processThetahatFull mp st q E s) fun s' => s'.off.K = s.off.K :=
  Returns.skip fun _ => Returns.skip fun a => Returns.skip fun e => Returns.skip fun _ =>
    Returns.skip fun _ => Returns.pure
      ((judgeSanity_off st a _ e _ q _).1.trans (judgeQuality_off a _).1)

/-- The sanity check of the full offset algorithm. -/
theorem processThetahatFull_off (mp : Metaparam D) (st : BidirStamp D) (q : Bool) (E : D)
    (s : AlgoState D) : Returns (thetaGap mp st s) fun gap =>
      Returns (processThetahatFull mp st q E s) fun s' => s'.off.K = s.off.K ∧
        (s'.off.thetahat = s.off.thetahat ∨ q = false ∧
          ¬ s.thres.EoffsetSanityMin + s.thres.EoffsetSanityRate * gap <
            fabs (s.off.thetahat - s'.off.thetahat)) := by
  intro gap hgap
  obtain ⟨a, ha, hgap⟩ := bind_res_some.mp hgap
  obtain ⟨d0, hd0, ha⟩ := bind_res_some.mp ha
  obtain ⟨d, hd, hgap⟩ := bind_res_some.mp hgap
  obtain rfl := Option.some.inj hgap
  refine Returns.bind (returns_same hd0) fun d0' hd0' => ?_
  subst hd0'
  refine Returns.bind (returns_same ha) fun a' ha' => Returns.skip fun e => ?_
  subst ha'
  -- the hypothesis runs the same loop, so the gap is the one the sanity test used
  obtain ⟨hK, hth, hts, hosc, hthres⟩ :=
    judgeQuality_off a' (stepTransition (recordTheta (naiveTheta s st) s))
  dsimp only
  rw [hts, hosc]
  refine Returns.bind (returns_same hd) fun d' hd' => Returns.skip fun best => Returns.pure ?_
  subst hd'
  obtain ⟨hK', hcase⟩ := judgeSanity_off st a'
    (candidateTheta a' (stepTransition (recordTheta (naiveTheta s st) s))) e
    (cmax a'.gapsize ((stepTransition (recordTheta (naiveTheta s st) s)).osc.phat * vcD d')) q
    (judgeQuality a' (stepTransition (recordTheta (naiveTheta s st) s)))
  refine ⟨hK'.trans hK, ?_⟩
  rw [hth, hthres] at hcase
  -- the offset is kept, or replaced by one that passed both tests
  rcases hcase with hsame | ⟨hq, hsane, hnew⟩
  · exact Or.inl hsame
  · refine Or.inr ⟨hq, ?_⟩
    rw [← hnew] at hsane
    exact hsane

end Clocks

/-! ## Exact arithmetic -/

section Exact

variable {s s' s'' : AlgoState ℝ}

/-- Metaparameters with which the sanity check of `phat` refuses a candidate of zero. -/
structure Tame (mp : Metaparam ℝ) : Prop where
  TSLIMIT : 0 ≤ mp.TSLIMIT
  rate : 0 ≤ mp.RateErrBOUND
  third : 3.0 * mp.RateErrBOUND < 1

/-- The clock runs forward, and updates are judged by thresholds of that kind. -/
structure Sound (s : AlgoState ℝ) : Prop where
  phat : 0 < s.osc.phat
  plocal : 0 < s.ploc.plocal
  EpSanity : s.thres.EpSanity < 1
  sanityMin : 0 ≤ s.thres.EoffsetSanityMin
  sanityRate : 0 ≤ s.thres.EoffsetSanityRate

/-- Inside a call, the clock may turn about the `Ta` of the last stamp. -/
structure Pivots (s s' : AlgoState ℝ) : Prop where
  sound : Sound s'
  stamp : s'.stamp = s.stamp
  same : uncorrected s' s.stamp.Ta = uncorrected s s.stamp.Ta

/-- Two changes that pivot, one after the other. -/
theorem Pivots.trans (h : Pivots s s') (h' : Pivots s' s'') : Pivots s s'' where
  sound := h'.sound
  stamp := h'.stamp.trans h.stamp
  same := by
    have hsame := h'.same
    rw [h.stamp] at hsame
    exact hsame.trans h.same

/-- A clock that turns without a new period has not moved. -/
theorem Pivots.K (h : Pivots s s') (hphat : s'.osc.phat = s.osc.phat) : s'.off.K = s.off.K := by
  have hsame := h.same
  unfold uncorrected at hsame
  rw [hphat] at hsame
  exact add_left_cancel hsame

/-- A state with the same clock pivots trivially. -/
theorem Sound.clock (h : Sound s) (hc : SameClock s s') : Pivots s s' where
  sound := ⟨hc.phat ▸ h.phat, hc.plocal ▸ h.plocal, hc.EpSanity ▸ h.EpSanity,
    hc.sanityMin ▸ h.sanityMin, hc.sanityRate ▸ h.sanityRate⟩
  stamp := hc.stamp
  same := by
    unfold uncorrected
    rw [hc.phat, hc.off]

/-- A counter value is not negative as a number. -/
theorem vcD_nonneg (v : VCounter) : (0 : ℝ) ≤ vcD v := Nat.cast_nonneg _

/-- And positive unless it is zero. -/
theorem vcD_pos {v : VCounter} (h : v ≠ 0) : (0 : ℝ) < vcD v := by
  have hne : v.toNat ≠ 0 := fun hz => h (UInt64.toNat_inj.mp hz)
  exact Nat.cast_pos.mpr (Nat.pos_of_ne_zero hne)

/-- A naive period is positive, or the failure value. -/
theorem computePhat_pos (far near : BidirStamp ℝ) :
    Returns (computePhat far near) fun phat => phat = 0 ∨ 0 < phat := by
  refine Returns.skip fun DelTa => Returns.skip fun DelTf => ?_
  refine Returns.ite (fun _ => Returns.pure (Or.inl rfl)) fun hno => Returns.pure (Or.inr ?_)
  obtain ⟨hTa, hrest⟩ := not_or.mp hno
  obtain ⟨hTb, hrest⟩ := not_or.mp hrest
  obtain ⟨hTe, hTf⟩ := not_or.mp hrest
  have hup := div_pos (not_le.mp hTb) (vcD_pos hTa)
  have hdown := div_pos (not_le.mp hTe) (vcD_pos hTf)
  exact div_pos (add_pos hup hdown) (by norm_num)

/-- The origin is moved with the period, so that the clock agrees at the pivot. -/
theorem movePhat_pivots (h : Sound s) {phat : ℝ} (hphat : 0 < phat) (perr : ℝ) :
    Pivots s (movePhat phat perr s) where
  sound := ⟨hphat, h.plocal, h.EpSanity, h.sanityMin, h.sanityRate⟩
  stamp := rfl
  same := by
    show phat * vcD s.stamp.Ta + (s.off.K + vcD s.stamp.Ta * (s.osc.phat - phat)) =
      s.osc.phat * vcD s.stamp.Ta + s.off.K
    ring

/-! ### Warmup -/

/-- `process_phat_warmup` moves the period about the stamp before. -/
theorem processPhatWarmup_pivots (h : Sound s) (RTT : VCounter) :
    Returns (processPhatWarmup RTT s) (Pivots s) := by
  have hkept (ends : Ends) : Pivots s { s with ends := ends } :=
    h.clock ⟨rfl, rfl, rfl, rfl, rfl, rfl, rfl⟩
  refine Returns.skip fun ends => Returns.skip fun st => ?_
  refine Returns.bind (computePhat_pos _ _) fun phat hphat => ?_
  refine Returns.ite (fun _ => Returns.pure (hkept ends)) fun hne => ?_
  refine Returns.ite (fun _ => ?_) fun _ => Returns.pure (hkept ends)
  refine Returns.skip fun r => Returns.pure ?_
  have hpos : 0 < phat := hphat.resolve_left fun hz => hne (decide_eq_true hz)
  exact (hkept ends).trans (movePhat_pivots (hkept ends).sound hpos _)

/-- So do the first algorithms of the warmup together. -/
theorem beforeTheta_pivots (h : Sound s) (st : BidirStamp ℝ) :
    Returns (beforeTheta st s) (Pivots s) := by
  obtain ⟨i, owd, Df, Db, -, hpath⟩ := warmupPath_frame st st.RTT s
  unfold beforeTheta
  rw [hpath]
  have hpre : Pivots s { s with
    rtt := { s.rtt with RTThat := min s.rtt.RTThat st.RTT }
    past := { s.past with pstampI := i }
    owd := owd
    hist := { s.hist with
      Df := historyAdd s.hist.Df s.si Df
      Db := historyAdd s.hist.Db s.si Db } } := h.clock ⟨rfl, rfl, rfl, rfl, rfl, rfl, rfl⟩
  refine Returns.bind (processPhatWarmup_pivots hpre.sound st.RTT) fun s1 h1 => Returns.pure ?_
  have h2 := hpre.trans h1
  exact ⟨⟨h2.sound.phat, h2.sound.phat, h2.sound.EpSanity, h2.sound.sanityMin,
    h2.sound.sanityRate⟩, h2.stamp, h2.same⟩

/-- The offset does not move the uncorrected clock. -/
theorem warmupAlgos_pivots (h : Sound s) (mp : Metaparam ℝ) (st : BidirStamp ℝ) :
    Returns (warmupAlgos mp st s) (Pivots s) := by
  rw [warmupAlgos_eq]
  refine Returns.bind (beforeTheta_pivots h st) fun s1 h1 => ?_
  have hK : Returns (processThetahatWarmup mp st s1) fun s2 => s2.off.K = s1.off.K :=
    Returns.skip fun a => Returns.skip fun e => Returns.skip fun d => Returns.skip fun best =>
      Returns.pure (judgeWarmup_K st a e _ _)
  refine Returns.bind (hK.and (processThetahatWarmup_frame _ _ _)) ?_
  rintro s2 ⟨hK2, t, off, bound, stt, out, rfl, -⟩
  obtain ⟨out', stt', hfin⟩ := finishWarmup_frame mp
    { s1 with
      hist := _, poll := _, off := off, err := _, status := stt, output := out }
  refine Returns.pure ?_
  rw [hfin]
  refine h1.trans ⟨⟨h1.sound.phat, h1.sound.plocal, h1.sound.EpSanity, h1.sound.sanityMin,
    h1.sound.sanityRate⟩, rfl, ?_⟩
  exact congrArg (s1.osc.phat * vcD s1.stamp.Ta + ·) hK2

/-- Nor does the start of the full phase. -/
theorem warmupPhase_pivots (h : Sound s) (mp : Metaparam ℝ) (st : BidirStamp ℝ) :
    Returns (warmupPhase mp st s) (Pivots s) := by
  refine Returns.bind (warmupAlgos_pivots h mp st) fun s1 h1 => ?_
  refine Returns.ite (fun _ => ?_) fun _ => Returns.pure h1
  refine (initFull_clock st s1).mono ?_
  rintro s2 ⟨hstamp, hphat, hplocal, hK, hEp, hmin, hrate⟩
  refine h1.trans ⟨⟨hphat ▸ h1.sound.phat, hplocal ▸ h1.sound.plocal, hEp ▸ h1.sound.EpSanity,
    hmin ▸ h1.sound.sanityMin, hrate ▸ h1.sound.sanityRate⟩, hstamp, ?_⟩
  unfold uncorrected
  rw [hphat, hK]

/-! ### The full phase -/

/-- `process_phat_full` moves the period about the stamp before, and within the sanity bound. -/
theorem processPhatFull_pivots (h : Sound s) (st : BidirStamp ℝ) (RTT : VCounter) (q : Bool) :
    Returns (processPhatFull st RTT q s) (Pivots s) := by
  have hdel : Pivots s (s.delStatus STARAD_PHAT_UPDATED) :=
    h.clock ⟨rfl, rfl, rfl, rfl, rfl, rfl, rfl⟩
  refine Returns.skip fun _ => ?_
  refine Returns.ite (fun _ => Returns.pure hdel) fun _ => ?_
  refine Returns.ite (fun _ => Returns.pure hdel) fun _ => ?_
  refine Returns.bind (computePhat_pos _ _) fun phat hphat => ?_
  refine Returns.ite (fun _ => Returns.pure (h.clock ⟨rfl, rfl, rfl, rfl, rfl, rfl, rfl⟩))
    fun hno => Returns.pure ?_
  -- the failure value would be refused: it is a relative change of one
  have hpos : 0 < phat := by
    refine hphat.resolve_left fun hz => hno (Or.inl ?_)
    have hone : |s.osc.phat - 0| / s.osc.phat = 1 := by
      rw [sub_zero, abs_of_pos h.phat, div_self (ne_of_gt h.phat)]
    show s.thres.EpSanity < |s.osc.phat - phat| / s.osc.phat
    rw [hz, hone]
    exact h.EpSanity
  have hmove := movePhat_pivots hdel.sound hpos
    ((fabs (s.osc.phat * (vcD RTT - vcD s.rtt.RTThat)) + fabs s.past.pstampPerr + baseerr s) /
      (st.Tb - s.past.pstamp.Tb))
  exact hdel.trans (hmove.trans (hmove.sound.clock ⟨rfl, rfl, rfl, rfl, rfl, rfl, rfl⟩))

/-- The local period is no part of the clock. -/
theorem slidePlocal_pivots (h : Sound s) (q : Bool) : Returns (slidePlocal q s) (Pivots s) := by
  refine Returns.skip fun far => Returns.skip fun near => Returns.skip fun st => ?_
  refine Returns.bind (computePhat_pos _ _) fun plocal hplocal => ?_
  refine Returns.ite (fun _ => Returns.pure (h.clock ⟨rfl, rfl, rfl, rfl, rfl, rfl, rfl⟩))
    fun hne => ?_
  refine Returns.skip fun r => ?_
  refine Returns.ite (fun _ => Returns.pure (h.clock ⟨rfl, rfl, rfl, rfl, rfl, rfl, rfl⟩))
    fun _ => ?_
  refine Returns.ite (fun _ => Returns.pure (h.clock ⟨rfl, rfl, rfl, rfl, rfl, rfl, rfl⟩))
    fun _ => Returns.pure ?_
  have hpos : 0 < plocal := hplocal.resolve_left fun hz => hne (decide_eq_true hz)
  exact ⟨⟨h.phat, hpos, h.EpSanity, h.sanityMin, h.sanityRate⟩, rfl, rfl⟩

/-- Nor is its setting up. -/
theorem processPlocalFull_pivots (h : Sound s) (q : Bool) :
    Returns (processPlocalFull q s) (Pivots s) := by
  have hset : Pivots s (setPlocalEnd s) := h.clock ⟨rfl, rfl, rfl, rfl, rfl, rfl, rfl⟩
  refine Returns.ite (fun _ => Returns.pure ?_) fun _ => ?_
  · exact ⟨⟨h.phat, h.phat, h.EpSanity, h.sanityMin, h.sanityRate⟩, rfl, rfl⟩
  · refine Returns.bind (Q := Pivots s) (Returns.ite (fun _ => ?_) fun _ => Returns.pure hset)
      fun s1 h1 => (slidePlocal_pivots h1.sound q).mono fun s2 h2 => h1.trans h2
    refine (resetPlocal_frame _).mono ?_
    rintro s1 ⟨far, near, rfl⟩
    exact hset.trans (hset.sound.clock ⟨rfl, rfl, rfl, rfl, rfl, rfl, rfl⟩)

/-- Up to the offset algorithm, which finds the offset estimate as the last call has left it. -/
theorem toTheta_pivots (h : Sound s) (inp : Input ℝ) :
    Returns (toTheta inp s) fun s' => Pivots s s' ∧ s'.off.thetahat = s.off.thetahat := by
  unfold toTheta
  rw [toPlocal_eq, bind_assoc]
  refine Returns.bind (toPhat_clock inp s) fun s1 h1 => ?_
  have hp1 := h.clock h1
  refine Returns.bind ((processPhatFull_pivots hp1.sound _ _ _).and
    (processPhatFull_frame _ _ _ _)) ?_
  rintro s2 ⟨hp2, K, phat, perr, c, stt, rfl⟩
  refine ((processPlocalFull_pivots hp2.sound _).and (processPlocalFull_frame _ _)).mono ?_
  rintro s3 ⟨hp3, e, ends, ploc, out, stt', rfl⟩
  refine ⟨hp1.trans (hp2.trans hp3), ?_⟩
  show s1.off.thetahat = s.off.thetahat
  rw [h1.off]

/-- From the offset algorithm on. -/
theorem fromTheta_pivots (h : Sound s) (mp : Metaparam ℝ) (inp : Input ℝ) :
    Returns (processThetahatFull mp inp.stamp inp.qualWarning inp.Ebound s >>=
      updatePathpenaltyFull mp inp.stamp) (Pivots s) := by
  refine Returns.bind ((processThetahatFull_K _ _ _ _ s).and
    (processThetahatFull_frame _ _ _ _ _)) ?_
  rintro s1 ⟨hK, t, off, bound, stt, out, rfl, -⟩
  refine (updatePathpenaltyFull_frame _ _ _).mono ?_
  rintro s2 ⟨pen, out', rfl⟩
  refine ⟨⟨h.phat, h.plocal, h.EpSanity, h.sanityMin, h.sanityRate⟩, rfl, ?_⟩
  exact congrArg (s.osc.phat * vcD s.stamp.Ta + ·) hK

/-- A call of the full phase moves the clock in `process_phat_full` only. -/
theorem fullPhase_pivots (h : Sound s) (mp : Metaparam ℝ) (inp : Input ℝ) :
    Returns (fullPhase mp inp s) (Pivots s) := by
  rw [fullPhase_theta]
  refine Returns.bind (toTheta_pivots h inp) ?_
  rintro s1 ⟨h1, -⟩
  exact (fromTheta_pivots h1.sound mp inp).mono fun s2 h2 => h1.trans h2

/-- The gap since the last update is not negative. -/
theorem thetaGap_nonneg (h : Sound s) (mp : Metaparam ℝ) (st : BidirStamp ℝ) :
    Returns (thetaGap mp st s) fun gap => 0 ≤ gap := by
  refine Returns.skip fun a => Returns.skip fun d => Returns.pure ?_
  have hd : 0 ≤ s.osc.phat * vcD d := mul_nonneg (le_of_lt h.phat) (vcD_nonneg d)
  unfold cmax
  split
  · next hlt => exact le_of_lt (lt_of_le_of_lt hd hlt)
  · exact hd

/-- What a call of the full phase adds to the absolute clock at the `Ta` of the last stamp. -/
theorem fullPhase_absolute (h : Sound s) (mp : Metaparam ℝ) (inp : Input ℝ) :
    Returns (toTheta inp s) fun s1 => Returns (thetaGap mp inp.stamp s1) fun gap =>
      Returns (fullPhase mp inp s) fun s' =>
        |absolute s' s.stamp.Ta - absolute s s.stamp.Ta| ≤
            s1.thres.EoffsetSanityMin + s1.thres.EoffsetSanityRate * gap ∧
          (inp.qualWarning = true → absolute s' s.stamp.Ta = absolute s s.stamp.Ta) := by
  intro s1 hs1 gap hgap
  -- up to the offset algorithm only the pivots move, which no reading shows
  obtain ⟨h1, hth1⟩ := toTheta_pivots h inp s1 hs1
  have hpos := thetaGap_nonneg h1.sound mp inp.stamp gap hgap
  have hbound : 0 ≤ s1.thres.EoffsetSanityMin + s1.thres.EoffsetSanityRate * gap :=
    add_nonneg h1.sound.sanityMin (mul_nonneg h1.sound.sanityRate hpos)
  rw [fullPhase_theta]
  refine Returns.bind (returns_same hs1) fun s1' hs1' => ?_
  subst hs1'
  have hoff : Returns (processThetahatFull mp inp.stamp inp.qualWarning inp.Ebound s1' >>=
      updatePathpenaltyFull mp inp.stamp) fun s' => s'.off.thetahat = s1'.off.thetahat ∨
        inp.qualWarning = false ∧
          ¬ s1'.thres.EoffsetSanityMin + s1'.thres.EoffsetSanityRate * gap <
            |s1'.off.thetahat - s'.off.thetahat| := by
    refine Returns.bind (processThetahatFull_off mp inp.stamp inp.qualWarning inp.Ebound s1' gap
      hgap) ?_
    rintro s2 ⟨-, hcase⟩
    refine (updatePathpenaltyFull_frame _ _ _).mono ?_
    rintro s3 ⟨pen, out, rfl⟩
    exact hcase
  refine ((fromTheta_pivots h1.sound mp inp).and hoff).mono ?_
  rintro s' ⟨h2, hcase⟩
  -- at the last stamp the change of the clock is the change of the offset
  have hdiff : absolute s' s.stamp.Ta - absolute s s.stamp.Ta =
      s1'.off.thetahat - s'.off.thetahat := by
    unfold absolute
    rw [(h1.trans h2).same, hth1]
    ring
  rcases hcase with hsame | ⟨hq, hsane⟩
  · -- nothing adopted, nothing changed
    have hzero : absolute s' s.stamp.Ta - absolute s s.stamp.Ta = 0 := by
      rw [hdiff, hsame, sub_self]
    refine ⟨?_, fun _ => sub_eq_zero.mp hzero⟩
    rw [hzero, abs_zero]
    exact hbound
  · rw [hdiff]
    exact ⟨not_lt.mp hsane, fun hwarn => absurd (hq.symm.trans hwarn) Bool.false_ne_true⟩

/-! ### Calls -/

/-- Tame parameters give thresholds that leave the period positive. -/
theorem setErrThresholds_tame {mp : Metaparam ℝ} (hmp : Tame mp) (s : AlgoState ℝ) :
    (setErrThresholds mp s).thres.EpSanity < 1 ∧
      0 ≤ (setErrThresholds mp s).thres.EoffsetSanityMin ∧
        0 ≤ (setErrThresholds mp s).thres.EoffsetSanityRate :=
  ⟨hmp.third, mul_nonneg (by norm_num) hmp.TSLIMIT, mul_nonneg (by norm_num) hmp.rate⟩

/-- A change of the parameters leaves the clock, and the thresholds sound. -/
theorem reactToUpdate_pivots (h : Sound s) {conf : Config ℝ} (hmp : Tame conf.metaparam) :
    Returns (reactToUpdate conf s) fun s' => Pivots s s' ∧ s'.off.thetahat = s.off.thetahat ∧
      s'.stampI = s.stampI := by
  obtain ⟨hEp, hmin, hrate⟩ := setErrThresholds_tame hmp s
  refine Returns.ite (fun _ => ?_) fun _ =>
    Returns.pure ⟨h.clock ⟨rfl, rfl, rfl, rfl, rfl, rfl, rfl⟩, rfl, rfl⟩
  refine (updateState_cases _ _ _).mono ?_
  rintro s1 ⟨poll, -, ⟨-, rfl⟩ | ⟨-, v, e, rfl⟩⟩ <;>
    exact ⟨⟨⟨h.phat, h.plocal, hEp, hmin, hrate⟩, rfl, rfl⟩, rfl, rfl⟩

/-- The record of a stamp that is not the first. -/
theorem beginCall_pivots (h : Sound s) {c : Call ℝ} (hmp : Tame c.conf.metaparam)
    (hidx : 0 ≤ s.stampI) : Returns (beginCall c s) fun s' =>
      Pivots s s' ∧ s'.off.thetahat = s.off.thetahat ∧ s'.stampI = s.stampI + 1 := by
  have hnext : Pivots s { s with stampI := s.stampI + 1 } :=
    h.clock ⟨rfl, rfl, rfl, rfl, rfl, rfl, rfl⟩
  unfold beginCall
  rw [nextStamp_later c.conf hidx]
  refine Returns.bind (reactToUpdate_pivots hnext.sound hmp) ?_
  rintro s1 ⟨h1, hth, hidx1⟩
  refine Returns.pure ⟨hnext.trans (h1.trans ?_), hth, hidx1⟩
  exact h1.sound.clock ⟨rfl, rfl, rfl, rfl, rfl, rfl, rfl⟩

/-- The last statements of a call change the last stamp, and no clock. -/
theorem endCall_clock (mp : Metaparam ℝ) (st : BidirStamp ℝ) (s : AlgoState ℝ) :
    Returns (endCall mp st s) fun s' => s'.osc = s.osc ∧ s'.ploc = s.ploc ∧ s'.off = s.off ∧
      s'.thres = s.thres ∧ s'.stampI = s.stampI := by
  obtain ⟨stats, hcopy⟩ := copyStamp_frame st s
  unfold endCall
  rw [hcopy]
  refine Returns.bind (updateErrors_frame _ _ _) ?_
  rintro s1 ⟨err, rfl⟩
  exact Returns.pure ⟨rfl, rfl, rfl, rfl, rfl⟩

/-- What a call after the first does to the clocks, at the `Ta` of the stamp before. -/
structure Continued (c : Call ℝ) (s s' : AlgoState ℝ) : Prop where
  same : uncorrected s' s.stamp.Ta = uncorrected s s.stamp.Ta
  K : s'.osc.phat = s.osc.phat → s'.off.K = s.off.K
  /-- In the full phase, with `gapsize` as the offset algorithm has it. -/
  full : Returns (beginCall c s) fun s1 => s1.win.warmupWin ≤ s1.si →
    Returns (toTheta c.inp s1) fun s2 =>
      Returns (thetaGap c.conf.metaparam c.inp.stamp s2) fun gap =>
        |absolute s' s.stamp.Ta - absolute s s.stamp.Ta| ≤
            s2.thres.EoffsetSanityMin + s2.thres.EoffsetSanityRate * gap ∧
          (c.inp.qualWarning = true → absolute s' s.stamp.Ta = absolute s s.stamp.Ta)

/-- Either phase moves the clock about the stamp before. -/
theorem phases_pivots (h : Sound s) (c : Call ℝ) (hidx : s.stampI ≠ 0) :
    Returns (phases c.conf c.inp s) (Pivots s) := by
  refine Returns.ite (fun h0 => absurd h0 hidx) fun _ => ?_
  exact Returns.ite (fun _ => warmupPhase_pivots h _ _) fun _ => fullPhase_pivots h _ _

/-- In the full phase the offset moves by the sanity bound at most. -/
theorem phases_absolute (h : Sound s) (c : Call ℝ) (hidx : s.stampI ≠ 0)
    (hfull : s.win.warmupWin ≤ s.si) : Returns (toTheta c.inp s) fun s1 =>
      Returns (thetaGap c.conf.metaparam c.inp.stamp s1) fun gap =>
        Returns (phases c.conf c.inp s) fun s' =>
          |absolute s' s.stamp.Ta - absolute s s.stamp.Ta| ≤
              s1.thres.EoffsetSanityMin + s1.thres.EoffsetSanityRate * gap ∧
            (c.inp.qualWarning = true → absolute s' s.stamp.Ta = absolute s s.stamp.Ta) := by
  have heq : phases c.conf c.inp s = fullPhase c.conf.metaparam c.inp s := by
    unfold phases
    rw [if_neg hidx, if_neg (Nat.not_lt.mpr hfull)]
  rw [heq]
  exact fullPhase_absolute h c.conf.metaparam c.inp

/-- One call, from the second stamp on. -/
theorem RADalgoBidir_continued (h : Sound s) (hidx : 0 ≤ s.stampI) {c : Call ℝ}
    (hmp : Tame c.conf.metaparam) : Returns (RADalgoBidir c.conf c.inp s) fun s' =>
      (Sound s' ∧ 0 ≤ s'.stampI) ∧ Continued c s s' := by
  intro s' hres
  obtain ⟨-, -, hcount, -⟩ := RADalgoBidir_err c.conf c.inp s s' hres
  rw [RADalgoBidir_eq, bind_assoc] at hres
  obtain ⟨s1, hs1, hres⟩ := bind_res_some.mp hres
  obtain ⟨s2, hs2, hres⟩ := bind_res_some.mp hres
  obtain ⟨h1, hth1, hidx1⟩ := beginCall_pivots h hmp hidx s1 hs1
  have h2 := phases_pivots h1.sound c (by omega) s2 hs2
  -- what the call does at its end leaves the clock as it is
  obtain ⟨hosc, hploc, hoff, hthres, -⟩ := endCall_clock _ _ _ s' hres
  have hclock (T : VCounter) : uncorrected s' T = uncorrected s2 T := by
    unfold uncorrected
    rw [hosc, hoff]
  have hpivots := h1.trans h2
  have hK : s'.osc.phat = s.osc.phat → s'.off.K = s.off.K := by
    rw [hosc, hoff]
    exact hpivots.K
  have hsound : Sound s' := ⟨hosc ▸ h2.sound.phat, hploc ▸ h2.sound.plocal,
    hthres ▸ h2.sound.EpSanity, hthres ▸ h2.sound.sanityMin, hthres ▸ h2.sound.sanityRate⟩
  refine ⟨⟨hsound, by omega⟩, (hclock _).trans hpivots.same, hK, ?_⟩
  intro s1' hs1' hfull s3 hs3 gap hgap
  obtain rfl := Option.some.inj (hs1.symm.trans hs1')
  -- so all of the change happens in the full phase
  have habs := phases_absolute h1.sound c (by omega) hfull s3 hs3 gap hgap s2 hs2
  have hbefore : absolute s1 s.stamp.Ta = absolute s s.stamp.Ta := by
    unfold absolute
    rw [h1.same, hth1]
  have hafter : absolute s' s.stamp.Ta = absolute s2 s.stamp.Ta := by
    unfold absolute
    rw [hclock, hoff]
  rw [h1.stamp, hbefore] at habs
  rw [hafter]
  exact habs

/-- The first call takes the period of the configuration. -/
theorem RADalgoBidir_sound_first {c : Call ℝ} (hmp : Tame c.conf.metaparam)
    (hphat : 0 < c.conf.phatInit) : Returns (RADalgoBidir c.conf c.inp AlgoState.zero) fun s' =>
      Sound s' ∧ 0 ≤ s'.stampI := by
  intro s' hres
  obtain ⟨-, -, hcount, -⟩ := RADalgoBidir_err c.conf c.inp _ s' hres
  change s'.stampI = -1 + 1 at hcount
  refine ⟨?_, by omega⟩
  rw [RADalgoBidir_eq, bind_assoc] at hres
  obtain ⟨s1, hs1, hres⟩ := bind_res_some.mp hres
  have hbegin : Returns (beginCall c AlgoState.zero) fun s1 => s1.stampI = 0 ∧
      s1.thres.EpSanity < 1 ∧ 0 ≤ s1.thres.EoffsetSanityMin ∧
        0 ≤ s1.thres.EoffsetSanityRate := by
    have hthres := setErrThresholds_tame hmp (nextStamp c.conf AlgoState.zero)
    refine Returns.bind (Q := fun s1 => s1.stampI = 0 ∧ s1.thres.EpSanity < 1 ∧
      0 ≤ s1.thres.EoffsetSanityMin ∧ 0 ≤ s1.thres.EoffsetSanityRate) ?_ fun s1 h1 =>
        Returns.pure h1
    refine Returns.ite (fun _ => ?_) fun _ => Returns.pure ⟨rfl, hthres⟩
    refine (updateState_cases _ _ _).mono ?_
    rintro s1 ⟨poll, -, ⟨-, rfl⟩ | ⟨-, v, e, rfl⟩⟩ <;> exact ⟨rfl, hthres⟩
  obtain ⟨hidx1, hEp, hmin, hrate⟩ := hbegin s1 hs1
  obtain ⟨s2, hs2, hres⟩ := bind_res_some.mp hres
  obtain rfl : initPhase c.conf c.inp.stamp s1 = s2 := by
    unfold phases at hs2
    rw [if_pos hidx1] at hs2
    exact Option.some.inj hs2
  obtain ⟨hosc, hploc, -, hthres, -⟩ := endCall_clock _ _ _ s' hres
  exact ⟨hosc ▸ hphat, hploc ▸ hphat, hthres ▸ hEp, hthres ▸ hmin, hthres ▸ hrate⟩

/-- Any number of calls leave a sound state. -/
theorem runFrom_sound {cs : List (Call ℝ)} (hmp : ∀ c ∈ cs, Tame c.conf.metaparam)
    (h : Sound s ∧ 0 ≤ s.stampI) : Returns (runFrom cs s) fun s' => Sound s' ∧ 0 ≤ s'.stampI := by
  induction cs generalizing s with
  | nil => exact Returns.pure h
  | cons c cs ih =>
    obtain ⟨hc, hcs⟩ := List.forall_mem_cons.mp hmp
    refine Returns.bind (RADalgoBidir_continued h.1 h.2 hc) ?_
    rintro s1 ⟨h1, -⟩
    exact ih hcs h1

/-- Between calls. -/
theorem run_sound {c₀ : Call ℝ} {cs : List (Call ℝ)} (hmp : ∀ c ∈ c₀ :: cs, Tame c.conf.metaparam)
    (hphat : 0 < c₀.conf.phatInit) : Returns (run (c₀ :: cs)) fun s => Sound s ∧ 0 ≤ s.stampI := by
  obtain ⟨hmp₀, hmp⟩ := List.forall_mem_cons.mp hmp
  exact Returns.bind (RADalgoBidir_sound_first hmp₀ hphat) fun s hs => runFrom_sound hmp hs

/-- In exact arithmetic, in every run from a positive `phat_init` and with any changes among tame
configurations, the periods stay positive, and every call after the first continues the clock: the
uncorrected one without a step, the absolute one in the full phase within the sanity bound. -/
theorem clock_continuous {c₀ : Call ℝ} {cs : List (Call ℝ)} {c : Call ℝ}
    (hmp : ∀ c' ∈ c₀ :: cs ++ [c], Tame c'.conf.metaparam) (hphat : 0 < c₀.conf.phatInit) :
    Returns (run (c₀ :: cs)) fun s => (0 < s.osc.phat ∧ 0 < s.ploc.plocal) ∧
      Returns (RADalgoBidir c.conf c.inp s) (Continued c s) := by
  obtain ⟨hrun, hc⟩ := List.forall_mem_append.mp hmp
  refine (run_sound hrun hphat).mono ?_
  rintro s ⟨hs, hidx⟩
  refine ⟨⟨hs.phat, hs.plocal⟩, ?_⟩
  exact (RADalgoBidir_continued hs hidx (hc c (List.mem_singleton_self c))).mono fun s' h' => h'.2

/-- The parameters of the default configuration are tame. -/
theorem tame_default : Tame (defaultMetaparam : Metaparam ℝ) where
  TSLIMIT := by
    show (0 : ℝ) ≤ 0.000015
    norm_num
  rate := by
    show (0 : ℝ) ≤ 5e-7
    norm_num
  third := by
    show (3.0 : ℝ) * 5e-7 < 1
    norm_num

/-- Three stamps of an ideal clock. -/
theorem clock_continuous_ideal : ∃ s, (run [idealCall 0, idealCall 1]).res = some s ∧
    0 < s.osc.phat ∧ Returns (RADalgoBidir exactSixteen (idealCall 2).inp s)
      (Continued (idealCall 2) s) := by
  obtain ⟨s, hres, -⟩ := run_ideal.exists_res
  have hphat : 0 < (idealCall 0).conf.phatInit := by
    show (0 : ℝ) < 1e-9
    norm_num
  have htame : ∀ c ∈ idealCall 0 :: [idealCall 1] ++ [idealCall 2], Tame c.conf.metaparam := by
    simp only [List.cons_append, List.nil_append, List.forall_mem_cons]
    exact ⟨tame_default, tame_default, tame_default, fun _ h => nomatch h⟩
  obtain ⟨hpos, hcall⟩ := clock_continuous htame hphat s hres
  exact ⟨s, hres, hpos.1, hcall⟩

end Exact

end RADclock
