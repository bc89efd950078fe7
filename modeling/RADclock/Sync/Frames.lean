import RADclock.Sync.Bidir

/-!
# What each sub-algorithm leaves alone

One lemma per function of `sync_bidir.c`, in two kinds:

- `f_frame`: every result of `f` is the state it was given with some fields replaced, and
  the statement lists those fields. Nothing is said about their values.
- `f_emits`: the events of `f` are lookups and counter differences, and the point errors
  and window marks it is known for.

Neither kind needs a hypothesis, so both hold in any phase, after any configuration
change, and whatever the stamps are.
-/

namespace RADclock

open Lib Lib.Exec

variable {D : Type} [Arith D]

/-- Only the first stamp sets anything up. -/
theorem nextStamp_later (conf : Config D) {s : AlgoState D} (h : 0 ≤ s.stampI) :
    nextStamp conf s = { s with stampI := s.stampI + 1 } := if_neg (by dsimp only; omega)

/-! ## Frames of the warmup phase -/

omit [Arith D] in
/-- `process_RTT_warmup` lowers the minimum to the new RTT, and moves the `pstamp` to the new stamp
or leaves it. -/
theorem processRTTWarmup_frame (RTT : VCounter) (s : AlgoState D) :
    ∃ i, (i = s.past.pstampI ∨ i = s.si) ∧ processRTTWarmup RTT s =
      { s with
        rtt := { s.rtt with RTThat := min s.rtt.RTThat RTT }
        past := { s.past with pstampI := i } } := by
  unfold processRTTWarmup
  split
  · next hlt =>
    refine ⟨s.si, Or.inr rfl, ?_⟩
    rw [show min s.rtt.RTThat RTT = RTT from if_neg (UInt64.not_le.mpr hlt)]
  · next hge =>
    refine ⟨s.past.pstampI, Or.inl rfl, ?_⟩
    rw [show min s.rtt.RTThat RTT = s.rtt.RTThat from if_pos (UInt64.not_lt.mp hge)]

/-- The path algorithms of warmup record the OWDs and update minima. -/
theorem warmupPath_frame (st : BidirStamp D) (RTT : VCounter) (s : AlgoState D) :
    ∃ i owd Df Db, (i = s.past.pstampI ∨ i = s.si) ∧
      processOWDAsymWarmup st (processRTTWarmup RTT s) =
      { s with
        rtt := { s.rtt with RTThat := min s.rtt.RTThat RTT }
        past := { s.past with pstampI := i }
        owd := owd
        hist := { s.hist with
          Df := historyAdd s.hist.Df s.si Df
          Db := historyAdd s.hist.Db s.si Db } } := by
  obtain ⟨i, hi, heq⟩ := processRTTWarmup_frame RTT s
  rw [heq]
  exact ⟨i, _, _, _, hi, rfl⟩

/-- The end of a warmup call writes the output and the status, and nothing else. -/
theorem finishWarmup_frame (mp : Metaparam D) (s : AlgoState D) :
    ∃ out stt, finishWarmup mp s = { s with output := out, status := stt } := by
  unfold finishWarmup
  dsimp only
  split <;> exact ⟨_, _, rfl⟩

/-- `process_phat_warmup` writes the ends, the period and its error, and the origin `K`. -/
theorem processPhatWarmup_frame (RTT : VCounter) (s : AlgoState D) :
    Returns (processPhatWarmup RTT s) fun s' => ∃ ends K phat perr, s' =
      { s with
        ends := ends
        off := { s.off with K := K }
        osc := { s.osc with phat := phat, perr := perr } } := by
  refine Returns.skip fun ends => Returns.skip fun st => Returns.skip fun phat => ?_
  refine Returns.ite (fun _ => Returns.pure ⟨ends, _, _, _, rfl⟩) fun _ => ?_
  refine Returns.ite (fun _ => ?_) fun _ => Returns.pure ⟨ends, _, _, _, rfl⟩
  exact Returns.skip fun r => Returns.pure ⟨ends, _, _, _, rfl⟩

/-- The offset estimate is judged by replacing `off`, the bound on its error and the status
word; the last true update is the old one or this stamp. -/
theorem judgeWarmup_frame (st : BidirStamp D) (a : ThetaAcc D) (e g : D) (s : AlgoState D) :
    ∃ off bound stt, judgeWarmup st a e g s =
      { s with off := off, err := { s.err with EboundMinLast := bound }, status := stt } ∧
      (off.thetastamp = s.off.thetastamp ∨ off.thetastamp = st) := by
  by_cases hq : a.minET < s.thres.EoffsetQual
  · -- without weights the old offset is judged again, and the last update stays
    cases hw : a.wsum == 0 with
    | true =>
      by_cases hs : s.thres.EoffsetSanityMin + s.thres.EoffsetSanityRate * g <
          Arith.fabs (s.off.thetahat - s.off.thetahat)
      · simp only [judgeWarmup, if_pos hq, hw, if_true, if_pos hs, warnSanity, AlgoState.addStatus,
          AlgoState.delStatus]
        exact ⟨_, _, _, rfl, Or.inl rfl⟩
      · simp only [judgeWarmup, if_pos hq, hw, if_true, if_neg hs, AlgoState.delStatus]
        exact ⟨_, _, _, rfl, Or.inl rfl⟩
    | false =>
      by_cases hs : s.thres.EoffsetSanityMin + s.thres.EoffsetSanityRate * g <
          Arith.fabs (s.off.thetahat - a.thetahat / a.wsum)
      · simp only [judgeWarmup, if_pos hq, hw, Bool.false_eq_true, if_false, if_pos hs, warnSanity,
          adoptTheta, AlgoState.addStatus, AlgoState.delStatus]
        exact ⟨_, _, _, rfl, Or.inr rfl⟩
      · simp only [judgeWarmup, if_pos hq, hw, Bool.false_eq_true, if_false, if_neg hs,
          adoptTheta, AlgoState.delStatus]
        exact ⟨_, _, _, rfl, Or.inr rfl⟩
  · -- the packets are too bad for an update
    simp only [judgeWarmup, if_neg hq]
    exact ⟨_, _, _, rfl, Or.inl rfl⟩

/-- `process_thetahat_warmup` adds one naive offset and writes what belongs to the offset. -/
theorem processThetahatWarmup_frame (mp : Metaparam D) (st : BidirStamp D) (s : AlgoState D) :
    Returns (processThetahatWarmup mp st s) fun s' => ∃ t off bound stt out, s' =
      { s with
        hist := { s.hist with thnaive := historyAdd s.hist.thnaive s.si (naiveTheta s st) }
        poll := { s.poll with pollTransitionTh := t }
        off := off
        err := { s.err with EboundMinLast := bound }
        status := stt
        output := out } ∧
      (off.thetastamp = s.off.thetastamp ∨ off.thetastamp = st) := by
  refine Returns.skip fun a => Returns.skip fun e => Returns.skip fun d =>
    Returns.skip fun best => ?_
  -- the loops write nothing, so what is left is the judgement of their result
  obtain ⟨off, bound, stt, heq, hts⟩ := judgeWarmup_frame st a e
    ((stepTransition (recordTheta (naiveTheta s st) s)).osc.phat * vcD d)
    (stepTransition (recordTheta (naiveTheta s st) s))
  refine Returns.pure ?_
  dsimp only
  rw [heq]
  exact ⟨_, off, bound, stt, _, rfl, hts⟩

/-- The sub-algorithms of the warmup phase before `process_thetahat_warmup`. -/
def beforeTheta (st : BidirStamp D) (s : AlgoState D) : Algo D (AlgoState D) := do
  let s ← processPhatWarmup st.RTT (processOWDAsymWarmup st (processRTTWarmup st.RTT s))
  pure (copyPhat s)

/-- The algorithms of the warmup phase, cut before the offset. -/
theorem warmupAlgos_eq (mp : Metaparam D) (st : BidirStamp D) (s : AlgoState D) :
    warmupAlgos mp st s = beforeTheta st s >>= fun s =>
      processThetahatWarmup mp st s >>= fun s => pure (finishWarmup mp s) := by
  unfold warmupAlgos beforeTheta
  simp only [bind_assoc, pure_bind]

/-- What the algorithms of the warmup phase write before the offset: minima, ends and period, no
history. -/
theorem beforeTheta_frame (st : BidirStamp D) (s : AlgoState D) :
    Returns (beforeTheta st s) fun s' => ∃ i owd Df Db ends K phat perr, s' =
      { s with
        rtt := { s.rtt with RTThat := min s.rtt.RTThat st.RTT }
        past := { s.past with pstampI := i }
        owd := owd
        hist := { s.hist with
          Df := historyAdd s.hist.Df s.si Df
          Db := historyAdd s.hist.Db s.si Db }
        ends := ends
        osc := { s.osc with phat := phat, perr := perr }
        ploc := { s.ploc with plocal := phat }
        off := { s.off with K := K } } := by
  obtain ⟨i, owd, Df, Db, -, hpath⟩ := warmupPath_frame st st.RTT s
  unfold beforeTheta
  rw [hpath]
  refine Returns.bind (processPhatWarmup_frame _ _) ?_
  rintro s1 ⟨ends, K, phat, perr, rfl⟩
  exact Returns.pure ⟨i, owd, Df, Db, ends, K, phat, perr, rfl⟩

/-- The sub-algorithms of the warmup phase together. -/
theorem warmupAlgos_frame (mp : Metaparam D) (st : BidirStamp D) (s : AlgoState D) :
    Returns (warmupAlgos mp st s) fun s' =>
      ∃ i owd Df Db th ends phat perr t off bound stt out, s' =
      { s with
        rtt := { s.rtt with RTThat := min s.rtt.RTThat st.RTT }
        past := { s.past with pstampI := i }
        owd := owd
        hist := { s.hist with
          Df := historyAdd s.hist.Df s.si Df
          Db := historyAdd s.hist.Db s.si Db
          thnaive := historyAdd s.hist.thnaive s.si th }
        ends := ends
        osc := { s.osc with phat := phat, perr := perr }
        ploc := { s.ploc with plocal := phat }
        poll := { s.poll with pollTransitionTh := t }
        off := off
        err := { s.err with EboundMinLast := bound }
        status := stt
        output := out } := by
  rw [warmupAlgos_eq]
  refine Returns.bind (beforeTheta_frame _ _) ?_
  rintro s1 ⟨i, owd, Df, Db, ends, K, phat, perr, rfl⟩
  refine Returns.bind (processThetahatWarmup_frame _ _ _) ?_
  rintro s2 ⟨t, off, bound, stt, out, rfl, -⟩
  -- the state is given by its fields, so that the frames before it can be put in
  obtain ⟨out', stt', hfin⟩ := finishWarmup_frame mp
    { s with
      rtt := _, past := _, owd := owd, hist := _, ends := ends, osc := _, ploc := _, poll := _,
      off := off, err := _, status := stt, output := out }
  refine Returns.pure ?_
  rw [hfin]
  exact ⟨i, owd, Df, Db, _, ends, phat, perr, t, off, bound, stt', out', rfl⟩

/-! ## Frames of the full phase -/

/-- The two branches of `manage_historywin`, in the order the source takes them. -/
theorem manageHistorywin_cases (st : BidirStamp D) (RTT : VCounter) (s : AlgoState D) :
    Returns (manageHistorywin st RTT s) fun s' =>
      ∃ s1, s1 = (if s.si = s.win.hWin / 2 then initHalfWindow st RTT s else s) ∧
        (s1.si = s1.win.historyEnd ∧ (∃ Df Db, s' = slideHistorywin st RTT Df Db s1) ∨
          s1.si ≠ s1.win.historyEnd ∧ s' = s1) := by
  refine Returns.bind
    (Q := fun s1 => s1 = if s.si = s.win.hWin / 2 then initHalfWindow st RTT s else s) ?_
    fun s1 hs1 => ?_
  · -- half of the window: the candidate for the next pstamp is chosen
    refine Returns.ite (fun hhalf => ?_) fun hhalf => Returns.pure (if_neg hhalf).symm
    exact Returns.skip fun _ => Returns.pure (if_pos hhalf).symm
  · refine Returns.ite (fun hend => ?_) fun hend => Returns.pure ⟨s1, hs1, Or.inr ⟨hend, rfl⟩⟩
    refine Returns.skip fun Df => Returns.skip fun Db => Returns.skip fun _ => ?_
    exact Returns.pure ⟨s1, hs1, Or.inl ⟨hend, Df, Db, rfl⟩⟩

omit [Arith D] in
/-- The slide of the shift window moves its left end and its minimum only. -/
theorem updateRTTShift_frame (RTT : VCounter) (s : AlgoState D) :
    Returns (updateRTTShift RTT s) fun s' => ∃ v e, s' =
      { s with
        rtt := { s.rtt with RTThatShift := v }
        win := { s.win with shiftEnd := e } } := by
  refine Returns.ite (fun _ => Returns.pure ⟨_, _, rfl⟩) fun _ => ?_
  exact Returns.skip fun v => Returns.pure ⟨_, _, rfl⟩

/-- What is recomputed about the next `pstamp` are its two numbers. -/
theorem recalcNextPstamp_frame (s : AlgoState D) : ∃ perr hat, recalcNextPstamp s =
    { s with past := { s.past with nextPstampPerr := perr, nextPstampRTThat := hat } } := by
  unfold recalcNextPstamp
  split <;> exact ⟨_, _, rfl⟩

/-- An upshift writes the minima, the two numbers of the next `pstamp` and the RTT minima of the
past, by `rewriteBack`. -/
theorem detectUpshift_frame (s : AlgoState D) :
    Returns (detectUpshift s) fun s' => ∃ hat next perr nhat h stt, s' =
      { s with
        rtt := { s.rtt with RTThat := hat, nextRTThat := next }
        past := { s.past with nextPstampPerr := perr, nextPstampRTThat := nhat }
        hist := { s.hist with RTThat := h }
        status := stt } := by
  refine Returns.ite (fun _ => ?_) fun _ => Returns.pure ⟨_, _, _, _, _, _, rfl⟩
  obtain ⟨perr, nhat, heq⟩ := recalcNextPstamp_frame (adoptShift s)
  dsimp only
  rw [heq]
  exact Returns.skip fun h => Returns.pure ⟨_, _, perr, nhat, h, _, rfl⟩

/-- `process_RTT_full` writes the RTT minima, the left end of the shift window and the history of
minima. -/
theorem processRTTFull_frame (RTT : VCounter) (s : AlgoState D) :
    Returns (processRTTFull RTT s) fun s' => ∃ rtt e perr nhat h stt, s' =
      { s with
        rtt := rtt
        win := { s.win with shiftEnd := e }
        past := { s.past with nextPstampPerr := perr, nextPstampRTThat := nhat }
        hist := { s.hist with RTThat := h }
        status := stt } := by
  refine Returns.bind (updateRTTShift_frame RTT (updateRTTMinima RTT s)) ?_
  rintro s1 ⟨v, e, rfl⟩
  refine (detectUpshift_frame _).mono ?_
  rintro s2 ⟨hat, next, perr, nhat, h, stt, rfl⟩
  exact ⟨_, e, perr, nhat, h, stt, rfl⟩

/-- `process_OWDAsym_full` writes the one-way minima, the asymmetry and their histories. -/
theorem processOWDAsymFull_frame (st : BidirStamp D) (s : AlgoState D) :
    Returns (processOWDAsymFull st s) fun s' => ∃ owd e Dfhat Dbhat Asymhat, s' =
      { s with
        owd := owd
        win := { s.win with shiftEndOWD := e }
        hist := { s.hist with
          Df := historyAdd s.hist.Df s.si (rawOWD s st).1
          Db := historyAdd s.hist.Db s.si (rawOWD s st).2
          Dfhat := historyAdd s.hist.Dfhat s.si Dfhat
          Dbhat := historyAdd s.hist.Dbhat s.si Dbhat
          Asymhat := historyAdd s.hist.Asymhat s.si Asymhat } } := by
  refine Returns.bind (Q := fun s1 => ∃ owd e, s1 =
    { recordOWD (rawOWD s st) s with
      owd := owd
      win := { s.win with shiftEndOWD := e } }) ?_ ?_
  · refine Returns.ite (fun _ => Returns.pure ⟨_, _, rfl⟩) fun _ => ?_
    exact Returns.skip fun f => Returns.skip fun b => Returns.pure ⟨_, _, rfl⟩
  · rintro s1 ⟨owd, e, rfl⟩
    exact Returns.pure ⟨_, e, _, _, _, rfl⟩

/-- What `update_next_pstamp` does: nothing, count, or count and adopt the stamp. -/
theorem updateNextPstamp_cases (st : BidirStamp D) (RTT : VCounter) (s : AlgoState D) :
    Returns (updateNextPstamp st RTT s) fun s' => ∃ c, s' =
      { s with osc := { s.osc with jcount := c } } ∨
      s.osc.jcount ≤ s.win.jsearchWin ∧ RTT < s.past.nextPstamp.RTT ∧ ∃ perr nhat, s' =
      { s with
        osc := { s.osc with jcount := c }
        past := { s.past with
          nextPstampI := s.si
          nextPstamp := st
          nextPstampPerr := perr
          nextPstampRTThat := nhat } } := by
  refine Returns.ite (fun hj => ?_) fun _ => Returns.pure ⟨_, Or.inl rfl⟩
  refine Returns.ite (fun hlt => ?_) fun _ => Returns.pure ⟨_, Or.inl rfl⟩
  exact Returns.skip fun _ => Returns.pure ⟨_, Or.inr ⟨hj, hlt, _, _, rfl⟩⟩

/-- `process_phat_full` writes the period, its error, the count of failed sanity tests and `K`. -/
theorem processPhatFull_frame (st : BidirStamp D) (RTT : VCounter) (q : Bool)
    (s : AlgoState D) :
    Returns (processPhatFull st RTT q s) fun s' => ∃ K phat perr n stt, s' =
      { s with
        off := { s.off with K := K }
        osc := { s.osc with phat := phat, perr := perr, phatSanityCount := n }
        status := stt } := by
  refine Returns.skip fun _ => ?_
  refine Returns.ite (fun _ => Returns.pure ⟨_, _, _, _, _, rfl⟩) fun _ => ?_
  refine Returns.ite (fun _ => Returns.pure ⟨_, _, _, _, _, rfl⟩) fun _ => ?_
  refine Returns.skip fun phat => ?_
  exact Returns.ite (fun _ => Returns.pure ⟨_, _, _, _, _, rfl⟩)
    fun _ => Returns.pure ⟨_, _, _, _, _, rfl⟩

omit [Arith D] in
/-- A reset of plocal gives the subwindows their full width and their best packets. -/
theorem resetPlocal_frame (s : AlgoState D) :
    Returns (resetPlocal s) fun s' => ∃ far near, s' =
      { s with
        ends := ⟨fullWwidth s.win.plocalWin, near, far⟩
        ploc := { s.ploc with plocalProblem := false } } :=
  Returns.skip fun far => Returns.skip fun near => Returns.pure ⟨far, near, rfl⟩

/-- A slide of plocal moves the best packets, and keeps the width of the subwindows. -/
theorem slidePlocal_frame (q : Bool) (s : AlgoState D) :
    Returns (slidePlocal q s) fun s' => ∃ far near pl err n out stt, s' =
      { s with
        ends := ⟨s.ends.wwidth, near, far⟩
        ploc := ⟨pl, err, n, s.ploc.plocalProblem⟩
        output := out
        status := stt } := by
  refine Returns.skip fun far => Returns.skip fun near => Returns.skip fun st =>
    Returns.skip fun plocal => ?_
  refine Returns.ite (fun _ => Returns.pure ⟨far, near, _, _, _, _, _, rfl⟩) fun _ => ?_
  refine Returns.skip fun r => ?_
  refine Returns.ite (fun _ => Returns.pure ⟨far, near, _, _, _, _, _, rfl⟩) fun _ => ?_
  exact Returns.ite (fun _ => Returns.pure ⟨far, near, _, _, _, _, _, rfl⟩)
    fun _ => Returns.pure ⟨far, near, _, _, _, _, _, rfl⟩

/-- `process_plocal_full` writes the window, the ends, the estimate and its status. -/
theorem processPlocalFull_frame (q : Bool) (s : AlgoState D) :
    Returns (processPlocalFull q s) fun s' => ∃ e ends ploc out stt, s' =
      { s with
        win := { s.win with plocalEnd := e }
        ends := ends
        ploc := ploc
        output := out
        status := stt } := by
  refine Returns.ite (fun _ => Returns.pure ⟨_, _, _, _, _, rfl⟩) fun _ => ?_
  -- a plocal that is no longer available is set up again before its slide
  refine Returns.bind (Q := fun s1 => ∃ ends ploc, s1 =
    { setPlocalEnd s with ends := ends, ploc := ploc }) ?_ ?_
  · refine Returns.ite (fun _ => ?_) fun _ => Returns.pure ⟨_, _, rfl⟩
    refine (resetPlocal_frame _).mono ?_
    rintro s1 ⟨far, near, rfl⟩
    exact ⟨_, _, rfl⟩
  · rintro s1 ⟨ends, ploc, rfl⟩
    refine (slidePlocal_frame q _).mono ?_
    rintro s2 ⟨far, near, pl, err, n, out, stt, rfl⟩
    exact ⟨_, _, _, out, stt, rfl⟩

/-- The quality test writes a counter and the status. -/
theorem judgeQuality_frame (a : ThetaAcc D) (s : AlgoState D) :
    ∃ n stt, judgeQuality a s =
      { s with off := { s.off with offsetQualityCount := n }, status := stt } := by
  unfold judgeQuality
  split <;> exact ⟨_, _, rfl⟩

/-- The sanity test writes the offset, the bound that goes with it and the status. -/
theorem judgeSanity_frame (st : BidirStamp D) (a : ThetaAcc D) (th e g : D) (q : Bool)
    (s : AlgoState D) :
    ∃ off bound stt, judgeSanity st a th e g q s =
      { s with off := off, err := { s.err with EboundMinLast := bound }, status := stt } ∧
      (off.thetastamp = s.off.thetastamp ∨ off.thetastamp = st) := by
  by_cases hs : s.thres.EoffsetSanityMin + s.thres.EoffsetSanityRate * g <
      Arith.fabs (s.off.thetahat - th) ∨ q = true
  · simp only [judgeSanity, if_pos hs, warnSanity, AlgoState.addStatus]
    exact ⟨_, _, _, rfl, Or.inl rfl⟩
  · -- the estimate is sane, and adopted if the packets were good enough
    by_cases hu : a.minET < s.thres.EoffsetQual ∧ (a.wsum == 0) = false
    · simp only [judgeSanity, if_neg hs, if_pos hu, adoptTheta, AlgoState.delStatus]
      exact ⟨_, _, _, rfl, Or.inr rfl⟩
    · simp only [judgeSanity, if_neg hs, if_neg hu, AlgoState.delStatus]
      exact ⟨_, _, _, rfl, Or.inl rfl⟩

/-- `process_thetahat_full` adds one naive offset and writes what belongs to the offset. -/
theorem processThetahatFull_frame (mp : Metaparam D) (st : BidirStamp D) (q : Bool) (E : D)
    (s : AlgoState D) :
    Returns (processThetahatFull mp st q E s) fun s' => ∃ t off bound stt out, s' =
      { s with
        hist := { s.hist with thnaive := historyAdd s.hist.thnaive s.si (naiveTheta s st) }
        poll := { s.poll with pollTransitionTh := t }
        off := off
        err := { s.err with EboundMinLast := bound }
        status := stt
        output := out } ∧
      (off.thetastamp = s.off.thetastamp ∨ off.thetastamp = st) := by
  refine Returns.skip fun d0 => Returns.skip fun a => Returns.skip fun e =>
    Returns.skip fun d => Returns.skip fun best => ?_
  refine Returns.pure ?_
  dsimp only
  obtain ⟨n, stt, hqual⟩ := judgeQuality_frame a
    (stepTransition (recordTheta (naiveTheta s st) s))
  rw [hqual]
  obtain ⟨off, bound, stt', hsan, hts⟩ := judgeSanity_frame st a
    (candidateTheta a (stepTransition (recordTheta (naiveTheta s st) s))) e
    (Arith.cmax a.gapsize ((stepTransition (recordTheta (naiveTheta s st) s)).osc.phat * vcD d)) q
    { stepTransition (recordTheta (naiveTheta s st) s) with
      off := { (stepTransition (recordTheta (naiveTheta s st) s)).off with offsetQualityCount := n }
      status := stt }
  rw [hsan]
  exact ⟨_, off, bound, stt', _, rfl, hts⟩

/-- `update_pathpenalty_full` writes the penalties and the output. -/
theorem updatePathpenaltyFull_frame (mp : Metaparam D) (st : BidirStamp D) (s : AlgoState D) :
    Returns (updatePathpenaltyFull mp st s) fun s' => ∃ pen out, s' =
      { s with pen := pen, output := out } :=
  Returns.skip fun _ => Returns.pure ⟨_, _, rfl⟩

/-! ## Frames of the initialisations and of a call -/

/-- The shift windows start together, each with the minimum found in it, and the past minima are
filled with the minimum of the warmup. -/
theorem initRTTOWDAsymFull_frame (s : AlgoState D) :
    Returns (initRTTOWDAsymFull s) fun s' => ∃ r f b, s' =
      { s with
        rtt := { s.rtt with
          nextRTThat := s.rtt.RTThat
          RTThatShift := r
          prevRTThat := s.rtt.RTThat }
        owd := { s.owd with
          nextDfhat := s.owd.Dfhat
          nextDbhat := s.owd.Dbhat
          DfhatShift := f
          DbhatShift := b }
        win := { s.win with shiftEnd := initShiftEnd s, shiftEndOWD := initShiftEnd s }
        hist := { s.hist with
          RTThat := fillHistory s.rtt.RTThat 0 (s.si + 1) s.hist.RTThat } } :=
  Returns.skip fun _ => Returns.skip fun f => Returns.skip fun _ => Returns.skip fun b =>
    Returns.skip fun _ => Returns.skip fun r => Returns.pure ⟨r, f, b, rfl⟩

/-- The first `pstamp` of the full phase replaces that of the warmup. -/
theorem initPhatFull_frame (s : AlgoState D) :
    Returns (initPhatFull s) fun s' => ∃ st perr, s' =
      { s with
        past := { s.past with pstamp := st, pstampPerr := 0, pstampRTThat := s.rtt.RTThat }
        osc := { s.osc with perr := perr, phatSanityCount := 0 } } :=
  Returns.skip fun st => Returns.skip fun _ => Returns.skip fun _ => Returns.pure ⟨st, _, rfl⟩

omit [Arith D] in
/-- The start of plocal writes its window, its ends and its estimate. -/
theorem initPlocalFull_frame (s : AlgoState D) :
    Returns (initPlocalFull s) fun s' => ∃ e ends ploc, s' =
      { s with win := { s.win with plocalEnd := e }, ends := ends, ploc := ploc } := by
  refine Returns.bind (Q := fun s1 => ∃ ends ploc, s1 =
    { setPlocalEnd s with ends := ends, ploc := ploc }) ?_ ?_
  · refine Returns.ite (fun _ => ?_) fun _ => Returns.pure ⟨_, _, rfl⟩
    refine (resetPlocal_frame _).mono ?_
    rintro s1 ⟨far, near, rfl⟩
    exact ⟨_, _, rfl⟩
  · rintro s1 ⟨ends, ploc, rfl⟩
    exact Returns.pure ⟨_, _, _, rfl⟩

omit [Arith D] in
/-- The restart of the shift window writes its left end and its minima. -/
theorem restartShift_frame (s : AlgoState D) :
    Returns (restartShift s) fun s' => ∃ v, s' =
      { s with
        win := { s.win with shiftEnd := restartShiftEnd s }
        rtt := { s.rtt with RTThatShift := v } } :=
  Returns.skip fun _ => Returns.skip fun v => Returns.pure ⟨v, rfl⟩

/-- `update_error` writes the error bounds and nothing else. -/
theorem updateErrors_frame (mp : Metaparam D) (st : BidirStamp D) (s : AlgoState D) :
    Returns (updateErrors mp st s) fun s' => ∃ err, s' = { s with err := err } := by
  refine Returns.ite (fun _ => ?_) fun _ => Returns.pure ⟨_, rfl⟩
  exact Returns.skip fun _ => Returns.pure ⟨_, rfl⟩

/-- `copystamp` keeps the stamp and counts it. -/
theorem copyStamp_frame (st : BidirStamp D) (s : AlgoState D) :
    ∃ stats, copyStamp st s = { s with stamp := st, stats := stats } := by
  have hcollect : ∀ s1 : AlgoState D, ∃ stats,
      collectStatsState st s1 = { s1 with stats := stats } := by
    intro s1
    unfold collectStatsState
    dsimp only
    split
    · exact ⟨_, rfl⟩
    · split <;> exact ⟨_, rfl⟩
  have hprint : ∀ s1 : AlgoState D, ∃ stats, printStatsState s1 = { s1 with stats := stats } := by
    intro s1
    unfold printStatsState
    split <;> exact ⟨_, rfl⟩
  obtain ⟨stats, h1⟩ := hcollect { s with stamp := st }
  unfold copyStamp
  rw [h1]
  obtain ⟨stats', h2⟩ := hprint { s with stamp := st, stats := stats }
  exact ⟨stats', h2⟩

/-! ## Events -/

section Emits

variable {P : Event D → Prop} (hfind : ∀ name i oldest newest, P (.find name i oldest newest))

include hfind

section Scans

variable {α : Type}

omit [Arith D]

/-- A lookup emits itself. -/
theorem historyFind_emits (h : History α) (i : Nat) : Emits P (historyFind h i) :=
  Emits.bind (Emits.emit (hfind _ _ _ _)) fun _ => Emits.ite Emits.pure Emits.pure

/-- Reading an item emits the lookup. -/
theorem historyGet_emits (h : History α) (i : Nat) : Emits P (historyGet h i) :=
  Emits.bind (historyFind_emits hfind h i) fun _ => Emits.deref

/-- So does writing one. -/
theorem historySet_emits (h : History α) (i : Nat) (a : α) : Emits P (historySet h i a) :=
  Emits.bind (historyFind_emits hfind h i) fun _ => Emits.bind Emits.deref fun _ => Emits.pure

/-- Two items are two lookups. -/
theorem historyGet2_emits (h : History α) (i j : Nat) : Emits P (historyGet2 h i j) :=
  Emits.bind (historyFind_emits hfind h i) fun _ => Emits.bind (historyFind_emits hfind h j)
    fun _ => Emits.bind Emits.deref fun _ => Emits.bind Emits.deref fun _ => Emits.pure

/-- The scan for a minimum emits lookups only, by induction on what is left of the window. -/
theorem minLoop_emits (lt : α → α → Bool) (h : History α) :
    ∀ (k j : Nat) (p : Option α) (c : Nat), Emits P (minLoop lt h k j p c) := by
  intro k
  induction k with
  | zero => exact fun _ _ _ => Emits.pure
  | succ k ih =>
    intro j p c
    refine Emits.bind (historyFind_emits hfind h _) fun _ => Emits.bind Emits.deref fun _ =>
      Emits.bind Emits.deref fun _ => ?_
    exact Emits.ite (ih _ _ _) (ih _ _ _)

/-- A scan of a window emits lookups only. -/
theorem minScan_emits (lt : α → α → Bool) (h : History α) (j i : Nat) :
    Emits P (minScan lt h j i) :=
  Emits.bind (historyFind_emits hfind h j) fun _ => minLoop_emits hfind lt h _ _ _ _

/-- Nor does a slide by index emit anything else. -/
theorem minSlide_emits (lt : α → α → Bool) (h : History α) (c j i : Nat) :
    Emits P (minSlide lt h c j i) := by
  refine Emits.ite Emits.pure (Emits.ite Emits.pure ?_)
  refine Emits.bind (historyFind_emits hfind h _) fun _ =>
    Emits.bind (historyFind_emits hfind h _) fun _ => Emits.bind Emits.deref fun _ =>
    Emits.bind Emits.deref fun _ => ?_
  exact Emits.ite Emits.pure (Emits.ite (minScan_emits hfind lt h _ _) Emits.pure)

/-- Nor a slide by value. -/
theorem minSlideValue_emits (lt eq : α → α → Bool) (h : History α) (c : α) (j i : Nat) :
    Emits P (minSlideValue lt eq h c j i) := by
  refine Emits.bind (historyFind_emits hfind h _) fun _ => ?_
  refine Emits.ite Emits.deref (Emits.ite Emits.deref (Emits.bind Emits.deref fun _ => ?_))
  -- the minimum itself left the window: it is searched for among the rest
  refine Emits.ite Emits.pure (Emits.bind (historyGet_emits hfind h j) fun _ => ?_)
  exact Emits.ite (Emits.bind (minScan_emits hfind lt h _ _) fun _ => historyGet_emits hfind h _)
    Emits.pure

/-- Rewriting the minima back to an index emits lookups only. -/
theorem rewriteBack_emits (v : VCounter) (jmin : Nat) :
    ∀ (j : Nat) (h : History VCounter), Emits P (rewriteBack v jmin j h) := by
  intro j
  induction j with
  -- the last step of a loop that an unsigned index cannot leave
  | zero =>
    intro h
    refine Emits.ite ?_ Emits.pure
    exact Emits.bind (historySet_emits hfind h _ _) fun _ =>
      Emits.bind (historySet_emits hfind _ _ _) fun _ => Emits.halt
  | succ j ih =>
    intro h
    exact Emits.ite Emits.pure (Emits.bind (historySet_emits hfind h _ _) fun _ => ih _)

end Scans

/-- `process_RTT_full` compares and looks up, and takes no difference of counters. -/
theorem processRTTFull_emits (RTT : VCounter) (s : AlgoState D) :
    Emits P (processRTTFull RTT s) := by
  refine Emits.bind (Emits.ite Emits.pure ?_) fun s1 => Emits.ite ?_ Emits.pure
  · exact Emits.bind (minSlideValue_emits hfind _ _ _ _ _ _) fun _ => Emits.pure
  · exact Emits.bind (rewriteBack_emits hfind _ _ _ _) fun _ => Emits.pure

/-- `process_OWDAsym_full` takes no difference of counters. -/
theorem processOWDAsymFull_emits (st : BidirStamp D) (s : AlgoState D) :
    Emits P (processOWDAsymFull st s) := by
  refine Emits.bind (Emits.ite Emits.pure ?_) fun _ => Emits.pure
  exact Emits.bind (minSlideValue_emits hfind _ _ _ _ _ _) fun _ =>
    Emits.bind (minSlideValue_emits hfind _ _ _ _ _ _) fun _ => Emits.pure

/-- Nor does the start of the windows of the minima. -/
theorem initRTTOWDAsymFull_emits (s : AlgoState D) : Emits P (initRTTOWDAsymFull s) :=
  Emits.bind (minScan_emits hfind _ _ _ _) fun _ => Emits.bind (historyGet_emits hfind _ _)
    fun _ => Emits.bind (minScan_emits hfind _ _ _ _) fun _ =>
    Emits.bind (historyGet_emits hfind _ _) fun _ => Emits.bind (minScan_emits hfind _ _ _ _)
    fun _ => Emits.bind (historyGet_emits hfind _ _) fun _ => Emits.pure

/-- Nor the choice of the first `pstamp`. -/
theorem initPhatFull_emits (s : AlgoState D) : Emits P (initPhatFull s) :=
  Emits.bind (historyGet_emits hfind _ _) fun _ => Emits.bind (historyGet2_emits hfind _ _ _)
    fun _ => Emits.bind (historyGet2_emits hfind _ _ _) fun _ => Emits.pure

omit [Arith D] in
/-- Nor a reset of plocal. -/
theorem resetPlocal_emits (s : AlgoState D) : Emits P (resetPlocal s) :=
  Emits.bind (minScan_emits hfind _ _ _ _) fun _ => Emits.bind (minScan_emits hfind _ _ _ _)
    fun _ => Emits.pure

omit [Arith D] in
/-- Nor the start of plocal. -/
theorem initPlocalFull_emits (s : AlgoState D) : Emits P (initPlocalFull s) :=
  Emits.bind (Emits.ite (resetPlocal_emits hfind _) Emits.pure) fun _ => Emits.pure

/-- The start of the full phase emits lookups only. -/
theorem initFull_emits (st : BidirStamp D) (s : AlgoState D) : Emits P (initFull st s) :=
  Emits.bind (initRTTOWDAsymFull_emits hfind _) fun _ => Emits.bind (initPhatFull_emits hfind _)
    fun _ => Emits.bind (initPlocalFull_emits hfind _) fun _ => Emits.pure

/-- A change of the parameters emits lookups only. -/
theorem reactToUpdate_emits (conf : Config D) (s : AlgoState D) :
    Emits P (reactToUpdate conf s) := by
  refine Emits.ite (Emits.bind (Emits.ite Emits.pure ?_) fun _ => Emits.pure) Emits.pure
  exact Emits.bind (minScan_emits hfind _ _ _ _) fun _ =>
    Emits.bind (historyGet_emits hfind _ _) fun _ => Emits.pure

section Diffs

variable (hdiff : ∀ later earlier, P (.diff later earlier))

include hdiff

omit hfind [Arith D] in
/-- A difference of counter values emits itself. -/
theorem counterDiff_emits (a b : VCounter) : Emits P (counterDiff a b) :=
  Emits.bind (Emits.emit (hdiff a b)) fun _ => Emits.pure

omit hfind in
/-- The period between two stamps needs the differences of their counter values. -/
theorem computePhat_emits (far near : BidirStamp D) : Emits P (computePhat far near) :=
  Emits.bind (counterDiff_emits hdiff _ _) fun _ => Emits.bind (counterDiff_emits hdiff _ _)
    fun _ => Emits.ite Emits.pure Emits.pure

/-- Both ends are searched for, and one period is computed. -/
theorem processPhatWarmup_emits (RTT : VCounter) (s : AlgoState D) :
    Emits P (processPhatWarmup RTT s) := by
  refine Emits.bind (Emits.ite ?_ ?_) fun _ => Emits.bind (historyGet2_emits hfind _ _ _) fun _ =>
    Emits.bind (computePhat_emits hdiff _ _) fun _ => Emits.ite Emits.pure ?_
  · -- far and near are slid, or compared with the new stamp
    exact Emits.bind (minSlide_emits hfind _ _ _ _ _) fun _ => Emits.pure
  · exact Emits.bind (historyFind_emits hfind _ _) fun _ =>
      Emits.bind (historyFind_emits hfind _ _) fun _ => Emits.bind (historyFind_emits hfind _ _)
      fun _ => Emits.bind Emits.deref fun _ => Emits.bind Emits.deref fun _ =>
      Emits.bind Emits.deref fun _ => Emits.pure
  · exact Emits.ite (Emits.bind (historyGet2_emits hfind _ _ _) fun _ => Emits.pure) Emits.pure

omit hdiff [Arith D] in
/-- An RTT and a stamp at one index are two lookups. -/
theorem rttAndStamp_emits (s : AlgoState D) (j : Nat) : Emits P (rttAndStamp s j) :=
  Emits.bind (historyFind_emits hfind _ _) fun _ => Emits.bind (historyFind_emits hfind _ _)
    fun _ => Emits.bind Emits.deref fun _ => Emits.bind Emits.deref fun _ => Emits.pure

/-- The weights of the warmup are computed from lookups and differences. -/
theorem warmupLoop_emits (mp : Metaparam D) (s : AlgoState D) (st : BidirStamp D) (jmin : Nat) :
    ∀ (j : Nat) (a : ThetaAcc D), Emits P (warmupLoop mp s st jmin j a) := by
  intro j
  induction j with
  | zero => exact fun _ => Emits.pure
  | succ j ih =>
    intro a
    refine Emits.ite Emits.pure (Emits.bind (rttAndStamp_emits hfind _ _) fun _ => ?_)
    exact Emits.bind (counterDiff_emits hdiff _ _) fun _ =>
      Emits.bind (historyGet_emits hfind _ _) fun _ => ih _

/-- The search for the second best packet takes point errors only where the caller asks for them. -/
theorem secondLoop_emits {point : Bool}
    (hpt : point = true → ∀ RTT RTThat, P (.pointErr RTT RTThat)) (mp : Metaparam D)
    (s : AlgoState D) (st : BidirStamp D) (jbest jmin : Nat) :
    ∀ (j : Nat) (e : D), Emits P (secondLoop point mp s st jbest jmin j e) := by
  intro j
  induction j with
  | zero => exact fun _ => Emits.pure
  | succ j ih =>
    intro e
    refine Emits.ite Emits.pure (Emits.ite (ih _) ?_)
    refine Emits.bind (rttAndStamp_emits hfind _ _) fun _ => Emits.bind ?_ fun _ =>
      Emits.bind (counterDiff_emits hdiff _ _) fun _ => ih _
    -- the warmup compares the RTTs, the full phase the point errors
    cases point with
    | true => exact Emits.emit (hpt rfl _ _)
    | false => exact Emits.pure

/-- `process_thetahat_warmup` emits lookups and differences. -/
theorem processThetahatWarmup_emits (mp : Metaparam D) (st : BidirStamp D) (s : AlgoState D) :
    Emits P (processThetahatWarmup mp st s) := by
  refine Emits.bind (warmupLoop_emits hfind hdiff _ _ _ _ _ _) fun _ => Emits.bind ?_ fun _ =>
    Emits.bind (counterDiff_emits hdiff _ _) fun _ => Emits.bind (historyGet_emits hfind _ _)
    fun _ => Emits.pure
  exact secondLoop_emits hfind hdiff (fun h => absurd h Bool.false_ne_true) _ _ _ _ _ _ _

/-- A call of the warmup phase emits lookups and differences, and no point error. -/
theorem warmupPhase_emits (mp : Metaparam D) (st : BidirStamp D) (s : AlgoState D) :
    Emits P (warmupPhase mp st s) := by
  refine Emits.bind ?_ fun _ => Emits.ite (initFull_emits hfind _ _) Emits.pure
  exact Emits.bind (processPhatWarmup_emits hfind hdiff _ _) fun _ =>
    Emits.bind (processThetahatWarmup_emits hfind hdiff _ _ _) fun _ => Emits.pure

/-- `process_plocal_full` emits lookups and differences. -/
theorem processPlocalFull_emits (q : Bool) (s : AlgoState D) :
    Emits P (processPlocalFull q s) := by
  refine Emits.ite Emits.pure (Emits.bind (Emits.ite (resetPlocal_emits hfind _) Emits.pure)
    fun _ => ?_)
  refine Emits.bind (minSlide_emits hfind _ _ _ _ _) fun _ =>
    Emits.bind (minSlide_emits hfind _ _ _ _ _) fun _ =>
    Emits.bind (historyGet2_emits hfind _ _ _) fun _ =>
    Emits.bind (computePhat_emits hdiff _ _) fun _ => Emits.ite Emits.pure ?_
  exact Emits.bind (historyGet2_emits hfind _ _ _) fun _ => Emits.ite Emits.pure
    (Emits.ite Emits.pure Emits.pure)

omit hfind in
/-- The path penalties take one difference of counter values. -/
theorem updatePathpenaltyFull_emits (mp : Metaparam D) (st : BidirStamp D) (s : AlgoState D) :
    Emits P (updatePathpenaltyFull mp st s) :=
  Emits.bind (counterDiff_emits hdiff _ _) fun _ => Emits.pure

omit hfind in
/-- So does `update_error`, from the second stamp on. -/
theorem updateErrors_emits (mp : Metaparam D) (st : BidirStamp D) (s : AlgoState D) :
    Emits P (updateErrors mp st s) :=
  Emits.ite (Emits.bind (counterDiff_emits hdiff _ _) fun _ => Emits.pure) Emits.pure

section Points

variable (hpt : ∀ RTT RTThat, P (.pointErr RTT RTThat))

include hpt

omit hfind hdiff in
/-- The next `pstamp` is judged by one point error. -/
theorem updateNextPstamp_emits (st : BidirStamp D) (RTT : VCounter) (s : AlgoState D) :
    Emits P (updateNextPstamp st RTT s) :=
  Emits.ite (Emits.ite (Emits.bind (Emits.emit (hpt _ _)) fun _ => Emits.pure) Emits.pure)
    Emits.pure

omit hfind in
/-- `process_phat_full` emits lookups, differences and point errors. -/
theorem processPhatFull_emits (st : BidirStamp D) (RTT : VCounter) (q : Bool)
    (s : AlgoState D) : Emits P (processPhatFull st RTT q s) :=
  Emits.bind (Emits.emit (hpt _ _)) fun _ => Emits.ite Emits.pure (Emits.ite Emits.pure
    (Emits.bind (computePhat_emits hdiff _ _) fun _ => Emits.ite Emits.pure Emits.pure))

/-- Each packet of the offset window has one point error. -/
theorem fullLoop_emits (mp : Metaparam D) (s : AlgoState D) (st : BidirStamp D) (jmin : Nat) :
    ∀ (j : Nat) (a : ThetaAcc D), Emits P (fullLoop mp s st jmin j a) := by
  intro j
  induction j with
  | zero => exact fun _ => Emits.pure
  | succ j ih =>
    intro a
    refine Emits.ite Emits.pure (Emits.bind ?_ fun _ => Emits.bind ?_ fun _ =>
      Emits.bind (Emits.emit (hpt _ _)) fun _ => Emits.bind (counterDiff_emits hdiff _ _) fun _ =>
      Emits.bind (historyGet_emits hfind _ _) fun _ => ih _)
    · exact Emits.ite (Emits.bind (historyGet2_emits hfind _ _ _) fun _ =>
        Emits.bind (counterDiff_emits hdiff _ _) fun _ => Emits.pure) Emits.pure
    · exact Emits.bind (historyFind_emits hfind _ _) fun _ =>
        Emits.bind (historyFind_emits hfind _ _) fun _ => Emits.bind (historyFind_emits hfind _ _)
        fun _ => Emits.bind Emits.deref fun _ => Emits.bind Emits.deref fun _ =>
        Emits.bind Emits.deref fun _ => Emits.pure

/-- `process_thetahat_full` emits lookups, differences and point errors. -/
theorem processThetahatFull_emits (mp : Metaparam D) (st : BidirStamp D) (q : Bool) (E : D)
    (s : AlgoState D) : Emits P (processThetahatFull mp st q E s) := by
  refine Emits.bind (counterDiff_emits hdiff _ _) fun _ =>
    Emits.bind (fullLoop_emits hfind hdiff hpt _ _ _ _ _ _) fun _ =>
    Emits.bind ?_ fun _ => Emits.bind (counterDiff_emits hdiff _ _) fun _ =>
    Emits.bind (historyGet_emits hfind _ _) fun _ => Emits.pure
  exact secondLoop_emits hfind hdiff (fun _ => hpt) _ _ _ _ _ _ _

end Points

end Diffs

end Emits

end RADclock
