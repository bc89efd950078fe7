import RADclock.Daemon.Capacity
import RADclock.Sync.Minima
import RADclock.Sync.Tuning

/-!
# Upshifts and the offset window

After an upshift `RTThat` is the minimum of the shift window, so it lies above the RTTs before that
window. The first loop of `process_thetahat_full` takes each point error against the estimate
recorded with the packet. The second loop, for the second best error, takes it against the current
`RTThat`: where the offset window reaches back further than the shift window, it meets packets whose
RTT lies below.

- `inOrder_of_offset_le`: the minima are in order after every stamp of the full phase, and with an
  offset window no longer than the shift window no point error is negative.
- `run_upshift`: an upshift, seen by a longer offset window. The threshold for upshifts follows from
  the period at the end of warmup, which is the initial one where the server's clock stands still.
-/

namespace RADclock

open Lib Lib.Exec Arith

/-! ## The minima in order -/

section InOrder

variable {D : Type}

/-- The minima after stamp `i` of the stamps `F`. -/
structure InOrder (F : Nat → BidirStamp D) (i : Nat) (s : AlgoState D) : Prop where
  shiftMin : MinRTT F s.win.shiftEnd i s.rtt.RTThatShift
  hat_le : s.rtt.RTThat ≤ s.rtt.RTThatShift
  shift_le : s.rtt.RTThatShift ≤ rttOf F i
  next_le : s.rtt.nextRTThat ≤ rttOf F i
  hats : ∀ j, s.hist.RTThat.Has j → s.hist.RTT.Has j → s.hist.RTThat.item j ≤ s.hist.RTT.item j

variable [Arith D] {F : Nat → BidirStamp D} {n : Nat} {s : AlgoState D} {P : Event D → Prop}
  {conf : Config D}

theorem FullMinima.inOrder (h : FullMinima P F (n + 1) s) : InOrder F n s := by
  obtain ⟨since, hm, hs⟩ := h.minima
  have hfull : Full F (n + 1) (n + 1) (n + 1) (n + 1) s := by
    rcases h.inv.phase with ⟨-, hlt⟩ | ⟨hf, -⟩
    · exact absurd h.full (Nat.not_le.mpr hlt)
    · exact hf
  obtain ⟨hats, hh, hle⟩ := hm.hats
  have hshift := hm.shift
  have hsw := hfull.win.shift
  have hsince := hs.since_lt
  refine ⟨hm.shiftMin, hm.le_shift, hm.shiftMin.le (by omega) (Nat.le_refl n),
    hm.next n (by omega) (Nat.lt_succ_self n), fun j hj hj' => ?_⟩
  obtain ⟨hlt, hhat⟩ := hh.item_eq hj
  rw [hhat, (hfull.rtts.item_eq hj').2]
  exact hle j hlt

/-- **The minima of the RTT are in order** after every stamp of the full phase, along every run
under one configuration that leaves the shift window room; and no point error is negative, when the
offset window is no longer than the shift window. -/
theorem inOrder_of_offset_le (hupd : conf.algoUpdate = false)
    (hcap : (startWindows conf).shiftWin + 2 ≤ histSz (startWindows conf).warmupWin)
    (inps : List (Input D)) :
    (∀ s, (run (under conf inps)).res = some s → s.win.warmupWin < inps.length →
      InOrder (stampsOf (under conf inps)) (inps.length - 1) s) ∧
    ((startWindows conf).offsetWin ≤ (startWindows conf).shiftWin →
      ∀ e ∈ (run (under conf inps)).log, e.ErrNonneg) ∧
    ((startWindows conf).warmupWin < 2 ^ 32 → (run (under conf inps)).res.isSome) := by
  cases inps with
  | nil =>
    exact ⟨fun s _ hlt => absurd hlt (Nat.not_lt_zero _), fun _ e he => (nomatch he), fun _ => rfl⟩
  | cons inp inps =>
    refine ⟨fun s hs hlt => ?_, fun hoff => ?_, fun hsz => ?_⟩
    · have hrun := run_minima points_any ⟨hcap, Or.inr fun _ _ => True.intro⟩ hupd inp inps
        (follows_stampsOf _)
      rw [List.length_cons] at hlt ⊢
      rcases hrun.res hs with h | h
      · have hmore := h.more
        rw [← h.win] at hmore
        omega
      · rw [Nat.add_comm] at h
        exact h.inOrder
    · exact (run_minima points_errNonneg ⟨hcap, Or.inl hoff⟩ hupd inp inps
        (follows_stampsOf _)).emits
    · have hroom := Nat.le_trans hcap (Nat.mod_le _ _)
      obtain ⟨s, hs, -⟩ := (run_held hupd hsz hroom inp inps (follows_stampsOf _)).exists_res
      exact hs ▸ rfl

theorem inOrder_default :
    (startWindows defaults).offsetWin ≤ (startWindows defaults).shiftWin ∧
      ∀ e ∈ (run (under defaults (inputsOf steady 1000))).log, e.ErrNonneg := by
  have hoff : (startWindows defaults).offsetWin ≤ (startWindows defaults).shiftWin := by
    decide +kernel
  exact ⟨hoff, (inOrder_of_offset_le (by decide) (by decide +kernel) _).2.1 hoff⟩

end InOrder

/-! ## An upshift, seen by the offset window -/

section Upshift

variable {D : Type} [Arith D] {F : Nat → BidirStamp D} {since n : Nat} {s : AlgoState D}
  {mp : Metaparam D} {z : HistSizes} {lo hi : VCounter}

/-- Once upshifts have been looked for, `RTThat` is the minimum of the shift window, or that is not
far enough above. -/
theorem processRTTFull_settles (RTT : VCounter) (s : AlgoState D) :
    Returns (processRTTFull RTT s) (fun s' => s'.rtt.RTThat = s'.rtt.RTThatShift ∨
      s'.rtt.RTThat = min s.rtt.RTThat RTT ∧
        ¬ s'.rtt.RTThat + s.rtt.RTThatShiftThres < s'.rtt.RTThatShift) := by
  refine Returns.bind (updateRTTShift_frame RTT (updateRTTMinima RTT s)) ?_
  rintro s1 ⟨v, e, rfl⟩
  refine Returns.ite (fun _ => Returns.skip fun h => Returns.pure ?_) fun hnot => Returns.pure ?_
  · obtain ⟨perr, nhat, heq⟩ := recalcNextPstamp_frame (adoptShift
      { updateRTTMinima RTT s with
        rtt := { (updateRTTMinima RTT s).rtt with RTThatShift := v }
        win := { (updateRTTMinima RTT s).win with shiftEnd := e } })
    rw [heq]
    exact Or.inl rfl
  · exact Or.inr ⟨rfl, hnot⟩

/-- RTTs that have gone up from `lo` to `hi` by the time stamp `n` is processed: packets `k` and
`k + 1` are the last before the shift window. -/
structure Shifted (F : Nat → BidirStamp D) (lo hi : VCounter) (w n k : Nat) : Prop where
  at_k : k + 1 + w = n
  pos : 0 < k
  before : rttOf F k = lo ∧ rttOf F (k + 1) = lo
  after : ∀ j, k + 1 < j → j ≤ n → rttOf F j = hi

omit [Arith D] in
/-- The sum does not wrap around. -/
theorem add_lt_of_le {hat thres : VCounter} (hle : hat ≤ lo)
    (hlt : lo.toNat + thres.toNat < hi.toNat) : hat + thres < hi := by
  have hhat : hat.toNat ≤ lo.toNat := UInt64.le_iff_toNat_le.mp hle
  have hmax := hi.toNat_lt
  rw [UInt64.lt_iff_toNat_lt, UInt64.toNat_add, Nat.mod_eq_of_lt (by omega)]
  omega

/-- An upshift is detected when the last of the low RTTs has left the shift window. -/
theorem processRTTFull_upshift {k : Nat} (hat : At F n s) (h : Full F (n + 1) (n + 1) n n s)
    (hm : Minima F since n s) (hs : Schedule since (n + 1) s)
    (hF : Shifted F lo hi s.win.shiftWin n k)
    (hlt : lo.toNat + s.rtt.RTThatShiftThres.toNat < hi.toNat) :
    Returns (processRTTFull (F n).RTT s) (fun s' => s'.rtt.RTThat = hi) := by
  have hsw := h.win.shift
  have hshift := hm.shift
  have hk := hF.at_k
  have hlow : s.rtt.RTThat ≤ lo := by
    rw [← hF.before.2]
    exact hm.hat_le (by omega) (by omega)
  refine (((processRTTFull_minima points_any hat h hm hs).returns.and
    (processRTTFull_frame _ _)).and (processRTTFull_settles _ _)).mono ?_
  rintro s' ⟨⟨⟨-, hm', -⟩, rtt, e, perr, nhat, h', stt, rfl⟩, hcase⟩
  have hend := hm'.shift
  change e + s.win.shiftWin = n + 1 at hend
  have hmin : rtt.RTThatShift = hi := by
    obtain ⟨j, hj1, hj2, hj⟩ := (minRTT_iff.mp hm'.shiftMin).1
    change e ≤ j at hj1
    change rtt.RTThatShift = rttOf F j at hj
    rw [hj]
    exact hF.after j (by omega) hj2
  rcases hcase with heq | ⟨heq, hnot⟩
  · exact heq.trans hmin
  · refine absurd (add_lt_of_le ?_ hlt) (hmin ▸ hnot)
    rw [heq]
    exact UInt64.le_trans (minVC_le_left _ _) hlow

/-- The second loop emits the point errors of all packets of the window but the best. -/
theorem secondLoop_points {st : BidirStamp D} {jbest jmin k : Nat}
    (hS : Holds F (n + 1) s.hist.stamp) (hR : Holds (rttOf F) (n + 1) s.hist.RTT)
    (hk : jmin ≤ k) (hpos : 0 < k) (hne : k ≠ jbest) :
    ∀ (j : Nat) (e : D), k ≤ j → j ≤ n →
      Surely (.pointErr (rttOf F k) s.rtt.RTThat)
        (secondLoop true mp s st jbest jmin j e) := by
  intro j
  induction j with
  | zero => exact fun e hkj => absurd hkj (by omega)
  | succ j ih =>
    intro e hkj hj
    refine Surely.ite (fun hlt => absurd hlt (by omega)) fun _ => ?_
    refine Surely.ite (fun hbest => ih e (by omega) (by omega)) fun _ => ?_
    have hread := (rttAndStamp_sat hj hS hR (points_any.okFrom s.hist.stamp 0 (n + 1) _
      (Nat.zero_le _) (by omega)) (points_any.okFrom s.hist.RTT 0 (n + 1) _
      (Nat.zero_le _) (by omega))).returns
    refine Surely.right hread fun p hp => ?_
    subst hp
    by_cases hkj' : k = j + 1
    · subst hkj'
      exact Surely.left (Surely.emit _)
    · exact Surely.skip fun _ => Surely.skip fun _ => ih _ (by omega) (by omega)

/-- Of two neighbours of the same RTT, the second loop takes one at least. -/
theorem processThetahatFull_points {k : Nat} (hat : At F n s)
    (h : Full F (n + 1) (n + 1) (n + 1) (n + 1) s)
    (hk : fullJmin (recordTheta (naiveTheta s (F n)) s) ≤ k) (hpos : 0 < k) (hkn : k + 1 ≤ n)
    (h1 : rttOf F k = lo) (h2 : rttOf F (k + 1) = lo) (q : Bool) (E : D) :
    Surely (.pointErr lo s.rtt.RTThat) (processThetahatFull mp (F n) q E s) := by
  refine Surely.skip fun d0 => Surely.skip fun a => Surely.left ?_
  have hsi : (stepTransition (recordTheta (naiveTheta s (F n)) s)).si = n := hat.si
  rw [hsi]
  by_cases hbest : k = a.jbest
  · rw [← h2]
    exact secondLoop_points (s := stepTransition (recordTheta (naiveTheta s (F n)) s)) h.stamps
      h.rtts (by omega) (by omega) (by omega) n _ hkn (Nat.le_refl n)
  · rw [← h1]
    exact secondLoop_points (s := stepTransition (recordTheta (naiveTheta s (F n)) s)) h.stamps
      h.rtts hk hpos hbest n _ (by omega) (Nat.le_refl n)

/-- A longer offset window reaches packets from before the upshift. -/
theorem fullJmin_upshift {k : Nat} (hsi : s.si = n) (hw : WinOk s.win)
    (hst : FullStock z (n + 1) (n + 1) n (n + 1) s) (htr : s.poll.pollTransitionTh = 0)
    (hk : n + 1 ≤ k + s.win.offsetWin) (hpos : 0 < k) (hz : n + 1 ≤ k + z.RTThat)
    (hz1 : n + 1 ≤ k + z.stamp) (hz2 : n + 1 ≤ k + z.RTT) (hz3 : n + 1 ≤ k + z.thnaive)
    (hkn : k ≤ n) (th : D) : fullJmin (recordTheta th s) ≤ k := by
  have hoff := hw.offset
  have hwin : thetaWin s = s.win.offsetWin := by
    unfold thetaWin
    rw [htr]
    exact if_neg (Nat.lt_irrefl 0)
  rw [fullJmin_stock hsi hst (by omega), hwin, htr, if_neg (Nat.lt_irrefl 0)]
  unfold safeJmin
  rw [wsub_of_le (show 1 ≤ s.win.offsetWin by omega)]
  split <;> omega

/-- The shift window does not see an upshift, and the offset window does. -/
theorem fullPhase_upshift {k W : Nat} (hat : At F n s) (h : Full F (n + 1) (n + 1) n n s)
    (hst : FullStock (evenSizes W) (n + 1) n n n s) (hm : Minima F since n s)
    (hs : Schedule since n s) (hoff : s.win.shiftWin + 2 ≤ s.win.offsetWin)
    (hW : s.win.offsetWin ≤ W) (hF : Shifted F lo hi s.win.shiftWin n k)
    (hlt : lo.toNat + s.rtt.RTThatShiftThres.toNat < hi.toNat) (inp : Input D)
    (hinp : inp.stamp = F n) : Surely (.pointErr lo hi) (fullPhase mp inp s) := by
  have hany := accepts_any (D := D) F n
  have hk := hF.at_k
  unfold fullPhase
  rw [hinp]
  -- algorithm by algorithm up to the offset: the histories, the minima and the window sizes
  refine Surely.right (((manageHistorywin_minima points_any hat h hm hs _).returns.and
    (manageHistorywin_held hat h hst _).returns).and
    (manageHistorywin_retunes _ _)) ?_
  rintro s1 ⟨⟨⟨⟨hat1, -, h1⟩, since', hm1, hs1⟩, -, hst1⟩, ⟨-, hlen1, -⟩, hthres⟩
  refine Surely.right ((((processRTTFull_minima points_any hat1 h1 hm1 hs1).returns.and
    (processRTTFull_held hat1 h1 hst1).returns).and
    (processRTTFull_upshift hat1 h1 hm1 hs1 (hlen1.shiftWin ▸ hF) (hthres ▸ hlt))).and
    (processRTTFull_frame _ _)) ?_
  rintro s2 ⟨⟨⟨⟨⟨hat2, -, h2⟩, hm2, hs2⟩, -, hst2⟩, hhi⟩, rtt, e, perr, nhat, h', stt, rfl⟩
  refine Surely.right ((processOWDAsymFull_held hat2 h2 hst2 _).returns.and
    (processOWDAsymFull_same _)) ?_
  rintro s3 ⟨⟨⟨hat3, -, h3⟩, hst3⟩, hc3⟩
  refine Surely.right ((updateNextPstamp_held hat3 h3 hst3 _).returns.and
    (updateNextPstamp_same _ _)) ?_
  rintro s4 ⟨⟨⟨hat4, -, h4⟩, hst4⟩, hc4⟩
  refine Surely.right ((processPhatFull_held hat4 h4 hst4 _ _).returns.and
    (processPhatFull_same _ _ _)) ?_
  rintro s5 ⟨⟨⟨hat5, -, h5⟩, hst5⟩, hc5⟩
  refine Surely.right ((processPlocalFull_held hat5 h5 hst5 _).returns.and
    (processPlocalFull_same _)) ?_
  rintro s6 ⟨⟨⟨hat6, -, h6⟩, hst6⟩, hc6⟩
  have hs6 := (((hs2.congr hc3).congr hc4).congr hc5).congr hc6
  have hoff6 : s6.win.offsetWin = s.win.offsetWin := by
    rw [hc6.offsetWin, hc5.offsetWin, hc4.offsetWin, hc3.offsetWin]
    exact hlen1.offsetWin
  have hhi6 : s6.rtt.RTThat = hi := by
    rw [hc6.rtt, hc5.rtt, hc4.rtt, hc3.rtt]
    exact hhi
  -- the offset window reaches back before the shift
  have hjmin := fullJmin_upshift (k := k) hat6.si h6.win hst6 hs6.noTransition (by omega) hF.pos
    (show n + 1 ≤ k + W by omega) (show n + 1 ≤ k + W by omega) (show n + 1 ≤ k + W by omega)
    (show n + 1 ≤ k + W by omega) (by omega) (naiveTheta s6 (F n))
  -- its first packet has the low round trip, and RTThat is the high one already
  refine Surely.left ?_
  rw [← hhi6]
  exact processThetahatFull_points hat6 h6 hjmin hF.pos (by omega) hF.before.1 hF.before.2 _ _

end Upshift

/-! ## A server whose clock stands still -/

section Still

variable {D : Type} [Arith D] {F : Nat → BidirStamp D} {n : Nat} {s : AlgoState D}
  {mp : Metaparam D} {w : Windows} {conf : Config D} {T : VCounter}

/-- No pair of stamps gives a period. -/
structure Still (F : Nat → BidirStamp D) : Prop where
  Tb : ∀ i j, (F i).Tb - (F j).Tb ≤ 0
  zero : ((0 : D) == 0) = true

theorem computePhat_still (hF : Still F) (i j : Nat) :
    Returns (computePhat (F i) (F j)) (fun phat => phat = 0) :=
  Returns.skip fun _ => Returns.skip fun _ =>
    Returns.ite (fun _ => Returns.pure rfl) fun hno => absurd (Or.inr (Or.inl (hF.Tb j i))) hno

/-- Warmup stays with the period and the clock it starts with. -/
theorem processPhatWarmup_still (hF : Still F) (hat : At F n s)
    (h : Warm F (n + 1) (n + 1) n s) :
    Returns (processPhatWarmup (rttOf F n) s) (fun s' => s'.osc = s.osc ∧ s'.off = s.off) := by
  have hokR : OkFrom (D := D) (fun _ => True) True s.hist.RTT 0 (n + 1) := points_any.okFrom _ _ _
  have hokS : OkFrom (D := D) (fun _ => True) True s.hist.stamp 0 (n + 1) :=
    points_any.okFrom _ _ _
  refine Returns.bind (warmupEnds_sat hat.pos hat.si h.rtts h.ends hokR).returns fun e he => ?_
  have hpos := hat.pos
  have hlt := he.far_lt_near (by omega)
  have hnear : e.nearI ≤ n := he.near.right
  refine Returns.bind (historyGet2_sat h.stamps (show e.nearI < n + 1 by omega)
    (show e.farI < n + 1 by omega) (hokS _ (Nat.zero_le _) (by omega))
    (hokS _ (Nat.zero_le _) (by omega))).returns fun st hst => ?_
  subst hst
  refine Returns.bind (computePhat_still hF _ _) fun phat hphat => ?_
  subst hphat
  exact Returns.ite (fun _ => Returns.pure ⟨rfl, rfl⟩) fun hno => absurd hF.zero hno

theorem warmupAlgos_still (hF : Still F) (hat : At F n s) (h : Warm F (n + 1) (n + 1) n s) :
    Returns (warmupAlgos mp (F n) s) (fun s' =>
      s'.osc.phat = s.osc.phat ∧ s'.thres = s.thres) := by
  obtain ⟨hat0, -, h0⟩ := warmupPath_keeps hat h _ rfl
  obtain ⟨i, owd, Df, Db, -, hpath⟩ := warmupPath_frame (F n) (F n).RTT s
  have hphat := processPhatWarmup_still hF hat0 h0
  unfold warmupAlgos
  rw [hpath] at hphat ⊢
  refine Returns.bind (hphat.and (processPhatWarmup_frame _ _)) ?_
  rintro s1 ⟨⟨hsame, -⟩, ends, K, phat, perr, rfl⟩
  refine Returns.bind (processThetahatWarmup_frame _ _ _) ?_
  rintro s2 ⟨t, off, bound, stt, out, rfl, -⟩
  obtain ⟨out', stt', hfin⟩ := finishWarmup_frame mp
    { copyPhat _ with
      hist := _, poll := _, off := off, err := _, status := stt, output := out }
  refine Returns.pure ?_
  rw [hfin]
  exact ⟨congrArg Osc.phat hsame, rfl⟩

/-- A bound on the threshold for upshifts that `parameters_calibration` derives. -/
structure Calibrates (Eshift phat : D) (T : VCounter) : Prop where
  near : UInt64.ofNat (toNat (ceil (Eshift / phat))) ≤ T
  far : UInt64.ofNat (toNat (ceil (3.0 * Eshift / phat))) ≤ T

theorem initFull_calibrates (hT : Calibrates s.thres.Eshift s.osc.phat T) (st : BidirStamp D) :
    Returns (initFull st s) (fun s' => s'.rtt.RTThatShiftThres ≤ T ∧ SameLengths s.win s'.win) := by
  refine Returns.bind (initRTTOWDAsymFull_frame _) ?_
  rintro s1 ⟨r, f, b, rfl⟩
  refine Returns.bind (initPhatFull_frame _) ?_
  rintro s2 ⟨stamp, perr, rfl⟩
  refine Returns.bind (initPlocalFull_frame _) ?_
  rintro s3 ⟨e, ends, ploc, rfl⟩
  refine Returns.pure ⟨?_, rfl, rfl, rfl, rfl, rfl⟩
  show (if _ then UInt64.ofNat (toNat (ceil (s.thres.Eshift / s.osc.phat)))
    else UInt64.ofNat (toNat (ceil (3.0 * s.thres.Eshift / s.osc.phat)))) ≤ T
  split
  · exact hT.near
  · exact hT.far

/-- Warmup ends with a threshold from the period it started with. -/
theorem warmupPhase_still (hF : Still F) (hat : At F n s) (h : Warm F (n + 1) (n + 1) n s)
    (hW : n < s.win.warmupWin) (hT : Calibrates s.thres.Eshift s.osc.phat T) :
    Returns (warmupPhase mp (F n) s) (fun s' => SameLengths s.win s'.win ∧
      (n + 1 < s.win.warmupWin → s'.osc.phat = s.osc.phat ∧ s'.thres = s.thres) ∧
      (s.win.warmupWin ≤ n + 1 → s'.rtt.RTThatShiftThres ≤ T)) := by
  refine Returns.bind ((warmupAlgos_keeps (accepts_any F n) hat h).returns.and
    (warmupAlgos_still hF hat h)) ?_
  rintro s1 ⟨⟨hat1, hw1, -⟩, hphat, hthres⟩
  have hpred : wsub s1.win.warmupWin 1 = s.win.warmupWin - 1 := by
    rw [hw1]
    exact wsub_of_le (by omega)
  refine Returns.ite (fun hlast => ?_) fun hmore => ?_
  · rw [hat1.si, hpred] at hlast
    refine (initFull_calibrates (T := T) (by rw [hthres, hphat]; exact hT) _).mono ?_
    rintro s2 ⟨hle, hsame⟩
    rw [hw1] at hsame
    exact ⟨hsame, fun hlt => absurd hlt (by omega), fun _ => hle⟩
  · rw [hat1.si, hpred] at hmore
    exact Returns.pure ⟨hw1 ▸ SameLengths.refl _, fun _ => ⟨hphat, hthres⟩,
      fun hle => absurd hle (by omega)⟩

/-- The last statements of a call leave the oscillator and the thresholds alone as well. -/
theorem finish_params (st : BidirStamp D) :
    Returns (do
      let s ← updateErrors mp st (copyStamp st s)
      pure (fillOutput st.RTT s)) (fun s' => s'.win = s.win ∧ s'.rtt = s.rtt ∧
        s'.osc = s.osc ∧ s'.thres = s.thres) := by
  obtain ⟨stats, hcopy⟩ := copyStamp_frame st s
  rw [hcopy]
  refine Returns.bind (updateErrors_frame _ _ _) ?_
  rintro s1 ⟨err, rfl⟩
  exact Returns.pure ⟨rfl, rfl, rfl, rfl⟩

/-- The windows of a run, and its threshold for upshifts. -/
structure StillRun (conf : Config D) (T : VCounter) (n : Nat) (s : AlgoState D) : Prop where
  shiftWin : s.win.shiftWin = (startWindows conf).shiftWin
  offsetWin : s.win.offsetWin = (startWindows conf).offsetWin
  warmup : n < s.win.warmupWin →
    s.osc.phat = conf.phatInit ∧ s.thres.Eshift = 10.0 * conf.metaparam.TSLIMIT
  full : s.win.warmupWin ≤ n → s.rtt.RTThatShiftThres ≤ T

theorem RADalgoBidir_still (hF : Still F)
    (hT : Calibrates (10.0 * conf.metaparam.TSLIMIT) conf.phatInit T) (inp : Input D)
    (hinp : inp.stamp = F n) (hupd : conf.algoUpdate = false) (hinv : Inv F n s)
    (h : StillRun conf T n s) : Returns (RADalgoBidir conf inp s) (StillRun conf T (n + 1)) := by
  have hat := hinv.next_at
  have hat' : At F n (recordStamp (F n) { s with stampI := s.stampI + 1 }) :=
    ⟨hat.pos, hat.idx, hat.last⟩
  rw [RADalgoBidir_noUpdate conf inp hinv hupd, hinp]
  -- one step of the run, in the warmup and after it
  rcases hinv.phase with ⟨hwarm, hlt⟩ | ⟨-, hge⟩
  · have hcore : Core F n n { s with stampI := s.stampI + 1 } :=
      ⟨hwarm.stamps, hwarm.rtts, hwarm.theta⟩
    have hwarm' : Warm F (n + 1) (n + 1) n
        (recordStamp (F n) { s with stampI := s.stampI + 1 }) :=
      ⟨hcore.record hat, hwarm.win, hwarm.ends, Nat.lt_succ_of_lt hwarm.pstampI, hwarm.noHats,
        hwarm.fresh⟩
    obtain ⟨hphat, hthres⟩ := h.warmup hlt
    rw [phases_warm conf inp hat' hlt, hinp]
    have hT' : Calibrates s.thres.Eshift s.osc.phat T := by
      rw [hphat, hthres]
      exact hT
    refine Returns.bind (warmupPhase_still hF hat' hwarm' hlt hT') ?_
    rintro s1 ⟨hw1, hmore1, hlast1⟩
    refine (finish_params _).mono ?_
    rintro s2 ⟨hwin, hrtt, hosc, hth⟩
    refine ⟨?_, ?_, fun hlt' => ?_, fun hle' => ?_⟩
    · rw [hwin, hw1.shiftWin]
      exact h.shiftWin
    · rw [hwin, hw1.offsetWin]
      exact h.offsetWin
    · rw [hwin, hw1.warmupWin] at hlt'
      rw [hosc, hth, (hmore1 hlt').1, (hmore1 hlt').2]
      exact ⟨hphat, hthres⟩
    · rw [hwin, hw1.warmupWin] at hle'
      rw [hrtt]
      exact hlast1 hle'
  · rw [phases_full conf inp hat' hge]
    refine Returns.bind (fullPhase_retunes inp) ?_
    rintro s1 ⟨⟨-, hw1, -⟩, ht1⟩
    refine (finish_params _).mono ?_
    rintro s2 ⟨hwin, hrtt, -, -⟩
    refine ⟨?_, ?_, fun hlt => ?_, fun _ => ?_⟩
    · rw [hwin, hw1.shiftWin]
      exact h.shiftWin
    · rw [hwin, hw1.offsetWin]
      exact h.offsetWin
    · rw [hwin, hw1.warmupWin] at hlt
      exact absurd hlt (Nat.not_lt.mpr (Nat.le_succ_of_le hge))
    · rw [hrtt, ht1]
      exact h.full hge

theorem RADalgoBidir_firstStill (conf : Config D) (inp : Input D)
    (hupd : conf.algoUpdate = false) :
    Returns (RADalgoBidir conf inp AlgoState.zero) (StillRun conf T 1) := by
  have hW := (startWindows_ok conf).hundred
  have hcall : RADalgoBidir conf inp AlgoState.zero = (do
      let s ← updateErrors conf.metaparam inp.stamp (copyStamp inp.stamp (initPhase conf inp.stamp
        (recordStamp inp.stamp (nextStamp conf AlgoState.zero))))
      pure (fillOutput inp.stamp.RTT s)) := by
    unfold RADalgoBidir reactToUpdate
    rw [hupd]
    rfl
  rw [hcall]
  refine (finish_params _).mono ?_
  rintro s ⟨hwin, -, hosc, hth⟩
  refine ⟨hwin ▸ rfl, hwin ▸ rfl, fun _ => ⟨hosc ▸ rfl, hth ▸ rfl⟩, fun hle => ?_⟩
  rw [hwin] at hle
  change (startWindows conf).warmupWin ≤ 1 at hle
  omega

/-- The invariants of this development, put together. -/
structure UpRun (F : Nat → BidirStamp D) (conf : Config D) (T : VCounter) (n : Nat)
    (s : AlgoState D) : Prop where
  held : InRun F (startWindows conf) n s
  minima : MinRun (fun _ => True) F (startWindows conf) n s
  still : StillRun conf T n s

omit [Arith D] in
theorem UpRun.inv [Arith D] (h : UpRun F conf T n s) : Inv F n s := by
  rcases h.held with h | h
  · exact h.inv
  · exact h.inv

/-- Stamps of a server whose clock stands still: the threshold is that of the initial period. -/
theorem run_upRun (hF : Still F) (hupd : conf.algoUpdate = false)
    (hsz : (startWindows conf).warmupWin < 2 ^ 32)
    (hroom : (startWindows conf).shiftWin + 2 ≤ (startWindows conf).warmupWin)
    (hT : Calibrates (10.0 * conf.metaparam.TSLIMIT) conf.phatInit T) (inp : Input D)
    (inps : List (Input D)) (hf : Follows F 0 (under conf (inp :: inps))) :
    Returns (run (under conf (inp :: inps))) (UpRun F conf T (1 + inps.length)) := by
  have hw : RoomFor (D := D) (fun _ => True) (startWindows conf) :=
    ⟨by rw [histSz, Nat.mod_eq_of_lt hsz]; exact hroom, Or.inr fun _ _ => True.intro⟩
  refine Returns.bind (((RADalgoBidir_first conf inp hf.head hupd hsz).returns.and
    (RADalgoBidir_firstMinima points_any conf inp hf.head hupd).returns).and
    (RADalgoBidir_firstStill (T := T) conf inp hupd)) ?_
  rintro s1 ⟨⟨h1, h2⟩, h3⟩
  have hrun := runFrom_sat (P := fun _ => True) (H := True) (I := UpRun F conf T)
    (under conf inps) 1 s1 ⟨Or.inl h1, Or.inl h2, h3⟩ fun k c s' hk h' => by
      obtain ⟨inp', -, rfl⟩ := List.mem_map.mp (List.mem_of_getElem? hk)
      have hinp := hf.tail k _ hk
      have hmin : Returns (RADalgoBidir conf inp' s')
          (MinRun (fun _ => True) F (startWindows conf) (1 + k + 1)) := by
        rcases h'.minima with hm | hm
        · exact (RADalgoBidir_warmMinima points_any hw conf inp' hinp hupd hm).returns
        · exact (RADalgoBidir_fullMinima points_any conf inp' hinp hupd hm).returns.mono
            fun _ h'' => Or.inr h''
      refine Sat.of_returns (fun _ _ => True.intro)
        ((((RADalgoBidir_inRun (startWindows_ok conf) hroom hupd inp' hinp h'.held).returns.and
          hmin).and (RADalgoBidir_still hF hT inp' hinp hupd h'.inv h'.still)).mono ?_)
      rintro s'' ⟨⟨ha, hb⟩, hc⟩
      exact ⟨ha, hb, hc⟩
  rw [under, List.length_map] at hrun
  exact hrun.returns

/-- The stamp at which the upshift is detected. -/
theorem RADalgoBidir_upshift {lo hi : VCounter} {k : Nat} (inp : Input D) (hinp : inp.stamp = F n)
    (hupd : conf.algoUpdate = false) (h : UpRun F conf T n s)
    (hn : (startWindows conf).warmupWin ≤ n)
    (hoff : (startWindows conf).shiftWin + 2 ≤ (startWindows conf).offsetWin)
    (hF : Shifted F lo hi (startWindows conf).shiftWin n k)
    (hlt : lo.toNat + T.toNat < hi.toNat) :
    Surely (.pointErr lo hi) (RADalgoBidir conf inp s) := by
  -- the call is one of the full phase
  have hheld : InFull F (evenSizes (startWindows conf).warmupWin) n s := by
    rcases h.held with hw | hf
    · exact absurd hw.more (Nat.not_lt.mpr hn)
    · exact hf
  obtain ⟨since, hm, hs⟩ : ∃ since, Minima F since n s ∧ Schedule since n s := by
    rcases h.minima with hw | hf
    · exact absurd hw.more (Nat.not_lt.mpr hn)
    · exact hf.minima
  obtain ⟨hat, hfull, hst⟩ := hheld.next
  have hsame : SameMinima s (recordStamp (F n) { s with stampI := s.stampI + 1 }) :=
    ⟨rfl, rfl, rfl, rfl, rfl, rfl, rfl, Nat.le_refl _⟩
  have hat' : At F n (recordStamp (F n) { s with stampI := s.stampI + 1 }) :=
    ⟨hat.pos, hat.idx, hat.last⟩
  have hst' : FullStock (evenSizes (startWindows conf).warmupWin) (n + 1) n n n
      (recordStamp (F n) { s with stampI := s.stampI + 1 }) := by
    refine ⟨?_, hst.fits, hst.shift, hst.shiftOWD⟩
    show Stock _ _ _ _ _ { s.hist with
      RTT := historyAdd s.hist.RTT (AlgoState.si { s with stampI := s.stampI + 1 }) (F n).RTT
      stamp := historyAdd s.hist.stamp (AlgoState.si { s with stampI := s.stampI + 1 }) (F n) }
    rw [hat.si]
    exact hst.stock.record _
  -- the threshold in force is the one the shape was measured by
  have hthres : s.rtt.RTThatShiftThres.toNat ≤ T.toNat :=
    UInt64.le_iff_toNat_le.mp (h.still.full hheld.full)
  have hwarm := (startWindows_ok conf).offset_le
  rw [RADalgoBidir_noUpdate conf inp h.inv hupd, hinp, phases_full conf inp hat' hheld.full]
  refine Surely.left (fullPhase_upshift (k := k) hat' ⟨hfull.toCore.record hat, hfull.win,
    hfull.reach, hfull.ends, hfull.pstamp.mono (Nat.le_succ n), hfull.next.mono (Nat.le_succ n),
    hfull.hats⟩ hst' (hm.congr hsame) (hs.congr hsame) ?_ ?_ ?_ ?_ inp hinp)
  · show s.win.shiftWin + 2 ≤ s.win.offsetWin
    rw [h.still.shiftWin, h.still.offsetWin]
    exact hoff
  · show s.win.offsetWin ≤ _
    rw [h.still.offsetWin]
    exact hwarm
  · show Shifted F lo hi s.win.shiftWin n k
    rw [h.still.shiftWin]
    exact hF
  · show lo.toNat + s.rtt.RTThatShiftThres.toNat < hi.toNat
    omega

/-- A negative point error, in a run up to the stamp at which an upshift is detected. -/
theorem run_upshift {lo hi : VCounter} {k : Nat} (hF : Still F)
    (hupd : conf.algoUpdate = false) (hsz : (startWindows conf).warmupWin < 2 ^ 32)
    (hroom : (startWindows conf).shiftWin + 2 ≤ (startWindows conf).warmupWin)
    (hT : Calibrates (10.0 * conf.metaparam.TSLIMIT) conf.phatInit T)
    (hn : (startWindows conf).warmupWin ≤ n)
    (hoff : (startWindows conf).shiftWin + 2 ≤ (startWindows conf).offsetWin)
    (hshift : Shifted F lo hi (startWindows conf).shiftWin n k)
    (hlt : lo.toNat + T.toNat < hi.toNat) :
    Event.pointErr lo hi ∈ (run (under conf (inputsOf F (n + 1)))).log := by
  have hW := (startWindows_ok conf).hundred
  obtain ⟨inp, inps, hcons⟩ : ∃ inp inps, inputsOf F n = inp :: inps := by
    cases hl : inputsOf F n with
    | nil =>
      have hlen := congrArg List.length hl
      simp only [inputsOf, List.length_map, List.length_range, List.length_nil] at hlen
      omega
    | cons inp inps => exact ⟨inp, inps, rfl⟩
  have hlen : 1 + inps.length = n := by
    have hlen := congrArg List.length hcons
    simp only [inputsOf, List.length_map, List.length_range, List.length_cons] at hlen
    omega
  -- the run up to stamp n, then the call of the shifted stamp
  have hsplit : inputsOf F (n + 1) = (inp :: inps) ++ [⟨F n, false, 0⟩] := by
    rw [← hcons, inputsOf, List.range_succ, List.map_append]
    rfl
  have hf : Follows F 0 (under conf (inputsOf F n)) := follows_inputsOf F n
  rw [hcons] at hf
  have hfall : Follows F 0 (under conf (inputsOf F (n + 1))) := follows_inputsOf F (n + 1)
  obtain ⟨s, hs, -⟩ : ∃ s, (run (under conf (inputsOf F (n + 1)))).res = some s ∧ True := by
    rw [hsplit] at hfall ⊢
    obtain ⟨s, hs, -⟩ := (run_held hupd hsz hroom inp (inps ++ [⟨F n, false, 0⟩]) hfall).exists_res
    exact ⟨s, hs, True.intro⟩
  have hsure : Surely (.pointErr lo hi) (run (under conf (inputsOf F (n + 1)))) := by
    rw [hsplit, under, List.map_append, run, runFrom_append]
    -- the call makes the error from every state that run can end in
    refine Surely.right (run_upRun hF hupd hsz hroom hT inp inps hf) fun s' hs' => ?_
    rw [hlen] at hs'
    exact Surely.left (RADalgoBidir_upshift _ rfl hupd hs' hn hoff hshift hlt)
  exact hsure s hs

end Still

/-! ## A tight limit on timestamping latency -/

/-- The defaults with a microsecond as `ts_limit`, at a polling period of 8 seconds. -/
def tight : Config Float :=
  { (pollEvery 3 : Config Float) with
    metaparam := { (defaultMetaparam : Metaparam Float) with TSLIMIT := 1e-6 } }

/-- Stamps whose RTT is a microsecond, and a millisecond from stamp 960 on. -/
def rerouted (k : Nat) : BidirStamp Float where
  Ta := UInt64.ofNat (k + 1) * 8000000000
  Tb := 1e9
  Te := 1e9
  Tf := UInt64.ofNat (k + 1) * 8000000000 + if k < 960 then 1000 else 1000000

theorem rttOf_rerouted (k : Nat) : rttOf rerouted k = if k < 960 then 1000 else 1000000 := by
  show UInt64.ofNat (k + 1) * 8000000000 + (if k < 960 then 1000 else 1000000) -
    UInt64.ofNat (k + 1) * 8000000000 = _
  rw [UInt64.add_comm, UInt64.add_sub_cancel]

/-- A negative point error, with room for the shift window in the histories. -/
theorem pointErr_negative :
    tight.algoUpdate = false ∧
      (startWindows tight).shiftWin + 2 ≤ histSz (startWindows tight).warmupWin ∧
      ¬ ∀ e ∈ (run (under tight (inputsOf rerouted 1060))).log, e.ErrNonneg := by
  have hwin : (startWindows tight).warmupWin = 960 ∧ (startWindows tight).shiftWin = 100 ∧
      (startWindows tight).offsetWin = 128 := by decide +kernel
  obtain ⟨hW, hsw, how⟩ := hwin
  have hcal : Calibrates (10.0 * tight.metaparam.TSLIMIT) tight.phatInit 40000 :=
    ⟨by decide +kernel, by decide +kernel⟩
  have hstill : Still rerouted := by
    refine ⟨fun _ _ => ?_, by decide⟩
    show (1e9 : Float) - 1e9 ≤ 0
    decide
  have hshift : Shifted rerouted 1000 1000000 (startWindows tight).shiftWin 1059 958 := by
    rw [hsw]
    refine ⟨rfl, by decide, ⟨rttOf_rerouted 958, rttOf_rerouted 959⟩, fun j hj _ => ?_⟩
    rw [rttOf_rerouted, if_neg (by omega)]
  have hmem := run_upshift (n := 1059) hstill (by decide) (by omega) (by omega) hcal (by omega)
    (by omega) hshift (by decide)
  have hneg : ¬ (1000000 : VCounter) ≤ 1000 := by decide
  refine ⟨by decide, ?_, fun hall => hneg (hall _ hmem)⟩
  rw [hW, hsw]
  decide

end RADclock

