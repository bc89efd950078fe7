import RADclock.Sync.EndWindows

/-!
# The packets that warmup chooses

Warmup updates minima on-line, each from the one before: that of all RTTs, and those of the far and
the near window, which slide and grow. All three are first minima after every stamp. The period is
that of the chosen pair, also when it was not computed anew: the pair has then not changed, and
neither has what `compute_phat` makes of it.
-/

namespace RADclock

open Lib Lib.Exec

/-! ## The end windows -/

section Ends

variable {D : Type} {P : Event D → Prop} {H : Prop} {F : Nat → BidirStamp D} {n : Nat}

/-- Where the warmup end windows stand after `n` stamps, with the first minimum of each. -/
structure FirstEnds (F : Nat → BidirStamp D) (n : Nat) (e : Ends) : Prop where
  width : e.wwidth = 1 + (n - 1) / 4
  far : FirstAt (rttOf F) 0 (e.wwidth - 1) e.farI
  near : FirstAt (rttOf F) (n - e.wwidth) (n - 1) e.nearI

theorem FirstEnds.far_lt_near {e : Ends} (h : FirstEnds F n e) (hn : 2 ≤ n) : e.farI < e.nearI := by
  have hwidth := h.width
  have hfar := h.far.right
  have hnear := h.near.left
  omega

/-- A slide keeps the first minimum, of a window of any width. -/
theorem minSlide_first {f : Nat → VCounter} {h : History VCounter} (hh : Holds f n h) {c j i : Nat}
    (hc : FirstAt f j i c) (hin : i + 1 < n) (hok : OkFrom P H h j n) :
    Sat P H (minSlide ltVC h c j i) (FirstAt f (j + 1) (i + 1)) := by
  have hleft := hc.left
  have hright := hc.right
  rcases Nat.lt_or_eq_of_le (Nat.le_trans hleft hright) with hlt | heq
  · exact (minSlide_slidTo hh hleft (by omega) hlt hin hok).mono fun r hr => hr.first hc
  · subst heq
    refine Sat.ite (fun hlt => absurd hlt (Nat.lt_irrefl j)) fun _ => ?_
    exact Sat.ite (fun _ => Sat.pure (firstAt_self f (j + 1))) fun hne => absurd rfl hne

/-- One more item in the window. -/
theorem FirstAt.grow {f : Nat → VCounter} {j i k : Nat} (h : FirstAt f j i k) :
    FirstAt f j (i + 1) (if f (i + 1) < f k then i + 1 else k) := by
  split
  · next hlt => exact h.snoc_lt hlt
  · next hge => exact h.snoc_ge (UInt64.not_lt.mp hge)

theorem warmupEnds_first {s : AlgoState D} (hn : 0 < n) (hsi : s.si = n)
    (hR : Holds (rttOf F) (n + 1) s.hist.RTT) (he : FirstEnds F n s.ends)
    (hok : OkFrom P H s.hist.RTT 0 (n + 1)) :
    Sat P H (warmupEnds (rttOf F n) s) (FirstEnds F (n + 1)) := by
  have hwidth := he.width
  have hnear := he.near.right
  have hfar := he.far.right
  unfold warmupEnds
  rw [hsi]
  refine Sat.ite (fun hmod => ?_) fun hmod => ?_
  · -- slide the near window by one
    change n % 4 ≠ 0 at hmod
    rw [wsub_of_le (show s.ends.wwidth ≤ n by omega), wsub_of_le (show 1 ≤ n by omega)]
    refine Sat.bind (minSlide_first hR he.near (by omega)
      (hok.mono (Nat.zero_le _) (Nat.le_refl _))) fun r hr => ?_
    rw [show n - s.ends.wwidth + 1 = n + 1 - s.ends.wwidth by omega,
      show n - 1 + 1 = n + 1 - 1 by omega] at hr
    refine Sat.pure ⟨?_, he.far, hr⟩
    show s.ends.wwidth = _
    omega
  · -- widen both windows by one
    change ¬ n % 4 ≠ 0 at hmod
    refine Sat.bind (historyFind_points hR (by omega) (hok _ (Nat.zero_le _) (by omega)))
      fun p hp => ?_
    refine Sat.bind (historyFind_points hR (by omega) (hok _ (Nat.zero_le _) (by omega)))
      fun q hq => ?_
    refine Sat.bind (historyFind_points hR (by omega) (hok _ (Nat.zero_le _) (by omega)))
      fun r hr => ?_
    refine Sat.bind hp.deref_sat fun t ht => Sat.bind hr.deref_sat fun f hf =>
      Sat.bind hq.deref_sat fun m hm => ?_
    subst ht hf hm
    have hfarNext := he.far.grow
    have hnearNext := he.near.grow
    rw [show s.ends.wwidth - 1 + 1 = s.ends.wwidth by omega] at hfarNext
    rw [show n - 1 + 1 = n by omega] at hnearNext
    refine Sat.pure ⟨?_, hfarNext, ?_⟩
    · show s.ends.wwidth + 1 = _
      omega
    · rw [Nat.add_sub_add_right]
      exact hnearNext

end Ends

/-! ## The period -/

section Period

variable {D : Type} [Arith D] {F : Nat → BidirStamp D} {n : Nat} {s s' : AlgoState D}
  {mp : Metaparam D}

/-- `phat` is what `compute_phat` makes of the stamps `far` and `near`, unless that is zero. -/
def PeriodOf (far near : BidirStamp D) (phat : D) : Prop :=
  ∀ v, (computePhat far near).res = some v → (v == 0) = false → phat = v

/-- What warmup has chosen from the first `n` stamps. -/
structure WarmupPackets (F : Nat → BidirStamp D) (n : Nat) (s : AlgoState D) : Prop where
  ends : FirstEnds F n s.ends
  disjoint : 2 ≤ n → s.ends.farI < s.ends.nearI
  pstamp : FirstAt (rttOf F) 0 (n - 1) s.past.pstampI
  RTThat : s.rtt.RTThat = rttOf F s.past.pstampI
  period : 2 ≤ n → PeriodOf (F s.ends.farI) (F s.ends.nearI) s.osc.phat

/-- Only what is looked at matters. -/
theorem WarmupPackets.congr (h : WarmupPackets F n s) (hends : s'.ends = s.ends)
    (hp : s'.past.pstampI = s.past.pstampI) (hhat : s'.rtt.RTThat = s.rtt.RTThat)
    (hphat : s'.osc.phat = s.osc.phat) : WarmupPackets F n s' where
  ends := hends ▸ h.ends
  disjoint := hends ▸ h.disjoint
  pstamp := hp ▸ h.pstamp
  RTThat := by rw [hp, hhat, h.RTThat]
  period := by
    rw [hends, hphat]
    exact h.period

omit [Arith D] in
/-- The RTT algorithm of warmup keeps the first minimum of all. -/
theorem processRTTWarmup_first (hn : 0 < n) (hsi : s.si = n)
    (hp : FirstAt (rttOf F) 0 (n - 1) s.past.pstampI) (hhat : s.rtt.RTThat =
        rttOf F s.past.pstampI) :
    FirstAt (rttOf F) 0 n (processRTTWarmup (rttOf F n) s).past.pstampI ∧
      (processRTTWarmup (rttOf F n) s).rtt.RTThat =
        rttOf F (processRTTWarmup (rttOf F n) s).past.pstampI := by
  have hgrow := hp.grow
  rw [show n - 1 + 1 = n by omega, ← hhat] at hgrow
  unfold processRTTWarmup
  split
  · next hlt =>
    rw [if_pos hlt] at hgrow
    dsimp only
    rw [hsi]
    exact ⟨hgrow, rfl⟩
  · next hge =>
    rw [if_neg hge] at hgrow
    exact ⟨hgrow, hhat⟩

/-- The period algorithm of warmup: an estimate that is rejected leaves nothing behind that a later
call with the same pair would miss. -/
theorem processPhatWarmup_first (hn : 0 < n) (hsi : s.si = n) (hS : Holds F (n + 1) s.hist.stamp)
    (hR : Holds (rttOf F) (n + 1) s.hist.RTT) (he : FirstEnds F n s.ends)
    (hperiod : 2 ≤ n → PeriodOf (F s.ends.farI) (F s.ends.nearI) s.osc.phat) :
    Returns (processPhatWarmup (rttOf F n) s) fun s' => FirstEnds F (n + 1) s'.ends ∧
      PeriodOf (F s'.ends.farI) (F s'.ends.nearI) s'.osc.phat := by
  have hfree {α : Type} (h : History α) : OkFrom (fun _ : Event D => True) True h 0 (n + 1) :=
    okFrom_lax (fun _ _ _ _ => True.intro) _ _ _
  refine Returns.bind (warmupEnds_first hn hsi hR he (hfree _)).returns fun e he' => ?_
  have hlt := he'.far_lt_near (by omega)
  have hnear : e.nearI ≤ n := he'.near.right
  refine Returns.bind (historyGet2_sat hS (by omega) (by omega)
    (hfree _ _ (Nat.zero_le _) (by omega))
    (hfree _ _ (Nat.zero_le _) (by omega))).returns fun st hst => ?_
  subst hst
  refine Returns.bind (Q := fun v => (computePhat (F e.farI) (F e.nearI) : Algo D D).res = some v)
    (fun v hv => hv) fun v hv => ?_
  have huniq : ∀ v', (computePhat (F e.farI) (F e.nearI) : Algo D D).res = some v' → v = v' :=
    fun v' hv' => Option.some.inj (hv.symm.trans hv')
  refine Returns.ite (fun hzero => Returns.pure ⟨he', fun v' hv' hne => ?_⟩) fun hne => ?_
  · -- rejected
    rw [← huniq v' hv', hzero] at hne
    cases hne
  refine Returns.ite (fun _ => Returns.skip fun r =>
    Returns.pure ⟨he', fun v' hv' _ => huniq v' hv'⟩)
    fun hsame => Returns.pure ⟨he', ?_⟩
  -- the pair of the last call: it was not rejected there either
  have hsame' : s.ends.nearI = e.nearI ∧ s.ends.farI = e.farI :=
    ⟨Decidable.not_not.mp fun h => hsame (Or.inl h), Decidable.not_not.mp fun h => hsame (Or.inr h)⟩
  have hn2 : 2 ≤ n := by
    by_contra hlt2
    have h1 := he.width
    have h2 := he.near.right
    have h3 := he'.width
    have h4 := he'.near.left
    omega
  have hold := hperiod hn2
  rw [hsame'.1, hsame'.2] at hold
  exact hold

theorem beforeTheta_packets (hn : 0 < n) (h : Within F n 0 s) (hw : WarmupPackets F n s) :
    Returns (beforeTheta (F n) s) (WarmupPackets F (n + 1)) := by
  obtain ⟨hp, hhat⟩ := processRTTWarmup_first hn h.si hw.pstamp hw.RTThat
  obtain ⟨i, owd, Df, Db, -, heq⟩ := warmupPath_frame (F n) (F n).RTT s
  have hi : (processRTTWarmup (rttOf F n) s).past.pstampI = i :=
    congrArg (fun s' => s'.past.pstampI) heq
  have hmin : (processRTTWarmup (rttOf F n) s).rtt.RTThat = min s.rtt.RTThat (F n).RTT :=
    congrArg (fun s' => s'.rtt.RTThat) heq
  rw [hi] at hp hhat
  rw [hmin] at hhat
  have hphat : Returns (processPhatWarmup (rttOf F n) _) _ :=
    processPhatWarmup_first (s := processOWDAsymWarmup (F n) (processRTTWarmup (F n).RTT s)) hn
      (by rw [heq]; exact h.si) (by rw [heq]; exact h.stamps) (by rw [heq]; exact h.rtts)
      (by rw [heq]; exact hw.ends) (by rw [heq]; exact hw.period)
  unfold beforeTheta
  rw [heq] at hphat ⊢
  refine Returns.bind (hphat.and (processPhatWarmup_frame _ _)) ?_
  rintro s1 ⟨⟨hends, hperiod⟩, ends, K, phat, perr, rfl⟩
  exact Returns.pure ⟨hends, fun h2 => hends.far_lt_near h2, hp, hhat, fun _ => hperiod⟩

theorem warmupAlgos_packets (hn : 0 < n) (h : Within F n 0 s) (hw : WarmupPackets F n s) :
    Returns (warmupAlgos mp (F n) s) (WarmupPackets F (n + 1)) := by
  rw [warmupAlgos_eq]
  refine Returns.bind (beforeTheta_packets hn h hw) fun s1 h1 => ?_
  refine Returns.bind (processThetahatWarmup_frame _ _ _) ?_
  rintro s2 ⟨t, off, bound, stt, out, rfl, -⟩
  obtain ⟨out', stt', hfin⟩ := finishWarmup_frame mp
    { s1 with hist := _, poll := _, off := off, err := _, status := stt, output := out }
  refine Returns.pure ?_
  rw [hfin]
  exact h1.congr rfl rfl rfl rfl

end Period

/-! ## Runs -/

section Run

variable {D : Type} [Arith D] {F : Nat → BidirStamp D} {n : Nat} {s : AlgoState D}

/-- A configuration change leaves the choice alone. -/
theorem beginCall_packets (c : Call D) (hidx : 0 ≤ s.stampI) (h : WarmupPackets F n s) :
    Returns (beginCall c s) (WarmupPackets F n) := by
  unfold beginCall
  rw [nextStamp_later c.conf hidx]
  refine Returns.bind (Q := WarmupPackets F n) (Returns.ite (fun _ => ?_) fun _ => ?_)
    fun s1 h1 => Returns.pure (h1.congr rfl rfl rfl rfl)
  · refine (updateState_cases _ _ _).mono ?_
    rintro s1 ⟨poll, -, ⟨-, rfl⟩ | ⟨-, v, e, rfl⟩⟩
    · exact h.congr rfl rfl rfl rfl
    · exact h.congr rfl rfl rfl rfl
  · exact Returns.pure (h.congr rfl rfl rfl rfl)

theorem endCall_packets {mp : Metaparam D} (st : BidirStamp D) (h : WarmupPackets F n s) :
    Returns (endCall mp st s) (WarmupPackets F n) := by
  obtain ⟨stats, hcopy⟩ := copyStamp_frame st s
  unfold endCall
  rw [hcopy]
  refine Returns.bind (updateErrors_frame _ _ _) ?_
  rintro s1 ⟨err, rfl⟩
  exact Returns.pure (h.congr rfl rfl rfl rfl)

/-- The first stamp is the best packet of both windows. -/
theorem RADalgoBidir_packets_first (c : Call D) (hinp : c.inp.stamp = F 0) :
    Returns (RADalgoBidir c.conf c.inp AlgoState.zero) (WarmupPackets F 1) := by
  have hreact := reactToUpdate_init (accepts_any F 0) c.conf (init_firstStamp F c.conf)
  refine Returns.bind hreact.returns fun s1 h1 => ?_
  have hphase : phases c.conf c.inp (recordStamp c.inp.stamp s1) =
      pure (initPhase c.conf c.inp.stamp (recordStamp c.inp.stamp s1)) := if_pos h1.idx
  rw [hphase, hinp]
  have hfirst : WarmupPackets F 1 (initPhase c.conf (F 0) (recordStamp (F 0) s1)) := by
    have hends : (initPhase c.conf (F 0) (recordStamp (F 0) s1)).ends = ⟨1, 0, 0⟩ :=
      congrArg (fun e : Ends => { e with wwidth := 1 }) h1.ends
    have hpstampI : (initPhase c.conf (F 0) (recordStamp (F 0) s1)).past.pstampI = 0 := h1.pstampI
    refine ⟨?_, fun h2 => absurd h2 (by decide), ?_, ?_, fun h2 => absurd h2 (by decide)⟩
    · rw [hends]
      exact ⟨rfl, firstAt_self _ 0, firstAt_self _ 0⟩
    · rw [hpstampI]
      exact firstAt_self _ 0
    · rw [hpstampI]
      rfl
  show Returns (endCall c.conf.metaparam (F 0) _) _
  exact endCall_packets (F 0) hfirst

/-- What holds between calls. -/
def PacketsInv (F : Nat → BidirStamp D) (n : Nat) (s : AlgoState D) : Prop :=
  Running F n s ∧ (n < s.win.warmupWin → WarmupPackets F n s)

/-- A stamp of warmup, up to the sub-algorithms. -/
theorem beginCall_warm (c : Call D) (hinp : c.inp.stamp = F n) (h : PacketsInv F n s) :
    Returns (beginCall c s) fun s' => s'.stampI = n ∧ (n < s'.win.warmupWin →
      Within F n 0 s' ∧ WarmupPackets F n s') := by
  obtain ⟨hrun, hpackets⟩ := h
  have hpos := hrun.pos
  have hidx := hrun.idx
  have hstart := hrun.starting c.conf
  have hnext := nextStamp_later c.conf (show 0 ≤ s.stampI by omega)
  have hbegin : Returns (beginCall c s) fun s' => s'.stampI = n ∧
      (n < s'.win.warmupWin → n < s.win.warmupWin ∧ Within F n 0 s') := by
    refine Returns.bind (reactToUpdate_starting c.conf hstart) ?_
    rintro s1 ⟨h1, hiff⟩
    rw [hnext] at hiff
    rw [hinp]
    exact Returns.pure ⟨h1.idx, fun hW => ⟨hiff.mpr hW, h1.record (h1.noHats hW)⟩⟩
  by_cases hW : n < s.win.warmupWin
  · refine (hbegin.and (beginCall_packets c (by omega) (hpackets hW))).mono ?_
    exact fun s1 h1 => ⟨h1.1.1, fun hW1 => ⟨(h1.1.2 hW1).2, h1.2⟩⟩
  · exact hbegin.mono fun s1 h1 => ⟨h1.1, fun hW1 => absurd (h1.2 hW1).1 hW⟩

/-- A stamp of warmup that is not the last. -/
theorem phases_packets (conf : Config D) (inp : Input D) (hinp : inp.stamp = F n) (hn : 0 < n)
    (hidx : s.stampI = n) (hmore : n + 1 < s.win.warmupWin) (h : Within F n 0 s)
    (hw : WarmupPackets F n s) : Returns (phases conf inp s) (WarmupPackets F (n + 1)) := by
  have hphases : phases conf inp s = warmupPhase conf.metaparam inp.stamp s := by
    unfold phases
    rw [if_neg (by omega), if_pos (by rw [h.si]; omega)]
  rw [hphases, hinp]
  refine Returns.bind ((warmupAlgos_within h (F n)).and (warmupAlgos_packets hn h hw)) ?_
  rintro s1 ⟨⟨hsame, h1⟩, hw1⟩
  refine Returns.ite (fun hlast => ?_) fun _ => Returns.pure hw1
  rw [h1.si, hsame.warmupWin, wsub_of_le (by omega)] at hlast
  omega

theorem RADalgoBidir_packets (c : Call D) (hinp : c.inp.stamp = F n) (h : PacketsInv F n s) :
    Returns (RADalgoBidir c.conf c.inp s) (PacketsInv F (n + 1)) := by
  refine (RADalgoBidir_running c.conf c.inp hinp h.1).and ?_
  have hpos := h.1.pos
  rw [RADalgoBidir_eq, bind_assoc]
  refine Returns.bind (beginCall_warm c hinp h) ?_
  rintro s1 ⟨hidx, hwarm⟩
  by_cases hmore : n + 1 < s1.win.warmupWin
  · obtain ⟨hin, hw⟩ := hwarm (by omega)
    refine Returns.bind (phases_packets c.conf c.inp hinp hpos hidx hmore hin hw) fun s2 h2 => ?_
    exact (endCall_packets c.inp.stamp h2).mono fun s3 h3 _ => h3
  · -- nothing is claimed of the last stamp of warmup, or later ones
    refine Returns.bind (phases_series c.conf c.inp (by omega)) ?_
    rintro s2 ⟨hsame, -⟩
    refine (endCall_series c.inp.stamp).mono ?_
    rintro s3 ⟨hsame3, -⟩ hlt
    rw [hsame3.warmupWin, hsame.warmupWin] at hlt
    exact absurd hlt hmore

theorem run_packets {c : Call D} {cs : List (Call D)} (hf : Follows F 0 (c :: cs)) :
    Returns (run (c :: cs)) (PacketsInv F (c :: cs).length) :=
  run_returns (C := fun _ _ => True)
    (fun h _ => (RADalgoBidir_running_first _ _ h).and
      ((RADalgoBidir_packets_first c h).mono fun _ h' _ => h'))
    (fun _ c _ hinp hI _ => RADalgoBidir_packets c hinp hI) hf (RunMeets.trivial _ _)

/-- After every stamp but the first, whatever the configuration changes: once the sub-algorithms of
warmup are through, and after the call if it is not the last of warmup. -/
theorem warmup_packets (c₀ : Call D) (cs : List (Call D)) (c : Call D) :
    (Returns (run (c₀ :: cs) >>= beginCall c) fun s => s.si < s.win.warmupWin →
        Returns (warmupAlgos c.conf.metaparam c.inp.stamp s)
          (WarmupPackets (stampsOf (c₀ :: cs ++ [c])) (cs.length + 2))) ∧
      Returns (run (c₀ :: cs ++ [c])) fun s => cs.length + 2 < s.win.warmupWin →
        WarmupPackets (stampsOf (c₀ :: cs ++ [c])) (cs.length + 2) s := by
  have hf := follows_stampsOf (c₀ :: cs ++ [c])
  constructor
  · refine Returns.bind (run_packets hf.left) fun s h => ?_
    have hinp := hf.right.head
    rw [Nat.zero_add] at hinp
    refine (beginCall_warm c hinp h).mono ?_
    rintro s1 ⟨hidx, hwarm⟩ hW
    rw [si_of_idx hidx] at hW
    obtain ⟨hin, hw⟩ := hwarm hW
    rw [hinp]
    exact warmupAlgos_packets (Nat.succ_pos _) hin hw
  · refine (run_packets hf).mono fun s h hmore => ?_
    have hlen : (c₀ :: (cs ++ [c])).length = cs.length + 2 := by simp
    have hw := h.2
    change (c₀ :: (cs ++ [c])).length < _ → WarmupPackets _ (c₀ :: (cs ++ [c])).length s at hw
    rw [hlen] at hw
    exact hw hmore

end Run

end RADclock
