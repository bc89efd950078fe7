import RADclock.Daemon.HalfWindow
import RADclock.Daemon.Upshift
import RADclock.Daemon.WarmupHistory
import RADclock.Sync.Availability
import RADclock.Sync.Correction

/-!
# Windows widened beyond the stamps there are

A change of parameters right after warmup makes the windows longer than all stamps so far.

- `run_widened`: `ts_limit` and `skm_scale` widen the shift window by one stamp more than there have
  been. It starts again at stamp `0`, and slides past it in the same call: if stamp `0` had the only
  low RTT, that looks like an upshift. The correction then goes back to stamp `0`, with an unsigned
  index that never falls below `0`.
- `run_unavailable`: a shorter polling period makes the local period window longer than all stamps.
  The index that the test of `process_plocal_full` asks for wraps around, and passes for available.
-/

namespace RADclock

open Lib Lib.Exec

variable {D : Type} [Arith D] {F : Nat → BidirStamp D} {n : Nat} {s : AlgoState D}
  {mp : Metaparam D} {w : Windows} {conf : Config D} {z : HistSizes} {lo hi T : VCounter}

/-! ## The estimate at the end of warmup -/

/-- No RTT so far lies below the estimate. -/
def Lowest (F : Nat → BidirStamp D) (n : Nat) (s : AlgoState D) : Prop :=
  ∀ j < n, s.rtt.RTThat ≤ rttOf F j

theorem warmupPhase_hat (st : BidirStamp D) :
    Returns (warmupPhase mp st s) (fun s' => s'.rtt.RTThat = min s.rtt.RTThat st.RTT) := by
  refine Returns.bind (warmupAlgos_step _) fun s1 h1 => ?_
  refine Returns.ite (fun _ => ?_) fun _ => Returns.pure h1.hat
  refine Returns.bind (initRTTOWDAsymFull_frame _) ?_
  rintro s2 ⟨r, f, b, rfl⟩
  refine Returns.bind (initPhatFull_frame _) ?_
  rintro s3 ⟨stamp, perr, rfl⟩
  refine Returns.bind (initPlocalFull_frame _) ?_
  rintro s4 ⟨e, ends, ploc, rfl⟩
  exact Returns.pure h1.hat

/-- Warmup, with the estimate that goes with it, up to the end of warmup. -/
def HatRun (F : Nat → BidirStamp D) (w : Windows) (n : Nat) (s : AlgoState D) : Prop :=
  InWarm F w n s ∧ Lowest F n s ∨ w.warmupWin ≤ n ∧ (n = w.warmupWin → Lowest F n s)

theorem RADalgoBidir_hatRun (inp : Input D) (hinp : inp.stamp = F n)
    (hupd : conf.algoUpdate = false) (h : HatRun F w n s) :
    Returns (RADalgoBidir conf inp s) (HatRun F w (n + 1)) := by
  rcases h with ⟨hw, hlow⟩ | ⟨hle, -⟩
  · have hat := hw.inv.next_at
    have hat' : At F n (recordStamp inp.stamp { s with stampI := s.stampI + 1 }) :=
      ⟨hat.pos, hat.idx, hat.last⟩
    have hmin : Returns (RADalgoBidir conf inp s) (Lowest F (n + 1)) := by
      rw [RADalgoBidir_noUpdate conf inp hw.inv hupd, phases_warm conf inp hat' (hw.win ▸ hw.more)]
      refine Returns.bind (warmupPhase_hat _) fun s1 h1 => ?_
      refine (finish_rest _).mono ?_
      rintro s2 ⟨-, -, hrtt, -⟩
      have hhat : s2.rtt.RTThat = min s.rtt.RTThat (rttOf F n) := by
        rw [hrtt, h1, hinp]
        rfl
      intro j hj
      rw [hhat]
      exact minVC_le_of_forall (fun j _ hj => hlow j hj) j (Nat.zero_le j) hj
    refine ((RADalgoBidir_warm conf inp hinp hupd hw).returns.and hmin).mono ?_
    rintro s' ⟨h' | ⟨-, hW, -, -⟩, hlow'⟩
    · exact Or.inl ⟨h', hlow'⟩
    · exact Or.inr ⟨Nat.le_of_eq hW, fun _ => hlow'⟩
  · exact fun s' _ => Or.inr ⟨Nat.le_succ_of_le hle, fun heq => absurd hle (by omega)⟩

theorem RADalgoBidir_firstHat (inp : Input D) (hinp : inp.stamp = F 0)
    (hupd : conf.algoUpdate = false) (hsz : (startWindows conf).warmupWin < 2 ^ 32) :
    Returns (RADalgoBidir conf inp AlgoState.zero) (HatRun F (startWindows conf) 1) := by
  refine ((RADalgoBidir_first conf inp hinp hupd hsz).returns.and
    (RADalgoBidir_firstMinima points_any conf inp hinp hupd).returns).mono ?_
  rintro s ⟨hw, hm⟩
  exact Or.inl ⟨hw, hm.hat.hat⟩

theorem run_hatRun (hupd : conf.algoUpdate = false) (hsz : (startWindows conf).warmupWin < 2 ^ 32)
    (inp : Input D) (inps : List (Input D)) (hf : Follows F 0 (under conf (inp :: inps))) :
    Returns (run (under conf (inp :: inps)))
      (HatRun F (startWindows conf) (under conf (inp :: inps)).length) := by
  have hm : RunMeets (fun c (_ : AlgoState D) => c.conf = conf) (under conf (inp :: inps))
      AlgoState.zero := RunMeets.of_forall (fun c hc _ => by
    obtain ⟨inp', -, rfl⟩ := List.mem_map.mp (show c ∈ List.map _ (inp :: inps) from hc)
    rfl) _
  refine run_returns (fun hinp _ => ?_) (fun k c s' hinp h hc => ?_) hf hm
  · exact RADalgoBidir_firstHat _ hinp hupd hsz
  · rw [hc]
    exact RADalgoBidir_hatRun c.inp hinp hupd h

/-! ## The change -/

/-- Shift and offset windows longer than the `n` stamps there have been, and room for both. -/
structure Widens (conf : Config D) (n : Nat) : Prop where
  update : conf.algoUpdate = true
  shift : n + 1 ≤ baseShiftWin conf.metaparam conf.pollPeriod
  offset : n + 1 ≤ baseOffsetWin conf.metaparam conf.pollPeriod
  stamp : ∀ w, n + 1 ≤ histSz (max (plocalSpan (newWindows conf.metaparam conf.pollPeriod w))
    (baseOffsetWin conf.metaparam conf.pollPeriod))
  RTT : ∀ w, n + 1 ≤ histSz (max (plocalSpan (newWindows conf.metaparam conf.pollPeriod w))
    (max (baseOffsetWin conf.metaparam conf.pollPeriod)
      (baseShiftWin conf.metaparam conf.pollPeriod)))

/-- A shift window that starts with stamp `0`, and covers all `n` stamps so far. -/
structure OverAll (F : Nat → BidirStamp D) (conf : Config D) (n : Nat) (s s' : AlgoState D) :
    Prop where
  idx : s'.stampI = n
  full : s'.win.warmupWin ≤ n
  shiftWin : s'.win.shiftWin = baseShiftWin conf.metaparam conf.pollPeriod
  plocalWin : s'.win.plocalWin = basePlocalWin conf.metaparam conf.pollPeriod
  ends : s'.ends = s.ends
  pollChangedI : s'.poll.pollChangedI = s.poll.pollChangedI ∨ s'.poll.pollChangedI = n
  offsetWin : n + 1 ≤ s'.win.offsetWin
  shiftEnd : s'.win.shiftEnd = 0
  shiftMin : MinRTT F 0 (n - 1) s'.rtt.RTThatShift
  hat : s'.rtt.RTThat = s.rtt.RTThat
  thres : s'.rtt.RTThatShiftThres = s.rtt.RTThatShiftThres
  hWin : s'.win.hWin = baseHWin conf.pollPeriod
  historyEnd : s'.win.historyEnd = s.win.historyEnd
  holds : Holds (rttOf F) n s'.hist.RTT
  stamps : ∃ sz, n + 1 ≤ sz ∧ Stocked sz n s'.hist.stamp
  stock : ∃ sz, n + 1 ≤ sz ∧ Stocked sz n s'.hist.RTT

omit [Arith D] in
theorem restartShift_all (hat : At F n s) (hR : Holds (rttOf F) n s.hist.RTT)
    (hst : Stocked n n s.hist.RTT) (hsw : n + 1 ≤ s.win.shiftWin) :
    Sat Event.Held False (restartShift s) (fun s' => ∃ v, MinRTT F 0 (n - 1) v ∧ s' = { s with
      win := { s.win with shiftEnd := 0 }
      rtt := { s.rtt with RTThatShift := v } }) := by
  have hpos := hat.pos
  have hend : restartShiftEnd s = 0 := by
    unfold restartShiftEnd
    dsimp only
    rw [hat.si, hst.old hpos hpos, wsub_of_le hpos, wsub_of_le (by omega), if_neg (by omega)]
    omega
  have hok : OkFrom (D := D) Event.Held False s.hist.RTT 0 n := hst.okFrom (by omega)
  refine Sat.bind (Q := MinAt ltVC (rttOf F) 0 (n - 1)) ?_ fun k hk => ?_
  · show Sat _ _ (minScan ltVC s.hist.RTT (restartShiftEnd s) (wsub s.si 1)) _
    rw [hat.si, hend, wsub_of_le hpos]
    exact minScan_sat hR (Nat.zero_le _) (by omega) hok
  · have hkn := hk.right
    refine Sat.bind (historyGet_sat hR (show k < n by omega) (hok k (Nat.zero_le k) (by omega))
      rfl) fun v hv => Sat.pure ⟨v, ⟨k, hk, hv.symm⟩, ?_⟩
    rw [hend]

omit [Arith D] in
theorem histSizes_full {si : Nat} {w : Windows} (hle : w.warmupWin ≤ si) :
    (histSizes si w).stamp = histSz (max (plocalSpan w) w.offsetWin) ∧
      (histSizes si w).RTT = histSz (max (plocalSpan w) (max w.offsetWin w.shiftWin)) := by
  unfold histSizes
  rw [if_neg (Nat.not_lt.mpr hle)]
  exact ⟨rfl, rfl⟩

theorem recordPollChange_changed (pp : Nat) (s : AlgoState D) :
    (recordPollChange pp s).poll.pollChangedI = s.poll.pollChangedI ∨
      (recordPollChange pp s).poll.pollChangedI = s.si := by
  unfold recordPollChange
  split
  · exact Or.inl rfl
  · exact Or.inr rfl

theorem reactToUpdate_widens (hc : Widens conf n) (hat : At F n s) (hW : s.win.warmupWin ≤ n)
    (hR : Holds (rttOf F) n s.hist.RTT) (hst : Stocked n n s.hist.RTT)
    (hstamp : Stocked n n s.hist.stamp) :
        Sat Event.Held False (reactToUpdate conf s) (OverAll F conf n s) := by
  obtain ⟨poll, -, hset⟩ := newParams_frame conf.metaparam conf.pollPeriod s
  have hpoll : poll.pollChangedI = s.poll.pollChangedI ∨ poll.pollChangedI = n := by
    have hchange := recordPollChange_changed conf.pollPeriod (setErrThresholds conf.metaparam s)
    have heq := congrArg (fun s' : AlgoState D => s'.poll.pollChangedI) hset
    rw [← hat.si]
    exact heq ▸ hchange
  have hfull : ¬ s.si < s.win.warmupWin := by
    rw [hat.si]
    exact Nat.not_lt.mpr hW
  unfold reactToUpdate updateState
  rw [if_pos hc.update, hset]
  refine Sat.bind (Sat.ite (fun hlt => absurd hlt hfull) fun _ =>
    restartShift_all (F := F) ⟨hat.pos, hat.idx, hat.last⟩ hR hst hc.shift) ?_
  rintro s1 ⟨v, hv, rfl⟩
  refine Sat.pure ⟨hat.idx, hW, rfl, rfl, rfl, hpoll, hc.offset, rfl, hv, rfl, rfl, rfl, rfl,
    hR.resize _, ⟨_, ?_, hstamp.resize (Or.inr (Nat.le_refl n))⟩, _, ?_,
    hst.resize (Or.inr (Nat.le_refl n))⟩
  · exact Nat.le_trans (hc.stamp s.win) (Nat.le_of_eq (histSizes_full (w := { newWindows
      conf.metaparam conf.pollPeriod s.win with shiftEnd := 0 }) (Nat.not_lt.mp hfull)).1.symm)
  · exact Nat.le_trans (hc.RTT s.win) (Nat.le_of_eq (histSizes_full (w := { newWindows
      conf.metaparam conf.pollPeriod s.win with shiftEnd := 0 }) (Nat.not_lt.mp hfull)).2.symm)

/-- Away from both marks the history window is left alone. -/
theorem manageHistorywin_idle (st : BidirStamp D) (RTT : VCounter) (hhalf : s.si ≠ s.win.hWin / 2)
    (hend : s.si ≠ s.win.historyEnd) : manageHistorywin st RTT s = pure s := by
  unfold manageHistorywin reachHalf
  rw [if_neg hhalf]
  exact if_neg hend

omit [Arith D] in
/-- Stamp `0` is to be corrected, and the loop does not end there. -/
theorem not_correctionFits (hsi : s.si = n) (hsw : s.win.shiftWin = n + 1)
    (hoff : n + 1 ≤ s.win.offsetWin) : ¬ CorrectionFits s := by
  unfold CorrectionFits correctionStart
  rw [hsi, hsw]
  rintro (⟨-, hpos, -⟩ | ⟨hlt, -⟩)
  · omega
  · omega

/-- The window slides past stamp `0`, which had the only low RTT. -/
theorem toUpshift_widened (hn : 0 < n) {s₀ : AlgoState D} (h : OverAll F conf n s₀ s)
    (hsw : baseShiftWin conf.metaparam conf.pollPeriod = n + 1)
    (hhalf : n ≠ baseHWin conf.pollPeriod / 2) (hend : n ≠ s₀.win.historyEnd)
    (hlow : s₀.rtt.RTThat ≤ lo) (hthres : s₀.rtt.RTThatShiftThres ≤ T)
    (hhi : ∀ j, 0 < j → j ≤ n → rttOf F j = hi) (hlt : lo.toNat + T.toNat < hi.toNat)
    (inp : Input D) (hinp : inp.stamp = F n) :
    Sat Event.Held False (toUpshift inp (recordStamp inp.stamp s)) (fun s' =>
      Detects s' ∧ s'.win.warmupWin ≤ s'.si ∧ ¬ CorrectionFits s') := by
  have hsi : s.si = n := si_of_idx h.idx
  obtain ⟨sz, hsz, hst⟩ := h.stock
  -- the history window does not turn at this stamp
  have hidle : manageHistorywin inp.stamp inp.stamp.RTT (recordStamp inp.stamp s) =
      pure (recordStamp inp.stamp s) := by
    refine manageHistorywin_idle _ _ ?_ ?_
    · show s.si ≠ s.win.hWin / 2
      rw [hsi, h.hWin]
      exact hhalf
    · show s.si ≠ s.win.historyEnd
      rw [hsi, h.historyEnd]
      exact hend
  unfold toUpshift
  rw [hidle, hinp, pure_bind]
  generalize hs1 : updateRTTMinima (F n).RTT (recordStamp (F n) s) = s1
  have hR : Holds (rttOf F) (n + 1) s1.hist.RTT := by
    rw [← hs1]
    show Holds _ _ (historyAdd s.hist.RTT s.si (F n).RTT)
    rw [hsi]
    exact h.holds.add rfl
  have hst1 : Stocked sz (n + 1) s1.hist.RTT := by
    rw [← hs1]
    show Stocked _ _ (historyAdd s.hist.RTT s.si (F n).RTT)
    rw [hsi]
    exact hst.add _
  have hat1 : s1.rtt.RTThat = min s₀.rtt.RTThat (rttOf F n) := by
    rw [← hs1, ← h.hat]
    rfl
  have hth1 : s1.rtt.RTThatShiftThres = s₀.rtt.RTThatShiftThres := by
    rw [← hs1, ← h.thres]
    rfl
  have hend1 : s1.win.shiftEnd = 0 := by
    rw [← hs1]
    exact h.shiftEnd
  have hsw1 : s1.win.shiftWin = n + 1 := by
    rw [← hs1]
    exact h.shiftWin.trans hsw
  -- the minimum is over all stamps up to the last one
  have hmin1 : MinRTT F s1.win.shiftEnd (n - 1) s1.rtt.RTThatShift := by
    rw [hend1, ← hs1]
    exact h.shiftMin
  have hsi1 : s1.si = n := hs1 ▸ hsi
  refine ((updateRTTShift_sat hn hsi1 hR (by omega) fun _ => hst1.okFrom (by omega)).and_returns
    (updateRTTShift_frame _ _)).mono ?_
  rintro s' ⟨⟨hmove, hmin⟩, v, e, rfl⟩
  -- the widened window is just full, so the slide drops stamp 0
  have hslid : e = 1 := by
    rw [hsw1, hend1, wsub_of_le (by omega)] at hmove
    change n < _ ∧ e = 0 ∨ _ ∧ e = 0 + 1 at hmove
    omega
  -- and only high round trips are left in it
  have hv : v = hi := by
    obtain ⟨⟨k, h1, h2, rfl⟩, -⟩ := minRTT_iff.mp (hmin hmin1)
    change e ≤ k at h1
    exact hhi k (by omega) h2
  refine ⟨?_, ?_, not_correctionFits hsi1 hsw1 ?_⟩
  · show s1.rtt.RTThat + s1.rtt.RTThatShiftThres < v
    rw [hv, hat1, hth1]
    refine add_lt_of_le (UInt64.le_trans (minVC_le_left _ _) hlow) ?_
    have := UInt64.le_iff_toNat_le.mp hthres
    omega
  · show s1.win.warmupWin ≤ s1.si
    rw [hsi1, ← hs1]
    exact h.full
  · show n + 1 ≤ s1.win.offsetWin
    rw [← hs1]
    exact h.offsetWin

/-! ## Runs -/

theorem inputsOf_cons (F : Nat → BidirStamp D) (hn : 0 < n) :
    ∃ i is, inputsOf F n = i :: is ∧ 1 + is.length = n := by
  cases hl : inputsOf F n with
  | nil =>
    have hlen := congrArg List.length hl
    simp only [inputsOf, List.length_map, List.length_range, List.length_nil] at hlen
    omega
  | cons i is =>
    have hlen := congrArg List.length hl
    simp only [inputsOf, List.length_map, List.length_range, List.length_cons] at hlen
    exact ⟨i, is, rfl, by omega⟩

/-- The state after warmup. -/
theorem run_warmed (F : Nat → BidirStamp D) (hupd : conf.algoUpdate = false)
    (hW : (startWindows conf).warmupWin = n) (hsz : n < 2 ^ 32)
    (hroom : (startWindows conf).shiftWin + 2 ≤ n) (hhalf : n < (startWindows conf).hWin / 2) :
    Sat Event.NotHalf False (run (under conf (inputsOf F n)))
      (Coasts F (evenSizes n) (startWindows conf) (wsub (startWindows conf).hWin 1) n) := by
  have hlong := (startWindows_ok conf).hundred
  obtain ⟨i, is, hcons, hlen⟩ := inputsOf_cons F (n := n) (by omega)
  have hf : Follows F 0 (under conf (inputsOf F n)) := follows_inputsOf F n
  rw [hcons] at hf ⊢
  refine (run_begins hupd (hW ▸ hsz) (hW ▸ hroom) i is hf (by omega)).mono ?_
  rw [hlen]
  rintro s (hwarm | hcoasts)
  · exact absurd hwarm.more (by omega)
  · exact hW ▸ hcoasts

theorem Coasts.nextStamp {e : Nat} (h : Coasts F z w e n s) (conf' : Config D) :
    nextStamp conf' s = { s with stampI := s.stampI + 1 } :=
  if_neg (by
    have hidx := h.inv.idx
    have hpos := h.inv.pos
    dsimp only
    omega)

/-- A run through warmup, and a change after which an upshift is detected. -/
theorem run_widened {conf' : Config D} (hF : Still F) (hupd : conf.algoUpdate = false)
    (hW : (startWindows conf).warmupWin = n) (hsz : n < 2 ^ 32)
    (hroom : (startWindows conf).shiftWin + 2 ≤ n)
    (hT : Calibrates (10.0 * conf.metaparam.TSLIMIT) conf.phatInit T) (hc : Widens conf' n)
    (hsw : baseShiftWin conf'.metaparam conf'.pollPeriod = n + 1)
    (hhalf : n < (startWindows conf).hWin / 2) (hhalf' : n ≠ baseHWin conf'.pollPeriod / 2)
    (hlo : rttOf F 0 = lo) (hhi : ∀ j, 0 < j → j ≤ n → rttOf F j = hi)
    (hlt : lo.toNat + T.toNat < hi.toNat) (inp : Input D) (hinp : inp.stamp = F n) :
    ∃ s, (run (under conf (inputsOf F n)) >>= beginCall ⟨conf', inp⟩ >>=
      fun s => toUpshift inp s).res = some s ∧ Detects s ∧
        s.win.warmupWin ≤ s.si ∧ ¬ CorrectionFits s := by
  have hlong := (startWindows_ok conf).hundred
  have hwarmed := run_warmed F hupd hW hsz hroom hhalf
  obtain ⟨i, is, hcons, hlen⟩ := inputsOf_cons F (n := n) (by omega)
  have hf : Follows F 0 (under conf (inputsOf F n)) := follows_inputsOf F n
  rw [hcons] at hf hwarmed ⊢
  -- what the run up to the change leaves: the minimum, the window and the stocks
  have hhat := run_hatRun hupd (hW ▸ hsz) i is hf
  have hstill := run_upRun hF hupd (hW ▸ hsz) (hW ▸ hroom) hT i is hf
  rw [hlen] at hstill
  rw [under, List.length_map, List.length_cons, Nat.add_comm, hlen] at hhat
  obtain ⟨s, hres, hc₀, hhat, hup⟩ := (hwarmed.and_returns (hhat.and hstill)).exists_res
  -- the minimum has seen the low round trip of stamp 0
  have hlow : s.rtt.RTThat ≤ lo := by
    rcases hhat with ⟨hwarm, -⟩ | ⟨-, hlow⟩
    · exact absurd hwarm.more (by omega)
    · exact hlo ▸ hlow hW.symm 0 (by omega)
  obtain ⟨hat, hfull, hst⟩ := hc₀.toInFull.next
  have hcall : Sat Event.Held False (beginCall ⟨conf', inp⟩ s >>= fun s => toUpshift inp s)
      (fun s' => Detects s' ∧ s'.win.warmupWin ≤ s'.si ∧ ¬ CorrectionFits s') := by
    unfold beginCall
    rw [hc₀.nextStamp, bind_assoc]
    refine Sat.bind (reactToUpdate_widens hc hat hc₀.full hfull.rtts hst.stock.RTT
      hst.stock.stamp) fun s1 h1 => ?_
    rw [pure_bind]
    -- the call of the change widens the window and then detects the shift
    refine toUpshift_widened (by omega) h1 hsw hhalf' ?_ hlow (hup.still.full hc₀.full) hhi hlt
      inp hinp
    show n ≠ s.win.historyEnd
    rw [hc₀.historyEnd, wsub_of_le (by omega)]
    omega
  obtain ⟨s', hres', hs'⟩ := hcall.exists_res
  refine ⟨s', ?_, hs'⟩
  rw [bind_assoc]
  exact bind_res_some.mpr ⟨s, hres, hres'⟩

/-- The tight limit, relaxed to 77 microseconds, with a longer time scale for offsets. -/
def relaxed : Config Float :=
  { tight with
    metaparam := { tight.metaparam with TSLIMIT := 7.685e-5, SKM_SCALE := 8192.0 }
    mask := UPDMASK_TEMPQUALITY }

/-- Stamps whose RTT is a millisecond, but for the first. -/
def rushed (k : Nat) : BidirStamp Float where
  Ta := UInt64.ofNat (k + 1) * 8000000000
  Tb := 1e9
  Te := 1e9
  Tf := UInt64.ofNat (k + 1) * 8000000000 + if k = 0 then 1000 else 1000000

theorem rttOf_rushed (k : Nat) : rttOf rushed k = if k = 0 then 1000 else 1000000 := by
  show UInt64.ofNat (k + 1) * 8000000000 + (if k = 0 then 1000 else 1000000) -
    UInt64.ofNat (k + 1) * 8000000000 = _
  rw [UInt64.add_comm, UInt64.add_sub_cancel]

theorem widens_relaxed : Widens relaxed 960 := by
  refine ⟨by decide, by decide +kernel, by decide +kernel, fun w => ?_, fun w => ?_⟩
  · show 961 ≤ histSz (max (basePlocalWin relaxed.metaparam relaxed.pollPeriod +
      basePlocalWin relaxed.metaparam relaxed.pollPeriod / _) _)
    decide
  · show 961 ≤ histSz (max (basePlocalWin relaxed.metaparam relaxed.pollPeriod +
      basePlocalWin relaxed.metaparam relaxed.pollPeriod / _) _)
    decide +kernel

/-- The upshift is not corrected: the call does not return. -/
theorem widened_not_corrects : ¬ ∀ (cs : List (Call Float)) (c : Call Float),
    Returns (run cs >>= beginCall c >>= fun s => toUpshift c.inp s) fun s =>
      s.win.warmupWin ≤ s.si → Detects s → Corrects s := by
  intro hall
  have hwin : (startWindows tight).warmupWin = 960 ∧ (startWindows tight).shiftWin = 100 ∧
      (startWindows tight).hWin = 75600 := by decide +kernel
  obtain ⟨hW, hsw, hh⟩ := hwin
  have hcal : Calibrates (10.0 * tight.metaparam.TSLIMIT) tight.phatInit 40000 :=
    ⟨by decide +kernel, by decide +kernel⟩
  have hstill : Still rushed := by
    refine ⟨fun _ _ => ?_, by decide⟩
    show (1e9 : Float) - 1e9 ≤ 0
    decide
  obtain ⟨s, hres, hd, hfull, hno⟩ := run_widened (n := 960) hstill (by decide) hW (by decide)
    (by rw [hsw]; decide) hcal widens_relaxed (by decide +kernel) (by rw [hh]; decide) (by decide)
        (rttOf_rushed 0)
    (fun j hj _ => by rw [rttOf_rushed, if_neg (by omega)]) (by decide)
    ⟨rushed 960, false, 0⟩ rfl
  have hwithin := run_toUpshift _ ⟨relaxed, ⟨rushed 960, false, 0⟩⟩ s hres hfull
  exact hno ((corrects_iff_fits hwithin hwithin.win.shiftWin_lt hd).mp (hall _ _ s hres hfull hd))

/-! ## A local period window longer than all stamps -/

/-- What a run under one configuration leaves alone, and how wide its end windows may become. -/
structure Unchanged (F : Nat → BidirStamp D) (w : Windows) (n : Nat) (s : AlgoState D) : Prop
    extends Running F n s where
  plocalWin : s.win.plocalWin = w.plocalWin
  pollChangedI : s.poll.pollChangedI = 0
  width : s.ends.wwidth ≤ n + fullWwidth w.plocalWin

theorem RADalgoBidir_unchanged (inp : Input D) (hinp : inp.stamp = F n)
    (hupd : conf.algoUpdate = false) (h : Unchanged F w n s) :
    Returns (RADalgoBidir conf inp s) (Unchanged F w (n + 1)) := by
  have hidx := h.idx
  have hpos := h.pos
  refine ((RADalgoBidir_running conf inp hinp h.toRunning).and
    (RADalgoBidir_width conf inp (by omega))).mono ?_
  rintro s' ⟨h', -, hkeep⟩
  obtain ⟨hsame, hwidth⟩ := hkeep hupd
  refine ⟨h', hsame.plocalWin.trans h.plocalWin, hsame.pollChangedI.trans h.pollChangedI, ?_⟩
  have hw := h.width
  rcases hwidth with hwidth | hwidth | hwidth
  · omega
  · omega
  · rw [hwidth, h.plocalWin]
    omega

theorem RADalgoBidir_firstUnchanged (inp : Input D) (hinp : inp.stamp = F 0)
    (hupd : conf.algoUpdate = false) :
    Returns (RADalgoBidir conf inp AlgoState.zero) (Unchanged F (startWindows conf) 1) := by
  have hcall : RADalgoBidir conf inp AlgoState.zero = (do
      let s ← updateErrors conf.metaparam inp.stamp (copyStamp inp.stamp (initPhase conf inp.stamp
        (recordStamp inp.stamp (nextStamp conf AlgoState.zero))))
      pure (fillOutput inp.stamp.RTT s)) := by
    unfold RADalgoBidir reactToUpdate
    rw [hupd]
    rfl
  have hrest : Returns (RADalgoBidir conf inp AlgoState.zero) fun s =>
      s.win.plocalWin = (startWindows conf).plocalWin ∧ s.poll.pollChangedI = 0 ∧
        s.ends.wwidth = 1 := by
    rw [hcall]
    obtain ⟨stats, hcopy⟩ := copyStamp_frame inp.stamp (initPhase conf inp.stamp
      (recordStamp inp.stamp (nextStamp conf (AlgoState.zero : AlgoState D))))
    rw [hcopy]
    refine Returns.bind (updateErrors_frame _ _ _) ?_
    rintro s1 ⟨err, rfl⟩
    exact Returns.pure ⟨rfl, rfl, rfl⟩
  refine ((RADalgoBidir_running_first conf inp hinp).and hrest).mono ?_
  rintro s ⟨h, hplocal, hpoll, hwidth⟩
  exact ⟨h, hplocal, hpoll, by omega⟩

theorem run_unchanged (hupd : conf.algoUpdate = false) (inp : Input D) (inps : List (Input D))
    (hf : Follows F 0 (under conf (inp :: inps))) : Returns (run (under conf (inp :: inps)))
      (Unchanged F (startWindows conf) (under conf (inp :: inps)).length) := by
  have hm : RunMeets (fun c (_ : AlgoState D) => c.conf = conf) (under conf (inp :: inps))
      AlgoState.zero := RunMeets.of_forall (fun c hc _ => by
    obtain ⟨inp', -, rfl⟩ := List.mem_map.mp (show c ∈ List.map _ (inp :: inps) from hc)
    rfl) _
  refine run_returns (fun hinp _ => ?_) (fun k c s' hinp h hc => ?_) hf hm
  · exact RADalgoBidir_firstUnchanged _ hinp hupd
  · rw [hc]
    exact RADalgoBidir_unchanged c.inp hinp hupd h

/-- With shift windows that are still to be filled, a call reaches `process_plocal_full` without
looking up anything. -/
theorem toPlocal_total (hsi : s.si = n) (hsw : n + 1 < s.win.shiftWin)
    (hbound : s.win.shiftWin < 2 ^ 64) (hhalf : n ≠ s.win.hWin / 2) (hend : n ≠ s.win.historyEnd)
    (inp : Input D) : Sat (fun _ => True) False (toPlocal inp s) (fun _ => True) := by
  have hgrow (e : Nat) : n < wsub s.win.shiftWin 1 + e := by
    rw [wsub_of_le (by omega)]
    omega
  unfold toPlocal toUpshift
  rw [manageHistorywin_idle _ _ (hsi ▸ hhalf) (hsi ▸ hend), pure_bind]
  refine Sat.bind (Q := fun s1 => s1.si = n ∧ s1.win = s.win) ?_ ?_
  · refine Sat.ite (fun _ => Sat.pure ⟨hsi, rfl⟩) fun hslide => ?_
    exact absurd (hgrow s.win.shiftEnd) (hsi ▸ hslide)
  rintro s1 ⟨hsi1, hwin1⟩
  refine Sat.bind (Q := fun s2 => s2.si = n ∧ s2.win = s.win) ?_ ?_
  · -- the loop that corrects the RTThat history is skipped
    have hskip : s1.si < upshiftJmin s1 :=
      lt_upshiftJmin (by rw [hsi1, hwin1]; exact hsw) (hwin1 ▸ hbound)
    by_cases hd : Detects s1
    · obtain ⟨perr, nhat, heq⟩ := detectUpshift_eq hd
      rw [heq, rewriteBack_skip _ hskip]
      exact Sat.pure ⟨hsi1, hwin1⟩
    · unfold detectUpshift
      rw [if_neg (show ¬ s1.rtt.RTThat + s1.rtt.RTThatShiftThres < s1.rtt.RTThatShift from hd)]
      exact Sat.pure ⟨hsi1, hwin1⟩
  rintro s2 ⟨hsi2, hwin2⟩
  refine Sat.bind (Q := fun _ => True) ?_ fun s3 _ => ?_
  · refine Sat.bind (Q := fun _ => True) (Sat.ite (fun _ => Sat.pure True.intro) fun hslide => ?_)
      fun _ _ => Sat.pure True.intro
    change ¬ s2.si < wsub s2.win.shiftWin 1 + s2.win.shiftEndOWD at hslide
    rw [hsi2, hwin2] at hslide
    exact absurd (hgrow _) hslide
  refine Sat.bind (updateNextPstamp_sat True.intro) fun s4 _ => ?_
  exact processPhatFull_sat True.intro True.intro True.intro

omit [Arith D] in
/-- The index asked for wraps, and passes for available. -/
theorem pastTest_of_wrap (hsi : s.si = n) (hplocal : n + 1 < s.win.plocalWin)
    (hbound : s.win.plocalWin + s.ends.wwidth + s.ends.wwidth / 2 ≤ 2 ^ 64)
    (havail : availableEnd s ≤ n) : PastTest s := by
  have hwrap : requiredEnd s =
      2 ^ 64 + (n + 1) - (s.win.plocalWin + s.ends.wwidth + s.ends.wwidth / 2) := by
    unfold requiredEnd wsub
    rw [hsi, if_neg (by omega)]
  unfold PastTest
  omega

/-- A run through warmup, and a change after which the local period is taken from windows that
begin before stamp `0`. -/
theorem run_unavailable {conf' : Config D} (hupd : conf.algoUpdate = false)
    (hW : (startWindows conf).warmupWin = n) (hsz : n < 2 ^ 32)
    (hroom : (startWindows conf).shiftWin + 2 ≤ n) (hc : Widens conf' n)
    (hsw : n + 1 < baseShiftWin conf'.metaparam conf'.pollPeriod)
    (hbound : baseShiftWin conf'.metaparam conf'.pollPeriod < 2 ^ 64)
    (hplocal : n + 1 < basePlocalWin conf'.metaparam conf'.pollPeriod)
    (hplocal' : basePlocalWin conf'.metaparam conf'.pollPeriod < 2 ^ 32)
    (hwidth : fullWwidth (startWindows conf).plocalWin < 2 ^ 32)
    (hhalf : n < (startWindows conf).hWin / 2) (hhalf' : n ≠ baseHWin conf'.pollPeriod / 2)
    (inp : Input D) :
    ¬ Returns (run (under conf (inputsOf F n)) >>= beginCall ⟨conf', inp⟩)
      (SearchesAvailable ⟨conf', inp⟩) := by
  have hlong := (startWindows_ok conf).hundred
  have hwarmed := run_warmed F hupd hW hsz hroom hhalf
  obtain ⟨i, is, hcons, hlen⟩ := inputsOf_cons F (n := n) (by omega)
  have hf : Follows F 0 (under conf (inputsOf F n)) := follows_inputsOf F n
  rw [hcons] at hf hwarmed ⊢
  have hkeep := run_unchanged hupd i is hf
  rw [under, List.length_map, List.length_cons, Nat.add_comm, hlen] at hkeep
  obtain ⟨s, hres, hc₀, hun⟩ := (hwarmed.and_returns hkeep).exists_res
  obtain ⟨hat, hfull, hst⟩ := hc₀.toInFull.next
  obtain ⟨s1, hres1, h1⟩ := (reactToUpdate_widens hc hat hc₀.full hfull.rtts hst.stock.RTT
    hst.stock.stamp).exists_res
  have hsi1 : s1.si = n := si_of_idx h1.idx
  generalize hs2 : recordStamp inp.stamp s1 = s2
  have hbegin : (run (under conf (i :: is)) >>= beginCall ⟨conf', inp⟩).res = some s2 := by
    refine bind_res_some.mpr ⟨s, hres, ?_⟩
    unfold beginCall
    rw [hc₀.nextStamp]
    exact bind_res_some.mpr ⟨s1, hres1, hs2 ▸ rfl⟩
  have hsi2 : s2.si = n := hs2 ▸ hsi1
  have hwin2 : s2.win = s1.win := hs2 ▸ rfl
  have htotal : Sat (fun _ => True) False (toPlocal inp s2) (fun _ => True) := by
    refine toPlocal_total hsi2 ?_ ?_ ?_ ?_ inp
    · rw [hwin2, h1.shiftWin]
      exact hsw
    · rw [hwin2, h1.shiftWin]
      exact hbound
    · rw [hwin2, h1.hWin]
      exact hhalf'
    · rw [hwin2, h1.historyEnd]
      show n ≠ s.win.historyEnd
      rw [hc₀.historyEnd, wsub_of_le (by omega)]
      omega
  obtain ⟨s3, hres3, -⟩ := htotal.exists_res
  obtain ⟨hsame, hends⟩ := toPlocal_series inp s3 hres3
  have hsi3 : s3.si = n := by
    unfold AlgoState.si
    rw [hsame.idx]
    exact hsi2
  have hplocal3 : s3.win.plocalWin = basePlocalWin conf'.metaparam conf'.pollPeriod := by
    rw [hsame.plocalWin, hwin2]
    exact h1.plocalWin
  have hpast : PastTest s3 := by
    refine pastTest_of_wrap hsi3 (hplocal3 ▸ hplocal) ?_ ?_
    · have hw := hun.width
      rw [hplocal3, hends, ← hs2]
      show _ + s1.ends.wwidth + s1.ends.wwidth / 2 ≤ 2 ^ 64
      rw [h1.ends]
      show _ + s.ends.wwidth + s.ends.wwidth / 2 ≤ 2 ^ 64
      omega
    · obtain ⟨sz, hsz1, hst1⟩ := h1.stamps
      obtain ⟨sz', hsz1', hst1'⟩ := h1.stock
      have hpoll : s1.poll.pollChangedI ≤ n := by
        rcases h1.pollChangedI with h | h
        · rw [h]
          exact Nat.le_trans (Nat.le_of_eq hun.pollChangedI) (Nat.zero_le n)
        · exact Nat.le_of_eq h
      have hstamp2 : Stocked sz (n + 1) s2.hist.stamp := by
        rw [← hs2]
        show Stocked _ _ (historyAdd s1.hist.stamp s1.si inp.stamp)
        rw [hsi1]
        exact hst1.add _
      have hRTT2 : Stocked sz' (n + 1) s2.hist.RTT := by
        rw [← hs2]
        show Stocked _ _ (historyAdd s1.hist.RTT s1.si inp.stamp.RTT)
        rw [hsi1]
        exact hst1'.add _
      unfold availableEnd
      rw [hsame.pollChangedI, hsame.stamp, hsame.RTT, hstamp2.old (Nat.succ_pos n) (by omega),
        hRTT2.old (Nat.succ_pos n) (by omega), ← hs2]
      refine Nat.max_le.mpr ⟨hpoll, Nat.max_le.mpr ⟨?_, ?_⟩⟩
      · omega
      · omega
  intro hall
  have hfull2 : s2.win.warmupWin ≤ s2.si := by
    rw [hwin2, hsi2]
    exact h1.full
  -- the far window would begin before stamp `0`
  obtain ⟨-, hslide⟩ := (hall s2 hbegin).1 hfull2 s3 hres3 hpast
  have hleft := hslide.far.left
  rw [hsi3, hplocal3] at hleft
  omega

/-- The default configuration, whose polling period has just been changed to a second. -/
def everySecond : Config Float := pollSet 0

theorem widens_everySecond : Widens everySecond 480 := by
  refine ⟨by decide, by decide +kernel, by decide +kernel, fun w => ?_, fun w => ?_⟩
  · show 481 ≤ histSz (max (basePlocalWin everySecond.metaparam everySecond.pollPeriod +
      basePlocalWin everySecond.metaparam everySecond.pollPeriod / _) _)
    decide
  · show 481 ≤ histSz (max (basePlocalWin everySecond.metaparam everySecond.pollPeriod +
      basePlocalWin everySecond.metaparam everySecond.pollPeriod / _) _)
    decide +kernel

/-- The polling period drops from 16 seconds to one right after warmup. -/
theorem not_searchesAvailable : ¬ ∀ (cs : List (Call Float)) (c : Call Float),
    Returns (run cs >>= beginCall c) (SearchesAvailable c) := by
  intro hall
  obtain ⟨hW, hshift⟩ := startWindows_everySixteen
  refine run_unavailable (F := steady) (n := 480) (by decide) hW (by decide) ?_ widens_everySecond
    ?_ ?_ ?_ ?_ ?_ ?_ ?_ ⟨steady 480, false, 0⟩ (hall (under everySixteen _) _)
  · rw [hshift]
    decide
  all_goals decide +kernel

end RADclock
