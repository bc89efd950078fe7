import RADclock.Lib.Real
import RADclock.Daemon.WarmupHistory
import RADclock.Sync.OffsetWindow
import RADclock.Sync.SecondBest
import RADclock.Sync.WarmupPackets

/-!
# The recorded bound

- `recorded_bound_iff`: when the bound that is recorded is the second best error of the window.
- `recorded_bound_zero`: it is not for ideal stamps, in exact arithmetic. Of packets with the same
  RTT the newest is the best. The bound that warmup then records is zero, the value of its local
  before the loop, although every other packet has aged.
-/

namespace RADclock

open Lib Lib.Exec

section Bound

variable {D : Type} [Arith D] {num : D → Prop}

/-- Every state and every stamp, in warmup and in the full phase: of a window of at least two
stamps, the recorded bound is the second best error if and only if the loop recovers. -/
theorem recorded_bound_iff (ho : OrderedNumbers num) (mp : Metaparam D) (st : BidirStamp D)
    (q : Bool) (Ebound : D) (s : AlgoState D) :
    (Returns (warmupBest mp st s) fun a =>
      warmupJmin (recordTheta (naiveTheta s st) s) < s.si → GoodQuality s a →
        Returns (processThetahatWarmup mp st s) fun s' =>
          (WarmupSecondBest mp st s s'.err.EboundMinLast ↔ WarmupRecovers num mp st s)) ∧
      Returns (fullBest mp st s) fun a =>
        fullJmin (recordTheta (naiveTheta s st) s) < s.si → GoodQuality s a →
          PassesSanity st q s a → Returns (processThetahatFull mp st q Ebound s) fun s' =>
            (FullSecondBest mp st s s'.err.EboundMinLast ↔ FullRecovers num mp st Ebound s) :=
  ⟨warmup_secondBest ho mp st s, full_secondBest ho mp st q Ebound s⟩

end Bound

/-! ## Parameters in warmup -/

section Params

variable {D : Type} [Arith D] {F : Nat → BidirStamp D} {n : Nat} {s : AlgoState D} {w : Windows}
  {conf : Config D}

/-- The quality threshold is that of the configuration, and the polling period has not changed. -/
structure Params (conf : Config D) (s : AlgoState D) : Prop where
  quality : s.thres.EoffsetQual =
    3.0 * (Arith.ofInt conf.metaparam.offsetRatio * conf.metaparam.TSLIMIT)
  noTransition : s.poll.pollTransitionTh = 0

theorem endCall_params {mp : Metaparam D} (st : BidirStamp D) (h : Params conf s) :
    Returns (endCall mp st s) (Params conf) := by
  obtain ⟨stats, hcopy⟩ := copyStamp_frame st s
  unfold endCall
  rw [hcopy]
  refine Returns.bind (updateErrors_frame _ _ _) ?_
  rintro s1 ⟨err, rfl⟩
  exact Returns.pure ⟨h.quality, h.noTransition⟩

theorem RADalgoBidir_params_first (hupd : conf.algoUpdate = false) (inp : Input D) :
    Returns (RADalgoBidir conf inp AlgoState.zero) (Params conf) := by
  have hbegin : beginCall ⟨conf, inp⟩ (AlgoState.zero : AlgoState D) =
      pure (recordStamp inp.stamp (nextStamp conf AlgoState.zero)) := by
    unfold beginCall reactToUpdate
    rw [hupd]
    rfl
  rw [show RADalgoBidir conf inp AlgoState.zero = _ from RADalgoBidir_eq ⟨conf, inp⟩ _, hbegin,
    pure_bind]
  refine Returns.bind (Q := Params conf) (Returns.pure ⟨rfl, rfl⟩) fun s1 h1 => ?_
  exact endCall_params inp.stamp h1

theorem RADalgoBidir_params (hupd : conf.algoUpdate = false) (inp : Input D)
    (hinp : inp.stamp = F n)
    (h : InWarm F w n s) (hmore : n + 1 < w.warmupWin) (hp : Params conf s) :
    Returns (RADalgoBidir conf inp s) (Params conf) := by
  have hidx := h.inv.idx
  have hpos := h.inv.pos
  obtain ⟨hat, -, -⟩ := h.record
  rw [show RADalgoBidir conf inp s = _ from RADalgoBidir_eq ⟨conf, inp⟩ s,
    beginCall_idle ⟨conf, inp⟩ hupd (by omega), pure_bind]
  rw [hinp, phases_warm conf inp hat (show n < s.win.warmupWin from h.win ▸ h.more), hinp]
  refine Returns.bind (Q := Params conf) ?_ fun s1 h1 => endCall_params (F n) h1
  refine Returns.bind ((warmupAlgos_frame _ _ _).and (warmupAlgos_poll _ _)) ?_
  rintro s1 ⟨⟨i, owd, Df, Db, th, ends, phat, perr, t, off, bound, stt, out, rfl⟩, hpoll⟩
  refine Returns.ite (fun hlast => ?_) fun _ => Returns.pure ⟨hp.quality, ?_⟩
  · change AlgoState.si { s with stampI := s.stampI + 1 } = wsub s.win.warmupWin 1 at hlast
    rw [h.inv.next_at.si, h.win, wsub_of_le (by omega)] at hlast
    omega
  · rw [hpoll]
    show s.poll.pollTransitionTh - 1 = 0
    rw [hp.noTransition]

end Params

/-! ## Ideal stamps -/

/-- The defaults, with the polling period of 16 seconds, in exact arithmetic. -/
noncomputable def exactSixteen : Config ℝ := pollEvery 4

/-- A call with an ideal stamp. -/
noncomputable def idealCall (k : Nat) : Call ℝ := ⟨exactSixteen, ⟨steady k, false, 0⟩⟩

theorem startWindows_exact : (startWindows exactSixteen).warmupWin = 480 := by
  have hoffset : baseOffsetWin (defaultMetaparam : Metaparam ℝ) 16 = 64 := by
    show max ⌊(1024.0 : ℝ) / (16 : ℕ)⌋₊ 2 = 64
    norm_num
  have hshift : baseShiftWin (defaultMetaparam : Metaparam ℝ) 16 = 100 := by
    show max ⌊((⌈(10.0 : ℝ) * 0.000015 / 1e-7 / (16 : ℕ)⌉ : ℤ) : ℝ)⌋₊ 100 = 100
    norm_num
  have hplocal : basePlocalWin (defaultMetaparam : Metaparam ℝ) 16 = 320 := by
    unfold basePlocalWin
    rw [hoffset]
    rfl
  show adjustedWarmup 0 16 { newWindows defaultMetaparam 16 _ with warmupWin := 100 } = 480
  unfold newWindows
  rw [hoffset, hshift, hplocal]
  rfl

theorem orderedNumbers_real : OrderedNumbers (fun _ : ℝ => True) where
  strict := {
    irrefl := fun a => decide_eq_false (lt_irrefl a)
    trans := fun _ _ _ hab hbc =>
      decide_eq_true (lt_trans (of_decide_eq_true hab) (of_decide_eq_true hbc)) }
  between := fun _ _ c _ hlt => (lt_or_ge _ c).imp_right fun hle => lt_of_le_of_lt hle hlt
  refl := fun _ _ => decide_eq_true rfl
  below := fun _ _ _ => True.intro

/-- The period of the ideal counter. -/
theorem computePhat_ideal :
    (computePhat (steady 0) (steady 2) : Algo ℝ ℝ).res = some (1 / 1000000000) := by
  have hTa : (steady 2 : BidirStamp ℝ).Ta - (steady 0 : BidirStamp ℝ).Ta = 2000000000 := by decide
  have hTf : (steady 2 : BidirStamp ℝ).Tf - (steady 0 : BidirStamp ℝ).Tf = 2000000000 := by decide
  have hTb : (steady 2 : BidirStamp ℝ).Tb - (steady 0 : BidirStamp ℝ).Tb = 2 := by
    show ((3 : ℕ) : ℝ) - (1 : ℕ) = 2
    norm_num
  have hTe : (steady 2 : BidirStamp ℝ).Te - (steady 0 : BidirStamp ℝ).Te = 2 := hTb
  have hD : (vcD 2000000000 : ℝ) = 2000000000 := by
    show ((2000000000 : ℕ) : ℝ) = 2000000000
    norm_num
  show (if (steady 2 : BidirStamp ℝ).Ta - (steady 0 : BidirStamp ℝ).Ta = 0 ∨ _ ∨ _ ∨ _ then
    (pure 0 : Algo ℝ ℝ) else pure _).res = _
  have hpos : ¬ (2 : ℝ) ≤ 0 := by norm_num
  rw [hTa, hTf, hTb, hTe, hD, if_neg (not_or.mpr ⟨by decide, not_or.mpr ⟨hpos, not_or.mpr
    ⟨hpos, by decide⟩⟩⟩)]
  refine congrArg some ?_
  show ((2 : ℝ) / 2000000000 + 2 / 2000000000) / 2.0 = _
  norm_num

/-- Weights are positive in exact arithmetic. -/
theorem warmupLoop_wsum {mp : Metaparam ℝ} {st : BidirStamp ℝ} {jmin : Nat} {s : AlgoState ℝ} :
    ∀ (j : Nat) (a : ThetaAcc ℝ), Returns (warmupLoop mp s st jmin j a) fun r =>
      a.wsum ≤ r.wsum ∧ (1 ≤ j → jmin ≤ j → a.wsum < r.wsum) := by
  intro j
  induction j with
  | zero => exact fun a => Returns.pure ⟨le_refl _, fun h => absurd h (by decide)⟩
  | succ j ih =>
    intro a
    refine Returns.ite (fun hlt => Returns.pure ⟨le_refl _, fun _ h => absurd hlt (by omega)⟩)
      fun _ => ?_
    refine Returns.skip fun p => Returns.skip fun d => Returns.skip fun th => ?_
    refine (ih _).mono fun r hr => ?_
    have hadd : a.wsum < (a.add s (j + 1) (errET mp s p.1 s.rtt.RTThat d) th).wsum :=
      lt_add_of_pos_right a.wsum (Real.exp_pos _)
    exact ⟨le_trans (le_of_lt hadd) hr.1, fun _ _ => lt_of_lt_of_le hadd hr.1⟩

/-! ## The third stamp -/

/-- Before the offset algorithm of the third stamp. -/
structure Third (s : AlgoState ℝ) : Prop where
  at2 : At steady 2 s
  warm : Warm steady 3 3 3 s
  stock : Stock (evenSizes 480) 3 3 2 0 s.hist
  packets : WarmupPackets steady 3 s
  params : Params exactSixteen s

/-- The first two stamps. -/
theorem run_ideal : Sat Event.Held False (run [idealCall 0, idealCall 1]) fun s =>
    InWarm steady (startWindows exactSixteen) 2 s ∧ Params exactSixteen s ∧
      PacketsInv steady 2 s := by
  have hW := startWindows_exact
  have hupd : exactSixteen.algoUpdate = false := by decide
  have hf : Follows steady 0 [idealCall 0, idealCall 1] := by
    intro k c hk
    match k with
    | 0 => exact Option.some.inj hk ▸ rfl
    | 1 => exact Option.some.inj hk ▸ rfl
    | k + 2 => cases hk
  have hheld : Sat Event.Held False (run [idealCall 0, idealCall 1]) fun s =>
      InWarm steady (startWindows exactSixteen) 2 s ∧ Params exactSixteen s := by
    refine Sat.bind ((RADalgoBidir_first exactSixteen (idealCall 0).inp (hf 0 _ rfl) hupd
      (by rw [hW]; decide)).and_returns (RADalgoBidir_params_first hupd _)) ?_
    rintro s₁ ⟨h1, hp1⟩
    refine Sat.bind (((RADalgoBidir_warm exactSixteen (idealCall 1).inp (hf 1 _ rfl) hupd
      h1).and_returns
      (RADalgoBidir_params hupd _ rfl h1 (by rw [hW]; decide) hp1))) ?_
    rintro s₂ ⟨h2 | ⟨-, hlast, -⟩, hp2⟩
    · exact Sat.pure ⟨h2, hp2⟩
    · rw [hW] at hlast
      cases hlast
  refine (hheld.and_returns (run_packets hf)).mono ?_
  rintro s ⟨⟨h1, h2⟩, h3⟩
  exact ⟨h1, h2, h3⟩

theorem reach_third :
    ∃ s, (run [idealCall 0, idealCall 1] >>= beginCall (idealCall 2) >>=
      beforeTheta (steady 2)).res =
      some s ∧ Third s := by
  have hW := startWindows_exact
  have hupd : exactSixteen.algoUpdate = false := by decide
  have hcall : Sat Event.Held False (run [idealCall 0, idealCall 1] >>= fun s =>
      beginCall (idealCall 2) s >>= beforeTheta (steady 2)) Third := by
    refine Sat.bind run_ideal ?_
    rintro s ⟨hwarm, hparams, hpackets⟩
    have hidx := hwarm.inv.idx
    obtain ⟨hat, hin, hst⟩ := hwarm.record
    rw [hW] at hst
    have hbegin := beginCall_warm (idealCall 2) rfl hpackets
    rw [beginCall_idle (idealCall 2) hupd (by omega)] at hbegin ⊢
    obtain ⟨-, hmore⟩ := hbegin _ rfl
    obtain ⟨hwithin, hchosen⟩ := hmore (show 2 < s.win.warmupWin by rw [hwarm.win, hW]; decide)
    rw [pure_bind]
    refine ((beforeTheta_held hat hin hst (by decide)).and_returns
      ((beforeTheta_packets (by decide) hwithin hchosen).and (beforeTheta_frame _ _))).mono ?_
    rintro s' ⟨⟨⟨hat', -, hin'⟩, hst'⟩, hpackets', i, owd, Df, Db, ends, K, phat, perr, rfl⟩
    exact ⟨hat', hin', hst', hpackets', ⟨hparams.quality, hparams.noTransition⟩⟩
  rw [bind_assoc]
  exact hcall.exists_res

section Third

variable {s : AlgoState ℝ}

theorem Third.phat (h : Third s) : s.osc.phat = 1 / 1000000000 := by
  have hwidth := h.packets.ends.width
  have hfar := h.packets.ends.far.right
  have hnear := h.packets.ends.near.left
  have hnear' := h.packets.ends.near.right
  have hf : s.ends.farI = 0 := by omega
  have hn : s.ends.nearI = 2 := by omega
  have hperiod := h.packets.period (by decide)
  rw [hf, hn] at hperiod
  refine hperiod _ computePhat_ideal (decide_eq_false ?_)
  norm_num

theorem Third.err (h : Third s) {j : Nat} (hj : j ≤ 2) : packetErr defaultMetaparam (steady 2) s j =
    1 / 1000000000 * vcD ((steady 2 : BidirStamp ℝ).Tf - (steady j : BidirStamp ℝ).Tf) * 2e-7 := by
  have hpoint : Sat Event.Held False (rttAndStamp s j) fun p => p = (rttOf steady j, steady j) :=
    rttAndStamp_sat hj h.warm.stamps h.warm.rtts
      (h.stock.stamp.okFrom (show 3 ≤ 0 + 480 by decide) _ (Nat.zero_le _) (by omega))
      (h.stock.RTT.okFrom (show 3 ≤ 0 + 480 by decide) _ (Nat.zero_le _) (by omega))
  obtain ⟨p, hres, rfl⟩ := hpoint.exists_res
  have hhat : s.rtt.RTThat = 1000000 := h.packets.RTThat.trans (rttOf_steady _)
  unfold packetErr errET
  rw [hres, hhat, h.phat]
  dsimp only
  rw [rttOf_steady, sub_self, mul_zero, zero_add]
  rfl

theorem Third.err_newest (h : Third s) : packetErr defaultMetaparam (steady 2) s 2 = 0 := by
  rw [h.err (Nat.le_refl 2), UInt64.sub_self]
  show 1 / 1000000000 * ((0 : ℕ) : ℝ) * 2e-7 = 0
  norm_num

theorem Third.err_first (h : Third s) : 0 < packetErr defaultMetaparam (steady 2) s 1 := by
  rw [h.err (by decide)]
  show 0 < 1 / 1000000000 * ((1000000000 : ℕ) : ℝ) * 2e-7
  norm_num

/-- The window is `[1, 2]`. -/
theorem Third.jmin (h : Third s) :
    warmupJmin (recordTheta (naiveTheta s (steady 2)) s) = 1 := by
  have hsi : s.si = 2 := h.at2.si
  have hoffset := h.warm.win.offset
  have hthnaive : Stocked 480 3 (historyAdd s.hist.thnaive 2 (naiveTheta s (steady 2))) :=
    h.stock.thnaive.add _
  have hwin : thetaWin (recordTheta (naiveTheta s (steady 2)) s) = s.win.offsetWin := by
    unfold thetaWin
    exact if_neg (by rw [show (recordTheta _ s).poll.pollTransitionTh =
      0 from h.params.noTransition]; decide)
  unfold warmupJmin
  rw [hwin]
  show max (safeJmin 1 s.si s.win.offsetWin) (max (historyOld s.hist.RTT) (historyOld
    (historyAdd s.hist.thnaive s.si (naiveTheta s (steady 2))))) = 1
  rw [hsi, h.stock.RTT.old (by decide) (by decide), hthnaive.old (by decide) (by decide)]
  show max (safeJmin 1 2 s.win.offsetWin) (max (3 - 480) (3 - 480)) = 1
  unfold safeJmin
  rw [wsub_of_le (show 1 ≤ s.win.offsetWin by omega)]
  split <;> omega

theorem Third.best (h : Third s) :
    bestPacket (packetErr defaultMetaparam (steady 2) s) 1 2 = 2 := by
  show (if packetErr defaultMetaparam (steady 2) s 1 < packetErr defaultMetaparam (steady 2) s 2
    then 1 else 2) = 2
  rw [h.err_newest]
  exact if_neg (not_lt.mpr (le_of_lt h.err_first))

/-- The quality is good, and zero is recorded. -/
theorem Third.not_secondBest (h : Third s) :
    ¬ Returns (warmupBest defaultMetaparam (steady 2) s) fun a =>
      warmupJmin (recordTheta (naiveTheta s (steady 2)) s) < s.si → GoodQuality s a →
        Returns (processThetahatWarmup defaultMetaparam (steady 2) s) fun s' =>
          WarmupSecondBest defaultMetaparam (steady 2) s s'.err.EboundMinLast := by
  intro hall
  have hsi : s.si = 2 := h.at2.si
  have hjmin := h.jmin
  have hbest := h.best
  have hheld : Sat Event.Held False (processThetahatWarmup defaultMetaparam (steady 2) s) _ :=
    processThetahatWarmup_held h.at2 h.warm h.stock (by decide)
  obtain ⟨s', hres', -⟩ := hheld.exists_res
  obtain ⟨a, ha, -⟩ := bind_res_some.mp hres'
  -- two stamps in the window, and the best packet has error 0
  have hloop : Returns (warmupBest defaultMetaparam (steady 2) s) fun a =>
      a.minET = 0 ∧ 0 < a.wsum := by
    have hle : warmupJmin (recordTheta (naiveTheta s (steady 2)) s) ≤ s.si := by
      rw [hjmin, hsi]
      decide
    refine ((warmupLoop_best (s := stepTransition (recordTheta (naiveTheta s (steady 2)) s)) hle
      (show 1 ≤ s.si by omega) _).and (warmupLoop_wsum _ _)).mono fun r hr => ?_
    obtain ⟨⟨hjbest, hrec⟩, -, hpos⟩ := hr
    refine ⟨?_, hpos (show 1 ≤ s.si by omega) hle⟩
    change r.jbest = bestPacket (packetErr defaultMetaparam (steady 2) s) _ s.si at hjbest
    rw [hjmin, hsi, hbest] at hjbest
    rw [hrec, hjbest]
    exact h.err_newest
  obtain ⟨hmin, hwsum⟩ := hloop a ha
  have hgood : GoodQuality s a := by
    constructor
    · rw [hmin, h.params.quality]
      show 0 < (3.0 : ℝ) * (((10 : ℤ) : ℝ) * 0.000015)
      norm_num
    · exact decide_eq_false (ne_of_gt hwsum)
  have hwin : warmupJmin (recordTheta (naiveTheta s (steady 2)) s) < s.si := by
    rw [hjmin, hsi]
    decide
  -- were the bound the second best, it would be the newest error
  have hrec := (warmup_secondBest orderedNumbers_real defaultMetaparam (steady 2) s a ha hwin hgood
    s' hres').mp (hall a ha hwin hgood s' hres')
  unfold WarmupRecovers at hrec
  rw [hjmin, hsi, hbest] at hrec
  obtain ⟨j, h1, h2, hj⟩ := hrec.newest rfl
  obtain rfl : j = 1 := by omega
  have hpos := h.err_first
  -- but the error of stamp 1 is positive
  rcases hj with hj | hj
  · exact lt_asymm hpos hj
  · exact ne_of_gt hpos hj

end Third

/-- The bound recorded for the third of three ideal stamps is not the second best error. -/
theorem recorded_bound_zero :
    ∃ s, (run [idealCall 0, idealCall 1] >>= beginCall (idealCall 2) >>=
      beforeTheta (steady 2)).res =
      some s ∧ ¬ Returns (warmupBest defaultMetaparam (steady 2) s) fun a =>
        warmupJmin (recordTheta (naiveTheta s (steady 2)) s) < s.si → GoodQuality s a →
          Returns (processThetahatWarmup defaultMetaparam (steady 2) s) fun s' =>
            WarmupSecondBest defaultMetaparam (steady 2) s s'.err.EboundMinLast := by
  obtain ⟨s, hres, h⟩ := reach_third
  exact ⟨s, hres, h.not_secondBest⟩

/-- The bound under the defaults, in binary64. -/
theorem recorded_bound_default : Returns (run (under everySixteen (inputsOf steady 2))) fun s =>
    (Returns (warmupBest everySixteen.metaparam (steady 2) s) fun a =>
      warmupJmin (recordTheta (naiveTheta s (steady 2)) s) < s.si → GoodQuality s a →
        Returns (processThetahatWarmup everySixteen.metaparam (steady 2) s) fun s' =>
          (WarmupSecondBest everySixteen.metaparam (steady 2) s s'.err.EboundMinLast ↔
            WarmupRecovers IsNumber everySixteen.metaparam (steady 2) s)) ∧
      Returns (fullBest everySixteen.metaparam (steady 2) s) fun a =>
        fullJmin (recordTheta (naiveTheta s (steady 2)) s) < s.si → GoodQuality s a →
          PassesSanity (steady 2) false s a →
            Returns (processThetahatFull everySixteen.metaparam (steady 2) false 0 s) fun s' =>
              (FullSecondBest everySixteen.metaparam (steady 2) s s'.err.EboundMinLast ↔
                FullRecovers IsNumber everySixteen.metaparam (steady 2) 0 s) :=
  fun s _ => recorded_bound_iff orderedNumbers_float everySixteen.metaparam (steady 2) false 0 s

end RADclock
