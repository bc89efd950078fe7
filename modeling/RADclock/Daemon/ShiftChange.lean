import RADclock.Daemon.Widened
import RADclock.Sync.SecondBest
import RADclock.Sync.ShiftWindows

/-!
# Shift windows after a change, in runs

- `shifts_valid_iff`: after an update in the full phase both shift windows are valid, and stay so
  with the next stamp, exactly if the resized histories reach back to their left ends.
- `shifts_valid_eased`: they are after a change from 16 to 32 seconds. The run is one of clocks that
  stand still, so that all delays are known to be numbers.
- `not_shiftsValid`: they are not after a change from 8 to 1024 seconds, which leaves the histories
  a hundred slots. The window of the RTT starts again within what is left, but that of the OWDs
  begins before it.
-/

namespace RADclock

open Lib Lib.Exec

section Shrink

variable {D : Type} [Arith D] {F : Nat → BidirStamp D} {n : Nat} {conf conf' : Config D}

/-- A run through warmup, and a change that leaves fewer delays than the shift window has. -/
theorem run_shrunk (hupd : conf.algoUpdate = false) (hW : (startWindows conf).warmupWin = n)
    (hsz : n < 2 ^ 32) (hroom : (startWindows conf).shiftWin + 2 ≤ n)
    (hhalf : n < (startWindows conf).hWin / 2) (hupd' : conf'.algoUpdate = true)
    (hless : resizedTo conf' < (startWindows conf).shiftWin) :
    ∃ s, (run (under conf (inputsOf F n))).res = some s ∧ NextFull s ∧
      ∃ s', (reactToUpdate conf' (nextStamp conf' s)).res = some s' ∧ ¬ ShiftsValid n s' := by
  obtain ⟨s, hres, hs⟩ := (run_warmed F hupd hW hsz hroom hhalf).exists_res
  obtain ⟨hat, hfull, hst⟩ := hs.toInFull.next
  have hle := hs.full
  have hpos := hs.inv.pos
  have hidx := hs.inv.idx
  have hold : s.hist.RTT.oldestI < n := by
    have := hs.stock.stock.RTT.oldest
    change s.hist.RTT.oldestI = n - n at this
    omega
  obtain ⟨s', hres', hre⟩ := (reactToUpdate_restarted (s := { s with stampI := s.stampI + 1 }) conf'
    hat.idx hle ⟨hold, _, hfull.rtts⟩ hupd').exists_res
  refine ⟨s, hres, ⟨by omega, by omega⟩, s', ?_, fun hv => ?_⟩
  · rw [hs.nextStamp]
    exact hres'
  -- the left end of the window is older than what is left of the delays
  have hheld := (hv.Df.held s'.win.shiftEndOWD (Nat.le_refl _) hv.Df.left).1
  have hleft := hs.stock.shiftOWD
  have hshift := hs.shiftWin
  have hkept : Stocked (resizedTo conf') n s'.hist.Df := by
    rw [hre.Df]
    exact hs.stock.stock.Df.resize (Or.inr (Nat.le_refl n))
  rw [hre.shiftEndOWD, hkept.oldest] at hheld
  change n - resizedTo conf' ≤ s.win.shiftEndOWD at hheld
  omega

end Shrink

/-- The defaults, with a polling period of 8 seconds. -/
def everyEight : Config Float := pollEvery 3

/-- The same, with a polling period that has just been changed to 1024 seconds. -/
def slowed : Config Float := pollSet 10

theorem startWindows_everyEight : (startWindows everyEight).warmupWin = 960 ∧
    (startWindows everyEight).shiftWin = 188 ∧ (startWindows everyEight).hWin = 75600 := by
  decide +kernel

/-! ## Delays that are numbers -/

section Idle

variable {D : Type} [Arith D] {F : Nat → BidirStamp D} {n : Nat} {s : AlgoState D}
  {mp : Metaparam D}

/-- A window in which all errors are the same. -/
theorem warmupLoop_const {st : BidirStamp D} {jmin : Nat} {c : D}
    (hS : Holds F (n + 1) s.hist.stamp) (hR : Holds (rttOf F) (n + 1) s.hist.RTT) (hsi : s.si = n)
    (hc : ∀ j, 1 ≤ j → j ≤ n → errET mp s (rttOf F j) s.rtt.RTThat (st.Tf - (F j).Tf) = c) :
    ∀ (j : Nat) (a : ThetaAcc D), j ≤ n → (j = n ∨ a.minET = c) →
      Returns (warmupLoop mp s st jmin j a) fun r => r.minET = c ∨ r = a := by
  intro j
  induction j with
  | zero => exact fun a _ _ => Returns.pure (Or.inr rfl)
  | succ j ih =>
    intro a hj ha
    refine Returns.ite (fun _ => Returns.pure (Or.inr rfl)) fun _ => ?_
    have hok {α : Type} (h : History α) : Ok (D := D) (fun _ => True) True h (j + 1) :=
      okFrom_lax (fun _ _ _ _ => True.intro) h 0 (n + 1) _ (Nat.zero_le _) (by omega)
    refine Returns.bind (rttAndStamp_sat hj hS hR (hok _) (hok _)).returns fun p hp => ?_
    refine Returns.bind (counterDiff_value _ _) fun d hd => Returns.skip fun th => ?_
    subst hp hd
    have hmin : (a.add s (j + 1) (errET mp s (rttOf F (j + 1)) s.rtt.RTThat
        (st.Tf - (F (j + 1)).Tf)) th).minET = c := by
      rw [hc (j + 1) (Nat.le_add_left 1 j) hj]
      show (if j + 1 = s.si ∨ c < a.minET then c else a.minET) = c
      rcases ha with hlast | ha
      · rw [if_pos (Or.inl (hlast.trans hsi.symm))]
      · rw [ha, ite_self]
    refine (ih _ (by omega) (Or.inr hmin)).mono fun r hr => Or.inl ?_
    rcases hr with hr | rfl
    · exact hr
    · exact hmin

/-- An estimate of bad quality, or one without weights, is not adopted. -/
theorem judgeWarmup_idle (st : BidirStamp D) {a : ThetaAcc D} (E g : D)
    (ha : ¬ a.minET < s.thres.EoffsetQual ∨ (a.wsum == 0) = true) :
    (judgeWarmup st a E g s).off.thetahat = s.off.thetahat ∧
      (judgeWarmup st a E g s).off.K = s.off.K := by
  by_cases hq : a.minET < s.thres.EoffsetQual
  · have hw : (a.wsum == 0) = true := ha.resolve_left (not_not_intro hq)
    simp only [judgeWarmup, if_pos hq, hw, if_true]
    split
    · exact ⟨True.intro, rfl⟩
    · exact ⟨True.intro, rfl⟩
  · simp only [judgeWarmup, if_neg hq]
    exact ⟨rfl, rfl⟩

/-- With errors all above the threshold of quality, the clock stays as it is. -/
theorem processThetahatWarmup_idle {st : BidirStamp D} {c : D}
    (hS : Holds F (n + 1) s.hist.stamp) (hR : Holds (rttOf F) (n + 1) s.hist.RTT) (hsi : s.si = n)
    (hc : ∀ j, 1 ≤ j → j ≤ n → errET mp s (rttOf F j) s.rtt.RTThat (st.Tf - (F j).Tf) = c)
    (hbad : ¬ c < s.thres.EoffsetQual) (hzero : ((0 : D) == 0) = true) :
    Returns (processThetahatWarmup mp st s) fun s' =>
      s'.off.thetahat = s.off.thetahat ∧ s'.off.K = s.off.K := by
  refine Returns.bind (warmupLoop_const (s := stepTransition (recordTheta (naiveTheta s st) s))
    hS hR hsi hc _ _ (Nat.le_of_eq hsi) (Or.inl hsi)) fun a ha => ?_
  refine Returns.skip fun E => Returns.skip fun d => Returns.skip fun best => Returns.pure ?_
  refine judgeWarmup_idle (s := stepTransition (recordTheta (naiveTheta s st) s)) st E _ ?_
  rcases ha with ha | rfl
  · rw [ha]
    exact Or.inl hbad
  · exact Or.inr hzero

end Idle

/-! ## Clocks that stand still -/

/-- The defaults, with a polling period that has just been changed to 32 seconds. -/
def eased : Config Float := pollSet 5

/-- Stamps of two clocks that stand still. All RTTs but the first are a millisecond. -/
def stuck (k : Nat) : BidirStamp Float where
  Ta := 8000000000
  Tb := 1e9
  Te := 1e9
  Tf := if k = 0 then 8000001000 else 8001000000

theorem still_stuck : Still stuck := by
  refine ⟨fun _ _ => ?_, by decide⟩
  show (1e9 : Float) - 1e9 ≤ 0
  decide

theorem stuck_of_pos {k : Nat} (hk : 0 < k) : stuck k = stuck 1 := by
  unfold stuck
  rw [if_neg (by omega), if_neg (by decide)]

/-- The parameters of the clock are those that it started with. -/
structure Stands (s : AlgoState Float) : Prop where
  phat : s.osc.phat = everySixteen.phatInit
  K : s.off.K = (stuck 0).Tb - vcD (stuck 0).Ta * everySixteen.phatInit
  thetahat : s.off.thetahat = 0
  RTThat : s.rtt.RTThat = 1000
  quality : s.thres.EoffsetQual =
    3.0 * (Arith.ofInt everySixteen.metaparam.offsetRatio * everySixteen.metaparam.TSLIMIT)

section Stands

variable {n : Nat} {s : AlgoState Float} {mp : Metaparam Float}

/-- The raw delays are numbers. -/
theorem Stands.rawOWD (h : Stands s) (hn : 0 < n) : IsNumber (rawOWD s (stuck n)).1 ∧
    IsNumber (rawOWD s (stuck n)).2 := by
  unfold RADclock.rawOWD IsNumber
  rw [h.phat, h.K, h.thetahat, stuck_of_pos hn]
  decide +kernel

/-- The errors are all the same, and their quality is bad. -/
theorem Stands.errET (h : Stands s) {j : Nat} (hn : 0 < n) (hj : 1 ≤ j) :
    RADclock.errET everySixteen.metaparam s (rttOf stuck j) s.rtt.RTThat
      ((stuck n).Tf - (stuck j).Tf) =
        everySixteen.phatInit * (vcD 1000000 - vcD 1000) + everySixteen.phatInit * vcD 0 *
          everySixteen.metaparam.BestSKMrate := by
  unfold RADclock.errET rttOf
  rw [h.phat, h.RTThat, stuck_of_pos hn, stuck_of_pos hj]
  rfl

theorem Stands.bad (h : Stands s) : ¬ everySixteen.phatInit * (vcD 1000000 - vcD 1000) +
    everySixteen.phatInit * vcD 0 * everySixteen.metaparam.BestSKMrate < s.thres.EoffsetQual := by
  rw [h.quality]
  decide +kernel

/-- The sub-algorithms of warmup leave the clock as it is, and record the raw delays. -/
theorem warmupAlgos_stands (hat : At stuck n s) (h : Warm stuck (n + 1) (n + 1) n s)
    (hs : Stands s) :
    Returns (warmupAlgos everySixteen.metaparam (stuck n) s) fun s' => Stands s' ∧
      s'.hist.Df = historyAdd s.hist.Df n (rawOWD s (stuck n)).1 ∧
      s'.hist.Db = historyAdd s.hist.Db n (rawOWD s (stuck n)).2 := by
  have hpos := hat.pos
  have hrtt : rttOf stuck n = 1000000 := by
    unfold rttOf
    rw [stuck_of_pos hpos]
    rfl
  obtain ⟨hat0, -, h0⟩ := warmupPath_keeps hat h _ rfl
  obtain ⟨i, hi, hpath⟩ := processRTTWarmup_frame (stuck n).RTT s
  have hphat := processPhatWarmup_still still_stuck hat0 h0
  unfold warmupAlgos
  rw [hpath] at hphat h0 ⊢
  refine Returns.bind (hphat.and (processPhatWarmup_frame _ _)) ?_
  rintro s1 ⟨⟨hosc, hoff⟩, ends, K, phat, perr, heq⟩
  -- with the counter stuck the rate algorithm changes nothing
  have hs1 : Stands (copyPhat s1) := by
    refine ⟨?_, ?_, ?_, ?_, ?_⟩
    · exact (congrArg Osc.phat hosc).trans hs.phat
    · exact (congrArg Offset.K hoff).trans hs.K
    · exact (congrArg Offset.thetahat hoff).trans hs.thetahat
    · rw [heq]
      show min s.rtt.RTThat (rttOf stuck n) = 1000
      rw [hs.RTThat, hrtt]
      decide
    · rw [heq]
      exact hs.quality
  have hhist : (copyPhat s1).hist = { s.hist with
      Df := historyAdd s.hist.Df n (rawOWD s (stuck n)).1
      Db := historyAdd s.hist.Db n (rawOWD s (stuck n)).2 } := by
    rw [heq, ← hat.si]
    rfl
  refine Returns.bind ((processThetahatWarmup_idle (F := stuck) (n := n) (hhist ▸ h.stamps)
    (hhist ▸ h.rtts) ?_ (fun j hj _ => hs1.errET hpos hj) hs1.bad (by decide)).and
    (processThetahatWarmup_frame _ _ _)) ?_
  · rw [heq]
    exact hat.si
  rintro s2 ⟨⟨hth, hK⟩, t, off, bound, stt, out, rfl, -⟩
  -- and the end of the warmup only writes statistics
  obtain ⟨out', stt', hfin⟩ := finishWarmup_frame everySixteen.metaparam
    { copyPhat s1 with
      hist := _, poll := _, off := off, err := _, status := stt, output := out }
  refine Returns.pure ?_
  rw [hfin]
  refine ⟨⟨hs1.phat, hK.trans hs1.K, hth.trans hs1.thetahat, hs1.RTThat, hs1.quality⟩, ?_, ?_⟩
  · exact congrArg Hists.Df hhist
  · exact congrArg Hists.Db hhist

/-- A stamp of warmup. -/
theorem RADalgoBidir_stands (inp : Input Float) (hinp : inp.stamp = stuck n) {w : Windows}
    (h : InWarm stuck w n s) (hs : Stands s) (hnum : DelayNumbers IsNumber s.hist) :
    Returns (RADalgoBidir everySixteen inp s) fun s' => DelayNumbers IsNumber s'.hist ∧
      (n + 1 < w.warmupWin → Stands s') := by
  obtain ⟨hat, hwarm, hst⟩ := h.record
  have hW : n < s.win.warmupWin := h.win ▸ h.more
  have hpos := hat.pos
  obtain ⟨f, hf⟩ := hst.Df.holds
  obtain ⟨b, hb⟩ := hst.Db.holds
  have hs0 : Stands (recordStamp (stuck n) { s with stampI := s.stampI + 1 }) :=
    ⟨hs.phat, hs.K, hs.thetahat, hs.RTThat, hs.quality⟩
  rw [RADalgoBidir_noUpdate everySixteen inp h.inv (by decide), hinp,
    phases_warm everySixteen inp hat hW, hinp]
  -- the phase, where the last warmup stamp also runs the initialisations
  refine Returns.bind (Q := fun s' => DelayNumbers IsNumber s'.hist ∧
    (n + 1 < w.warmupWin → Stands s')) ?_ fun s1 h1 => ?_
  · refine Returns.bind ((warmupAlgos_stands hat hwarm hs0).and
      (warmupAlgos_keeps (accepts_any stuck n) hat hwarm).returns) ?_
    rintro s1 ⟨⟨hs1, hDf, hDb⟩, hat1, hw1, -⟩
    have hdelays := hs0.rawOWD hpos
    -- the two delays added are numbers, as all before them
    have hnum1 : DelayNumbers IsNumber s1.hist := by
      constructor
      · rw [hDf]
        exact AllNumbers.add hf hnum.Df hdelays.1
      · rw [hDb]
        exact AllNumbers.add hb hnum.Db hdelays.2
    refine Returns.ite (fun hlast => ?_) fun _ => Returns.pure ⟨hnum1, fun _ => hs1⟩
    rw [hat1.si, hw1, show (recordStamp (stuck n) { s with stampI := s.stampI + 1 }).win = w from
      h.win, wsub_of_le (by have := h.more; omega)] at hlast
    refine Returns.bind (initRTTOWDAsymFull_frame _) ?_
    rintro s2 ⟨r, f, b, rfl⟩
    refine Returns.bind (initPhatFull_frame _) ?_
    rintro s3 ⟨pst, perr, rfl⟩
    refine Returns.bind (initPlocalFull_frame _) ?_
    rintro s4 ⟨e, ends, ploc, rfl⟩
    exact Returns.pure ⟨⟨hnum1.Df, hnum1.Db⟩, fun hmore => absurd hlast (by omega)⟩
  · obtain ⟨stats, hcopy⟩ := copyStamp_frame (stuck n) s1
    rw [hcopy]
    refine Returns.bind (updateErrors_frame _ _ _) ?_
    rintro s2 ⟨err, rfl⟩
    refine Returns.pure ⟨⟨h1.1.Df, h1.1.Db⟩, fun hmore => ?_⟩
    have hs1 := h1.2 hmore
    exact ⟨hs1.phat, hs1.K, hs1.thetahat, hs1.RTThat, hs1.quality⟩

/-- The first stamp. -/
theorem RADalgoBidir_firstStands (inp : Input Float) (hinp : inp.stamp = stuck 0) :
    Returns (RADalgoBidir everySixteen inp AlgoState.zero) fun s =>
      DelayNumbers IsNumber s.hist ∧ Stands s := by
  have hbegin : beginCall ⟨everySixteen, inp⟩ (AlgoState.zero : AlgoState Float) =
      pure (recordStamp inp.stamp (nextStamp everySixteen AlgoState.zero)) := by
    unfold beginCall reactToUpdate
    rw [show everySixteen.algoUpdate = false by decide]
    rfl
  rw [show RADalgoBidir everySixteen inp AlgoState.zero = _ from
    RADalgoBidir_eq ⟨everySixteen, inp⟩ _, hbegin, pure_bind, hinp]
  -- nothing is in a fresh history
  have hempty (name : HistName) (sz : Nat) : AllNumbers IsNumber (historyInit name sz) :=
    fun k hk => absurd hk.2 (show ¬ (k : Int) ≤ -1 by omega)
  -- the first stamp only sets the state up
  have hphases : phases everySixteen inp (recordStamp (stuck 0) (nextStamp everySixteen
      AlgoState.zero)) = pure (initPhase everySixteen (stuck 0) (recordStamp (stuck 0)
        (nextStamp everySixteen AlgoState.zero))) := by
    rw [← hinp]
    rfl
  rw [hphases]
  have hhist : (nextStamp everySixteen (AlgoState.zero : AlgoState Float)).hist = initHists
      (histSz (nextStamp everySixteen (AlgoState.zero : AlgoState Float)).win.warmupWin) := rfl
  have hsi : (nextStamp everySixteen (AlgoState.zero : AlgoState Float)).si = 0 := rfl
  have hthres : (nextStamp everySixteen (AlgoState.zero : AlgoState Float)).thres.EoffsetQual =
      3.0 * (Arith.ofInt everySixteen.metaparam.offsetRatio * everySixteen.metaparam.TSLIMIT) := rfl
  generalize nextStamp everySixteen (AlgoState.zero : AlgoState Float) = s0 at hhist hsi hthres ⊢
  have hadd (name : HistName) (sz : Nat) {x : Float} (hx : IsNumber x) :
      AllNumbers IsNumber (historyAdd (historyInit name sz) 0 x) :=
    AllNumbers.add (f := fun _ => 0) (holds_init _ _ _) (hempty _ _) hx
  refine Returns.bind (Q := fun s => DelayNumbers IsNumber s.hist ∧ Stands s)
    (Returns.pure ⟨⟨?_, ?_⟩, rfl, rfl, rfl, show (stuck 0).RTT = 1000 by decide, hthres⟩)
    fun s1 h1 => ?_
  · show AllNumbers IsNumber (historyAdd s0.hist.Df s0.si _)
    rw [hhist, hsi]
    exact hadd _ _ (by unfold IsNumber; decide +kernel)
  · show AllNumbers IsNumber (historyAdd s0.hist.Db s0.si _)
    rw [hhist, hsi]
    exact hadd _ _ (by unfold IsNumber; decide +kernel)
  · obtain ⟨stats, hcopy⟩ := copyStamp_frame (stuck 0) s1
    unfold endCall
    rw [hcopy]
    refine Returns.bind (updateErrors_frame _ _ _) ?_
    rintro s2 ⟨err, rfl⟩
    exact Returns.pure ⟨⟨h1.1.Df, h1.1.Db⟩, h1.2.phat, h1.2.K, h1.2.thetahat, h1.2.RTThat,
      h1.2.quality⟩

/-- After `n` stamps of warmup. -/
def StuckInv (n : Nat) (s : AlgoState Float) : Prop :=
  DelayNumbers IsNumber s.hist ∧
    (n < 480 → InWarm stuck (startWindows everySixteen) n s ∧ Stands s)

/-- No call asks for an update, and all delays are numbers. -/
theorem StuckInv.keeps (h : StuckInv n s) (hpos : 0 < n) (hn : n < 480) (inp : Input Float) :
    KeepsShifts IsNumber ⟨everySixteen, inp⟩ s := by
  have hupd : everySixteen.algoUpdate = false := by decide
  have hidx := (h.2 hn).1.inv.idx
  refine ⟨fun hcase => ?_, fun _ => h.1, fun hupd' => ?_, fun hupd' => ?_⟩
  · rcases hcase with hfirst | ⟨hupd', -⟩
    · omega
    · rw [hupd] at hupd'
      cases hupd'
  · rw [hupd] at hupd'
    cases hupd'
  · rw [hupd] at hupd'
    cases hupd'

theorem runFrom_stuck (inps : List (Input Float)) :
    ∀ (n : Nat) (s : AlgoState Float), 0 < n → n + inps.length ≤ 480 → StuckInv n s →
      Follows stuck n (under everySixteen inps) →
      RunMeets (KeepsShifts IsNumber) (under everySixteen inps) s ∧
        Returns (runFrom (under everySixteen inps) s) (StuckInv (n + inps.length)) := by
  have hW : (startWindows everySixteen).warmupWin = 480 := startWindows_everySixteen.1
  induction inps with
  | nil => exact fun n s _ _ h _ => ⟨True.intro, Returns.pure h⟩
  | cons inp inps ih =>
    intro n s hpos hlen h hf
    rw [List.length_cons] at hlen ⊢
    obtain ⟨hwarm, hs⟩ := h.2 (by omega)
    have hstep : Returns (RADalgoBidir everySixteen inp s) (StuckInv (n + 1)) := by
      refine ((RADalgoBidir_stands inp hf.head hwarm hs h.1).and
        (RADalgoBidir_warm everySixteen inp hf.head (by decide) hwarm).returns).mono ?_
      rintro s' ⟨⟨hnum, hs'⟩, hcase⟩
      refine ⟨hnum, fun hmore => ⟨?_, hs' (hW.symm ▸ hmore)⟩⟩
      rcases hcase with h' | ⟨-, hlast, -⟩
      · exact h'
      · omega
    refine ⟨⟨h.keeps hpos (by omega) inp, fun s' hs' => ?_⟩, Returns.bind hstep fun s' hs' => ?_⟩
    · exact (ih (n + 1) s' (Nat.succ_pos n) (by omega) (hstep s' hs') hf.tail).1
    · rw [show n + (inps.length + 1) = n + 1 + inps.length by omega]
      exact (ih (n + 1) s' (Nat.succ_pos n) (by omega) hs' hf.tail).2

theorem run_stuck : RunMeets (KeepsShifts IsNumber) (under everySixteen (inputsOf stuck 480))
      AlgoState.zero ∧
    Returns (run (under everySixteen (inputsOf stuck 480))) fun s =>
      DelayNumbers IsNumber s.hist := by
  obtain ⟨i, is, hcons, hlen⟩ := inputsOf_cons stuck (n := 480) (by decide)
  have hf : Follows stuck 0 (under everySixteen (inputsOf stuck 480)) := follows_inputsOf stuck 480
  have hW : (startWindows everySixteen).warmupWin = 480 := startWindows_everySixteen.1
  rw [hcons] at hf ⊢
  have hfirst : Returns (RADalgoBidir everySixteen i AlgoState.zero) (StuckInv 1) := by
    refine ((RADalgoBidir_firstStands i hf.head).and
      (RADalgoBidir_first everySixteen i hf.head (by decide) (by rw [hW]; decide)).returns).mono ?_
    exact fun s h => ⟨h.1.1, fun _ => ⟨h.2, h.1.2⟩⟩
  have hrest (s : AlgoState Float) (h : StuckInv 1 s) :=
    runFrom_stuck is 1 s Nat.one_pos (by omega) h hf.tail
  refine ⟨⟨?_, fun s hs => (hrest s (hfirst s hs)).1⟩, Returns.bind hfirst fun s hs =>
    (hrest s hs).2.mono fun _ h => h.1⟩
  have hupd : everySixteen.algoUpdate = false := by decide
  have hfit : requiredWarmup everySixteen + 0 < 2 ^ 32 := by
    rw [requiredWarmup_everySixteen]
    decide
  refine ⟨fun _ => hfit, fun hnext => absurd hnext.1 (by decide), fun h => ?_, fun h => ?_⟩
  · exact absurd (hupd.symm.trans h) (by decide)
  · exact absurd (hupd.symm.trans h) (by decide)

end Stands

/-! ## The windows after a change -/

/-- A stamp that is sent later than any clock can tell. -/
def farStamp : BidirStamp Float := { (0 : BidirStamp Float) with Tb := 1.0 / 0.0, Te := 1.0 / 0.0 }

theorem rawOWD_farStamp (s : AlgoState Float) (v : Float) : ¬ (rawOWD s farStamp).1 < v :=
  Float.neg_sub_inf_not_lt _ v

/-- In every run whose updates keep the shift windows: after the next update in the full phase both
shift windows are valid, and the next stamp keeps them valid, if and only if the resized histories
reach back to their left ends. -/
theorem shifts_valid_iff (cs : List (Call Float)) (c : Call Float)
    (hm : RunMeets (KeepsShifts IsNumber) cs AlgoState.zero) :
    Returns (run cs) fun s => DelayNumbers IsNumber s.hist → c.conf.algoUpdate = true →
      NextFull s → Sat Event.Held False (reactToUpdate c.conf (nextStamp c.conf s)) fun s' =>
        (ShiftsValid cs.length s' ∧ NextValid cs.length s' ↔ ReachBack c.conf cs.length s) := by
  cases cs with
  | nil =>
    refine Returns.pure fun _ _ hnext => ?_
    have hzero : (0 : Int) ≤ (AlgoState.zero : AlgoState Float).stampI := hnext.1
    exact absurd hzero (by decide)
  | cons c₀ cs =>
    refine (run_shiftInv ordered_float (List.cons_ne_nil c₀ cs) hm).mono fun s h hnum hupd hnext =>
      ?_
    have hidx := h.idx
    have hpos := h.pos
    have hW : s.win.warmupWin ≤ (c₀ :: cs).length := by
      have := hnext.2
      omega
    have hs : nextStamp c.conf s = { s with stampI := s.stampI + 1 } :=
      nextStamp_later c.conf (by omega)
    obtain ⟨⟨f, hR, -⟩, -⟩ := h.series.RTT
    obtain ⟨hshift, hDf, hDb, hroomDf, hroomDb⟩ := h.tracked hW
    have hheld : OWDHeld (c₀ :: cs).length { s with stampI := s.stampI + 1 } :=
      ⟨hshift, hDf, hDb, hroomDf, hroomDb⟩
    rw [hs]
    refine (reactToUpdate_restarted (s := { s with stampI := s.stampI + 1 }) c.conf hidx hW
      ⟨h.rtt hW, f, hR⟩ hupd).mono fun s' h' => ⟨fun hv => ?_, fun hr => ?_⟩
    · obtain ⟨hOWD, hRTT⟩ := h'.reachBack (si_of_idx hidx) hheld rawOWD_farStamp hv.1 hv.2
      exact ⟨hOWD, hRTT⟩
    · exact h'.valid ordered_float (si_of_idx hidx) hheld ⟨hnum.Df, hnum.Db⟩ ⟨hr.OWD, hr.RTT⟩

theorem resizedTo_eased : resizedTo eased = 240 ∧
    baseShiftWin eased.metaparam eased.pollPeriod = 100 := by
  decide +kernel

/-- Right after warmup at 16 seconds, with a change to 32 seconds: the windows stay valid. -/
theorem shifts_valid_eased : ∃ s, (run (under everySixteen (inputsOf stuck 480))).res = some s ∧
    DelayNumbers IsNumber s.hist ∧ NextFull s ∧ ReachBack eased 480 s ∧
      Sat Event.Held False (reactToUpdate eased (nextStamp eased s)) fun s' =>
        (ShiftsValid 480 s' ∧ NextValid 480 s' ↔ ReachBack eased 480 s) := by
  have hwin : (startWindows everySixteen).hWin = 37800 := by decide +kernel
  obtain ⟨hW, hshift⟩ := startWindows_everySixteen
  obtain ⟨hsize, hbase⟩ := resizedTo_eased
  obtain ⟨s, hres, hs⟩ :=
    (run_warmed stuck (show everySixteen.algoUpdate = false by decide) hW (by decide)
      (by rw [hshift]; decide) (by rw [hwin]; decide)).exists_res
  obtain ⟨hm, hnum⟩ := run_stuck
  have hidx := hs.inv.idx
  have hfull := hs.full
  have hnext : NextFull s := ⟨by omega, by omega⟩
  have hlen := length_under_inputsOf everySixteen stuck 480
  have hiff := shifts_valid_iff _ ⟨eased, ⟨stuck 480, false, 0⟩⟩ hm s hres (hnum s hres) (by decide)
    hnext
  rw [hlen] at hiff
  refine ⟨s, hres, hnum s hres, hnext, ⟨?_, ?_⟩, hiff⟩
  · have hleft := hs.stock.shiftOWD
    have hw := hs.shiftWin
    rw [hsize]
    omega
  · unfold restartedEnd
    rw [hsize, hbase]
    omega

/-- The polling period grows from 8 seconds to 1024 right after warmup. -/
theorem not_shiftsValid : ¬ ∀ (cs : List (Call Float)) (c : Call Float),
    Returns (run cs) fun s => c.conf.algoUpdate = true → NextFull s →
      Returns (reactToUpdate c.conf (nextStamp c.conf s)) fun s' =>
        ShiftsValid cs.length s' ∧ NextValid cs.length s' := by
  intro hall
  obtain ⟨hW, hshift, hh⟩ := startWindows_everyEight
  have hsize : resizedTo slowed = 100 := by decide +kernel
  have hbroken : ∃ s, (run (under everyEight (inputsOf steady 960))).res = some s ∧ NextFull s ∧
      ∃ s', (reactToUpdate slowed (nextStamp slowed s)).res = some s' ∧ ¬ ShiftsValid 960 s' :=
    run_shrunk (by decide) hW (by decide) (by rw [hshift]; decide) (by rw [hh]; decide) (by decide)
      (by rw [hsize, hshift]; decide)
  obtain ⟨s, hres, hnext, s', hres', hno⟩ := hbroken
  obtain ⟨hv, -⟩ := hall _ ⟨slowed, ⟨steady 960, false, 0⟩⟩ s hres (by decide) hnext s' hres'
  rw [length_under_inputsOf] at hv
  exact hno hv

end RADclock
