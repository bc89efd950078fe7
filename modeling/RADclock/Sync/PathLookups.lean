import RADclock.Sync.Lookups

/-!
# What the path algorithms look at

The rules of `RADclock.Sync.Lookups` for the functions that maintain minima: the shift
windows of the RTT and of the OWDs, the correction of the RTThat history after an upshift,
the history window, and the initialisations at the end of warmup.

Besides the lookups, the rules for the RTT say what the minima become, which is what the
invariants on the minima are made of.
-/

namespace RADclock

open Lib Lib.Exec

variable {D : Type} {P : Event D → Prop} {H : Prop} {F : Nat → BidirStamp D} {n : Nat}

/-! ## The shift window of the RTT -/

/-- `v` is the minimal RTT over `[j, i]`. -/
abbrev MinRTT (F : Nat → BidirStamp D) (j i : Nat) (v : VCounter) : Prop :=
  MinVal ltVC (rttOf F) j i v

/-- A minimal counter value is a lower bound, and one of the values. -/
theorem minRTT_iff {f : Nat → VCounter} {j i : Nat} {v : VCounter} :
    MinVal ltVC f j i v ↔
      (∃ k, j ≤ k ∧ k ≤ i ∧ v = f k) ∧ ∀ m, j ≤ m → m ≤ i → v ≤ f m := by
  constructor
  · rintro ⟨k, hk, rfl⟩
    refine ⟨⟨k, hk.left, hk.right, rfl⟩, fun m h1 h2 => ?_⟩
    exact UInt64.not_lt.mp (of_decide_eq_false (hk.le strictLt_ltVC m h1 h2))
  · rintro ⟨⟨k, h1, h2, rfl⟩, hle⟩
    exact ⟨k, ⟨h1, h2, fun _ m h3 h4 => decide_eq_false (UInt64.not_lt.mpr (hle m h3 h4))⟩, rfl⟩

theorem MinRTT.le {j i m : Nat} {v : VCounter} (h : MinRTT F j i v) (h1 : j ≤ m) (h2 : m ≤ i) :
    v ≤ rttOf F m := (minRTT_iff.mp h).2 m h1 h2

/-- Growing the window by one value. -/
theorem MinVal.snoc_min {f : Nat → VCounter} {j i : Nat} {v : VCounter}
    (h : MinVal ltVC f j i v) : MinVal ltVC f j (i + 1) (min v (f (i + 1))) := by
  obtain ⟨⟨k, h1, h2, hk⟩, hle⟩ := minRTT_iff.mp h
  rcases UInt64.le_total v (f (i + 1)) with hv | hv
  · rw [show min v (f (i + 1)) = v from if_pos hv]
    refine minRTT_iff.mpr ⟨⟨k, h1, by omega, hk⟩, fun m h3 h4 => ?_⟩
    rcases Nat.lt_or_eq_of_le h4 with hm | rfl
    · exact hle m h3 (by omega)
    · exact hv
  · have hmin : min v (f (i + 1)) = f (i + 1) := by
      show (if v ≤ f (i + 1) then v else f (i + 1)) = _
      split
      · next hle' => exact UInt64.le_antisymm hle' hv
      · rfl
    rw [hmin]
    refine minRTT_iff.mpr ⟨⟨i + 1, by omega, by omega, rfl⟩, fun m h3 h4 => ?_⟩
    rcases Nat.lt_or_eq_of_le h4 with hm | rfl
    · exact UInt64.le_trans hv (hle m h3 (by omega))
    · exact UInt64.le_refl _

theorem updateRTTShift_sat {s : AlgoState D} (hn : 0 < n) (hsi : s.si = n)
    (hR : Holds (rttOf F) (n + 1) s.hist.RTT) (hend : s.win.shiftEnd < n)
    (hok : wsub s.win.shiftWin 1 + s.win.shiftEnd ≤ n →
      OkFrom P H s.hist.RTT s.win.shiftEnd (n + 1)) :
    Sat P H (updateRTTShift (rttOf F n) s) (fun s' =>
      (n < wsub s.win.shiftWin 1 + s.win.shiftEnd ∧ s'.win.shiftEnd = s.win.shiftEnd ∨
        wsub s.win.shiftWin 1 + s.win.shiftEnd ≤ n ∧ s'.win.shiftEnd = s.win.shiftEnd + 1) ∧
      (MinRTT F s.win.shiftEnd (n - 1) s.rtt.RTThatShift →
        MinRTT F s'.win.shiftEnd n s'.rtt.RTThatShift)) := by
  obtain ⟨m, rfl⟩ : ∃ m, n = m + 1 := ⟨n - 1, by omega⟩
  unfold updateRTTShift
  rw [hsi]
  refine Sat.ite (fun hgrow => Sat.pure ⟨Or.inl ⟨hgrow, rfl⟩, fun h => h.snoc_min⟩) fun hslide => ?_
  rw [wsub_of_le (show 1 ≤ m + 1 by omega), Nat.add_sub_cancel]
  refine Sat.bind (Q := fun v => MinRTT F s.win.shiftEnd m s.rtt.RTThatShift →
    MinRTT F (s.win.shiftEnd + 1) (m + 1) v) ?_ fun v hv => ?_
  · exact minSlideValue_sat hR (by omega) (by omega) (hok (by omega))
      fun v hv hmin => hv (decide_eq_true rfl) hmin
  · exact Sat.pure ⟨Or.inr ⟨by omega, rfl⟩, hv⟩

/-! ## Upshifts -/

/-- Two histories that hold the same indices in the same slots. -/
structure SameShape {α : Type} (h h' : History α) : Prop where
  name : h'.name = h.name
  bufferSz : h'.bufferSz = h.bufferSz
  itemCount : h'.itemCount = h.itemCount
  oldestI : h'.oldestI = h.oldestI
  newestI : h'.newestI = h.newestI

theorem SameShape.refl {α : Type} (h : History α) : SameShape h h := ⟨rfl, rfl, rfl, rfl, rfl⟩

theorem Ok.congr {α : Type} {h h' : History α} (hs : SameShape h h') {k : Nat}
    (hok : Ok P H h k) : Ok P H h' k := by
  unfold Ok at hok ⊢
  rw [hs.name, hs.oldestI, hs.newestI]
  exact hok

/-- The RTThat history after a correction back to `jmin`. -/
def corrected (hats : Nat → VCounter) (v : VCounter) (jmin j : Nat) (k : Nat) : VCounter :=
  if jmin ≤ k ∧ k ≤ j then v else hats k

theorem rewriteBack_sat {v : VCounter} {jmin : Nat} (hjmin : 1 ≤ jmin) :
    ∀ (j : Nat) (h : History VCounter) (hats : Nat → VCounter), j ≤ n →
      Holds hats (n + 1) h → OkFrom P H h jmin (n + 1) →
      Sat P H (rewriteBack v jmin j h) (fun h' =>
        SameShape h h' ∧ Holds (corrected hats v jmin j) (n + 1) h') := by
  intro j
  -- on the index the loop counts down
  induction j with
  | zero =>
    intro h hats _ hh _
    -- at index 0 the unsigned test cannot fail, so jmin = 0 is excluded
    refine Sat.ite (fun hz => absurd hz (by omega)) fun _ => Sat.pure ⟨SameShape.refl h, ?_⟩
    have heq : corrected hats v jmin 0 = hats := by
      funext k
      exact if_neg (by omega)
    rw [heq]
    exact hh
  | succ j ih =>
    intro h hats hj hh hok
    refine Sat.ite (fun hlt => Sat.pure ⟨SameShape.refl h, ?_⟩) fun hge => ?_
    · have heq : corrected hats v jmin (j + 1) = hats := by
        funext k
        exact if_neg (by omega)
      rw [heq]
      exact hh
    -- one overwrite, then the rest of the loop on the changed history
    refine Sat.bind (Q := fun h1 => SameShape h h1 ∧
        Holds (Function.update hats (j + 1) v) (n + 1) h1) ?_ fun h1 hh1 => ?_
    · refine historySet_sat (hok _ (by omega) (by omega)) v fun hold => ?_
      exact ⟨⟨rfl, rfl, rfl, rfl, rfl⟩, hh.set hold (by omega) v⟩
    · obtain ⟨hs, hh1⟩ := hh1
      have hok1 : OkFrom P H h1 jmin (n + 1) := fun k h2 h3 => (hok k h2 h3).congr hs
      refine (ih h1 _ (by omega) hh1 hok1).mono fun h' hh' => ?_
      obtain ⟨hs', hh'⟩ := hh'
      refine ⟨⟨hs'.name.trans hs.name, hs'.bufferSz.trans hs.bufferSz,
        hs'.itemCount.trans hs.itemCount, hs'.oldestI.trans hs.oldestI,
        hs'.newestI.trans hs.newestI⟩, ?_⟩
      -- correcting one more value commutes with correcting the earlier ones
      have heq : corrected (Function.update hats (j + 1) v) v jmin j =
          corrected hats v jmin (j + 1) := by
        funext k
        unfold corrected
        by_cases hk : k = j + 1
        · subst hk
          rw [if_neg (by omega), if_pos (by omega), Function.update_self]
        · rw [Function.update_of_ne hk]
          by_cases hin : jmin ≤ k ∧ k ≤ j
          · rw [if_pos hin, if_pos (by omega)]
          · rw [if_neg hin, if_neg (by omega)]
      rw [heq] at hh'
      exact hh'

/-- What an upshift does to the RTT estimates `r`, or its absence. -/
def Upshifted (r r' : RTTs) : Prop :=
  r' = { r with RTThat := r.RTThatShift, nextRTThat := r.RTThatShift }

section Arith

variable [Arith D]

theorem detectUpshift_sat {s : AlgoState D} {hats : Nat → VCounter} (hsi : s.si = n)
    (hH : Holds hats (n + 1) s.hist.RTThat) (hjmin : 1 ≤ upshiftJmin s)
    (hok : OkFrom P H s.hist.RTThat (upshiftJmin s) (n + 1)) :
    Sat P H (detectUpshift s) (fun s' => SameShape s.hist.RTThat s'.hist.RTThat ∧
      (s'.rtt = s.rtt ∧ Holds hats (n + 1) s'.hist.RTThat ∨
        Upshifted s.rtt s'.rtt ∧
          Holds (corrected hats s.rtt.RTThatShift (upshiftJmin s) n) (n + 1) s'.hist.RTThat)) := by
  refine Sat.ite (fun _ => ?_) fun _ => Sat.pure ⟨SameShape.refl _, Or.inl ⟨rfl, hH⟩⟩
  obtain ⟨perr, nhat, heq⟩ := recalcNextPstamp_frame (adoptShift s)
  dsimp only
  rw [heq]
  refine Sat.bind (rewriteBack_sat hjmin s.si s.hist.RTThat hats (Nat.le_of_eq hsi) hH hok)
    fun h hh => Sat.pure ⟨hh.1, Or.inr ⟨rfl, ?_⟩⟩
  rw [hsi] at hh
  exact hh.2

/-- The RTThat history once the current estimate has been added. -/
def addHat (hats : Nat → VCounter) (n : Nat) (hat : VCounter) : Nat → VCounter :=
  Function.update hats n hat

omit [Arith D] in
theorem Holds.addHat {hats : Nat → VCounter} {h : History VCounter} (hh : Holds hats n h)
    (hat : VCounter) : Holds (addHat hats n hat) (n + 1) (historyAdd h n hat) := by
  refine Holds.add ⟨hh.newest, hh.range, hh.fits, fun j hj hjn => ?_⟩ (Function.update_self ..)
  rw [hh.slot j hj hjn]
  exact (Function.update_of_ne (Nat.ne_of_lt hjn) _ _).symm

/-- The estimates after the on-line minima and the shift window have been updated. -/
def RTTs.updated (r : RTTs) (RTT v : VCounter) : RTTs where
  RTThat := min r.RTThat RTT
  prevRTThat := r.RTThat
  nextRTThat := min r.nextRTThat RTT
  RTThatShift := v
  RTThatShiftThres := r.RTThatShiftThres

/-- `process_RTT_full`, for stamp `n`: on-line minima, then the shift window, then the
reaction to an upshift. -/
theorem processRTTFull_sat {s : AlgoState D} {hats : Nat → VCounter} (hn : 0 < n)
    (hsi : s.si = n) (hR : Holds (rttOf F) (n + 1) s.hist.RTT)
    (hH : Holds hats n s.hist.RTThat) (hend : s.win.shiftEnd < n) (hjmin : 1 ≤ upshiftJmin s)
    (hokR : wsub s.win.shiftWin 1 + s.win.shiftEnd ≤ n →
      OkFrom P H s.hist.RTT s.win.shiftEnd (n + 1))
    (hokH : OkFrom P H (historyAdd s.hist.RTThat n (min s.rtt.RTThat (rttOf F n)))
      (upshiftJmin s) (n + 1)) :
    Sat P H (processRTTFull (rttOf F n) s) (fun s' => ∃ v,
      SameShape (historyAdd s.hist.RTThat n (min s.rtt.RTThat (rttOf F n))) s'.hist.RTThat ∧
      (n < wsub s.win.shiftWin 1 + s.win.shiftEnd ∧ s'.win.shiftEnd = s.win.shiftEnd ∨
        wsub s.win.shiftWin 1 + s.win.shiftEnd ≤ n ∧ s'.win.shiftEnd = s.win.shiftEnd + 1) ∧
      (MinRTT F s.win.shiftEnd (n - 1) s.rtt.RTThatShift → MinRTT F s'.win.shiftEnd n v) ∧
      (s'.rtt = s.rtt.updated (rttOf F n) v ∧
          Holds (addHat hats n (min s.rtt.RTThat (rttOf F n))) (n + 1) s'.hist.RTThat ∨
        Upshifted (s.rtt.updated (rttOf F n) v) s'.rtt ∧
          Holds (corrected (addHat hats n (min s.rtt.RTThat (rttOf F n))) v (upshiftJmin s) n)
            (n + 1) s'.hist.RTThat)) := by
  refine Sat.bind ((updateRTTShift_sat (s := updateRTTMinima (rttOf F n) s) hn hsi hR hend
    hokR).and_returns (updateRTTShift_frame _ _)) ?_
  rintro s1 ⟨⟨hend1, hmin1⟩, v, e, rfl⟩
  have hHn : Holds (addHat hats n (min s.rtt.RTThat (rttOf F n))) (n + 1)
      (updateRTTMinima (rttOf F n) s).hist.RTThat := by
    show Holds _ _ (historyAdd s.hist.RTThat s.si _)
    rw [hsi]
    exact hH.addHat _
  have hokHn : OkFrom P H (updateRTTMinima (rttOf F n) s).hist.RTThat (upshiftJmin s) (n + 1) := by
    show OkFrom P H (historyAdd s.hist.RTThat s.si _) _ _
    rw [hsi]
    exact hokH
  refine (((detectUpshift_sat (s := { updateRTTMinima (rttOf F n) s with
    rtt := { (updateRTTMinima (rttOf F n) s).rtt with RTThatShift := v }
    win := { (updateRTTMinima (rttOf F n) s).win with shiftEnd := e } })
    hsi hHn hjmin hokHn)).and_returns (detectUpshift_frame _)).mono ?_
  rintro s2 ⟨⟨hshape, hcase⟩, hat, next, perr, nhat, h, stt, rfl⟩
  refine ⟨v, ?_, hend1, hmin1, hcase⟩
  have hshape' : SameShape (historyAdd s.hist.RTThat s.si (min s.rtt.RTThat (rttOf F n))) h
    := hshape
  rw [hsi] at hshape'
  exact hshape'

/-! ## The shift window of the OWDs -/

theorem updateOWDShift_sat {s : AlgoState D} {d : D × D} {f b : Nat → D} (hn : 0 < n)
    (hsi : s.si = n) (hF : Holds f (n + 1) s.hist.Df) (hB : Holds b (n + 1) s.hist.Db)
    (hend : s.win.shiftEndOWD < n)
    (hokF : OkFrom P H s.hist.Df s.win.shiftEndOWD (n + 1))
    (hokB : OkFrom P H s.hist.Db s.win.shiftEndOWD (n + 1)) :
    Sat P H (updateOWDShift d s) (fun s' =>
      n < wsub s.win.shiftWin 1 + s.win.shiftEndOWD ∧ s'.win.shiftEndOWD = s.win.shiftEndOWD ∨
        wsub s.win.shiftWin 1 + s.win.shiftEndOWD ≤ n ∧
          s'.win.shiftEndOWD = s.win.shiftEndOWD + 1) := by
  unfold updateOWDShift
  rw [hsi]
  refine Sat.ite (fun hgrow => Sat.pure (Or.inl ⟨hgrow, rfl⟩)) fun hslide => ?_
  rw [wsub_of_le (show 1 ≤ n by omega)]
  refine Sat.bind (Q := fun _ => True)
    (minSlideValue_sat hF (by omega) (by omega) (hokF.mono (Nat.le_refl _) (by omega))
      fun _ _ => True.intro) fun _ _ => ?_
  refine Sat.bind (Q := fun _ => True)
    (minSlideValue_sat hB (by omega) (by omega) (hokB.mono (Nat.le_refl _) (by omega))
      fun _ _ => True.intro) fun _ _ => ?_
  exact Sat.pure (Or.inr ⟨by omega, rfl⟩)

/-! ## The history window -/

theorem manageHistorywin_sat {s : AlgoState D} {st : BidirStamp D} {RTT : VCounter} (hn : 0 < n)
    (hsi : s.si = n) (hF : Ok P H s.hist.Df (n - 1)) (hB : Ok P H s.hist.Db (n - 1))
    (hhalf : P (.halfWindow n)) (hslide : ∀ r, P (.slide n r)) :
    Sat P H (manageHistorywin st RTT s) (fun _ => True) := by
  have hend : ∀ s1 : AlgoState D, s1.si = s.si → s1.hist = s.hist →
      Sat P H (reachEnd st RTT s1) (fun _ => True) := by
    intro s1 h1 h2
    unfold reachEnd
    rw [h1, hsi, h2, wsub_of_le hn]
    refine Sat.ite (fun _ => ?_) fun _ => Sat.pure True.intro
    refine Sat.bind (historyGet_ok hF) fun _ _ => Sat.bind (historyGet_ok hB) fun _ _ => ?_
    refine Sat.bind (Q := fun _ => True) (Sat.emit ?_ True.intro) fun _ _ => Sat.pure True.intro
    rw [← hsi, ← h1] at hslide
    exact hslide _
  refine Sat.bind (Q := fun s1 => s1.si = s.si ∧ s1.hist = s.hist) ?_ fun s1 h1 => hend s1 h1.1 h1.2
  unfold reachHalf
  rw [hsi]
  refine Sat.ite (fun _ => ?_) fun _ => Sat.pure ⟨hsi, rfl⟩
  exact Sat.bind (Q := fun _ => True) (Sat.emit hhalf True.intro)
    fun _ _ => Sat.pure ⟨hsi, rfl⟩

/-! ## Initialisations at the end of warmup -/

omit [Arith D] in
theorem holds_fill (v : VCounter) : ∀ (m j : Nat) (h : History VCounter),
    Holds (fun _ => v) j h → Holds (fun _ => v) (j + m) (fillHistory v j m h) := by
  intro m
  induction m with
  | zero => exact fun j h hh => hh
  | succ m ih =>
    intro j h hh
    rw [show j + (m + 1) = j + 1 + m by omega]
    exact ih (j + 1) _ (hh.add rfl)

omit [Arith D] in
/-- Only the order of the stamps tells an empty series from another. -/
theorem Holds.of_empty {α : Type} {f g : Nat → α} {h : History α} (hh : Holds f 0 h) :
    Holds g 0 h :=
  ⟨hh.newest, hh.range, hh.fits, fun j _ hj => absurd hj (Nat.not_lt_zero j)⟩

theorem initRTTOWDAsymFull_sat {s : AlgoState D} {f b : Nat → D} (hsi : s.si = n)
    (hF : Holds f (n + 1) s.hist.Df) (hB : Holds b (n + 1) s.hist.Db)
    (hR : Holds (rttOf F) (n + 1) s.hist.RTT) (hend : initShiftEnd s ≤ n)
    (hokF : OkFrom P H s.hist.Df (initShiftEnd s) (n + 1))
    (hokB : OkFrom P H s.hist.Db (initShiftEnd s) (n + 1))
    (hokR : OkFrom P H s.hist.RTT (initShiftEnd s) (n + 1)) :
    Sat P H (initRTTOWDAsymFull s) (fun s' =>
      MinRTT F (initShiftEnd s) n s'.rtt.RTThatShift) := by
  unfold initRTTOWDAsymFull
  dsimp only
  rw [hsi]
  refine Sat.bind (minScan_sat hF hend (by omega) hokF) fun kf hkf => ?_
  refine Sat.bind (historyGet_ok (hokF kf hkf.left (Nat.lt_succ_of_le hkf.right))) fun _ _ => ?_
  refine Sat.bind (minScan_sat hB hend (by omega) hokB) fun kb hkb => ?_
  refine Sat.bind (historyGet_ok (hokB kb hkb.left (Nat.lt_succ_of_le hkb.right))) fun _ _ => ?_
  refine Sat.bind (minScan_sat hR hend (by omega) hokR) fun kr hkr => ?_
  refine Sat.bind (Q := fun r => r = rttOf F kr) (historyGet_sat hR (Nat.lt_succ_of_le hkr.right)
    (hokR kr hkr.left (Nat.lt_succ_of_le hkr.right)) rfl) fun r hr => ?_
  subst hr
  exact Sat.pure ⟨kr, hkr, rfl⟩

theorem initPhatFull_sat {s : AlgoState D} (hS : Holds F (n + 1) s.hist.stamp)
    (hR : Holds (rttOf F) (n + 1) s.hist.RTT) (hokS : OkFrom P H s.hist.stamp 0 (n + 1))
    (hokR : OkFrom P H s.hist.RTT 0 (n + 1)) (hp : s.past.pstampI ≤ n)
    (hnear : s.ends.nearI ≤ n) (hfar : s.ends.farI ≤ n) :
    Sat P H (initPhatFull s) (fun s' => s'.past.pstamp = F s.past.pstampI) := by
  refine Sat.bind (Q := fun st => st = F s.past.pstampI)
    (historyGet_sat hS (by omega) (hokS _ (Nat.zero_le _) (by omega)) rfl) fun st hst => ?_
  refine Sat.bind (historyGet2_sat hS (by omega) (by omega) (hokS _ (Nat.zero_le _) (by omega))
    (hokS _ (Nat.zero_le _) (by omega))) fun _ _ => ?_
  refine Sat.bind (historyGet2_sat hR (by omega) (by omega) (hokR _ (Nat.zero_le _) (by omega))
    (hokR _ (Nat.zero_le _) (by omega))) fun _ _ => ?_
  exact Sat.pure hst

omit [Arith D] in
theorem initPlocalFull_sat {s : AlgoState D} (hsi : s.si = n) (hpw : 10 ≤ s.win.plocalWin)
    (hspan : plocalReach s.win.plocalWin ≤ n) (hR : Holds (rttOf F) (n + 1) s.hist.RTT)
    (hok : OkFrom P H s.hist.RTT (n - plocalReach s.win.plocalWin) (n + 1)) :
    Sat P H (initPlocalFull s) (fun s' =>
      s'.ploc.plocalProblem = false → FullEnds (n + 1) s.win.plocalWin s'.ends) := by
  refine Sat.bind (Q := fun s1 => s1.ploc.plocalProblem = false →
    FullEnds (n + 1) s.win.plocalWin s1.ends) ?_ fun s1 h1 => Sat.pure h1
  refine Sat.ite (fun _ => ?_) fun _ => Sat.pure fun h => (nomatch h)
  exact (resetPlocal_sat (s := setPlocalEnd s) hsi hpw hspan hR hok).mono fun _ h _ => h

end Arith

end RADclock
