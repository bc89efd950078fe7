import RADclock.Sync.Held

/-!
# The minima of the RTT

`RTThat` is the minimum since the start of the history window, `next_RTThat` since its middle, and
`RTThat_shift` over the shift window. They are kept on line, swapped when the history window
slides, and rewritten when an upshift is detected. What relates them is the shift window: the other
two are not above its minimum. After a slide this takes a half window no shorter than the shift
window, and after an upshift it holds because the minimum of the shift window is what is adopted.

- `Minima F since n s`: the minima after `n` stamps, the last slide or half window being at stamp
  `since`.
- `Schedule since n s`: where the history window stands before stamp `n`.
- `Event.ErrNonneg`: the point errors of the full algorithms. Those of the second loop of
  `process_thetahat_full` are taken against the current `RTThat`, and reach back over the offset
  window, so that window has to lie in the shift window.
-/

namespace RADclock

open Lib Lib.Exec

variable {D : Type}

/-! ## The minimum of two counters -/

/-- The minimum is below the first value. -/
theorem minVC_le_left (a b : VCounter) : min a b ≤ a := by
  show (if a ≤ b then a else b) ≤ a
  split
  · exact UInt64.le_refl a
  · next h => exact UInt64.le_of_lt (UInt64.not_le.mp h)

/-- And below the second. -/
theorem minVC_le_right (a b : VCounter) : min a b ≤ b := by
  show (if a ≤ b then a else b) ≤ b
  split
  · next h => exact h
  · exact UInt64.le_refl b

/-- A lower bound of the first stamps, and one more stamp. -/
theorem minVC_le_of_forall {F : Nat → BidirStamp D} {v : VCounter} {lo n : Nat}
    (h : ∀ j, lo ≤ j → j < n → v ≤ rttOf F j) :
    ∀ j, lo ≤ j → j < n + 1 → min v (rttOf F n) ≤ rttOf F j := by
  intro j hlo hj
  rcases Nat.lt_succ_iff_lt_or_eq.mp hj with hlt | rfl
  · exact UInt64.le_trans (minVC_le_left _ _) (h j hlo hlt)
  · exact minVC_le_right _ _

/-! ## Statement -/

/-- The minima after `n` stamps. -/
structure Minima (F : Nat → BidirStamp D) (since n : Nat) (s : AlgoState D) : Prop where
  shift : s.win.shiftEnd + s.win.shiftWin = n
  shiftMin : MinRTT F s.win.shiftEnd (n - 1) s.rtt.RTThatShift
  le_shift : s.rtt.RTThat ≤ s.rtt.RTThatShift
  next : ∀ j, max since s.win.shiftEnd ≤ j → j < n → s.rtt.nextRTThat ≤ rttOf F j
  hats : ∃ hats, Holds hats n s.hist.RTThat ∧ ∀ j < n, hats j ≤ rttOf F j

/-- The history window before stamp `n`: the half window lies ahead, or the end of the window. -/
structure Schedule (since n : Nat) (s : AlgoState D) : Prop where
  since_lt : since < n
  room : s.win.shiftWin + 2 ≤ s.win.hWin / 2
  phase : since = 0 ∧ n ≤ s.win.hWin / 2 ∧ s.win.historyEnd + 1 = s.win.hWin ∨
    s.win.hWin / 2 < n ∧ since + s.win.shiftWin ≤ s.win.historyEnd ∧ n ≤ s.win.historyEnd
  noTransition : s.poll.pollTransitionTh = 0

/-- The event predicates of this module: they accept the point errors that are not negative, and
all events of other kinds. -/
structure AcceptsPoints (P : Event D → Prop) : Prop where
  find : ∀ name i oldest newest, P (.find name i oldest newest)
  diff : ∀ later earlier, P (.diff later earlier)
  half : ∀ i, P (.halfWindow i)
  slide : ∀ i r, P (.slide i r)
  nonneg : ∀ {RTT RTThat : VCounter}, RTThat ≤ RTT → P (.pointErr RTT RTThat)

/-- The offset window lies in the shift window, unless nothing is asked of point errors. -/
def OffsetOk (P : Event D → Prop) (w : Windows) : Prop :=
  w.offsetWin ≤ w.shiftWin ∨ ∀ RTT RTThat, P (.pointErr RTT RTThat)

/-- The point errors that are not negative are the condition asked about. -/
theorem points_errNonneg : AcceptsPoints (D := D) Event.ErrNonneg :=
  ⟨fun _ _ _ _ => True.intro, fun _ _ => True.intro, fun _ => True.intro,
    fun _ _ => True.intro, fun h => h⟩

/-- No condition at all. -/
theorem points_any : AcceptsPoints (D := D) (fun _ => True) :=
  ⟨fun _ _ _ _ => True.intro, fun _ _ => True.intro, fun _ => True.intro,
    fun _ _ => True.intro, fun _ => True.intro⟩

variable [Arith D] {P : Event D → Prop} {F : Nat → BidirStamp D} {since n : Nat}
  {s : AlgoState D} {mp : Metaparam D}

omit [Arith D] in
/-- Differences of counter values are not asked about. -/
theorem AcceptsPoints.diffOk (hP : AcceptsPoints P) (F : Nat → BidirStamp D) (n : Nat) :
    DiffOk P F n :=
  ⟨fun _ _ _ _ => hP.diff _ _, fun _ _ _ _ => hP.diff _ _⟩

omit [Arith D] in
/-- Lookups are not constrained. -/
theorem AcceptsPoints.okFrom (hP : AcceptsPoints P) {α : Type} (h : History α) (lo n : Nat) :
    OkFrom P True h lo n := okFrom_lax hP.find h lo n

omit [Arith D] in
/-- The minimum is below every RTT of the shift window. -/
theorem Minima.hat_le (h : Minima F since n s) {j : Nat} (h1 : s.win.shiftEnd ≤ j) (h2 : j < n) :
    s.rtt.RTThat ≤ rttOf F j :=
  UInt64.le_trans h.le_shift (h.shiftMin.le h1 (by omega))

/-! ## The history window -/

/-- At a half window and at a slide the minima stay in order. -/
theorem manageHistorywin_minima (hP : AcceptsPoints P) (hat : At F n s)
    (h : Full F (n + 1) (n + 1) n n s) (hm : Minima F since n s) (hs : Schedule since n s)
        (RTT : VCounter) :
    Sat P True (manageHistorywin (F n) RTT s) (fun s' =>
      (At F n s' ∧ s'.win.warmupWin = s.win.warmupWin ∧ Full F (n + 1) (n + 1) n n s') ∧
        ∃ since', Minima F since' n s' ∧ Schedule since' (n + 1) s') := by
  have hpos := hat.pos
  have hroom := hs.room
  have hshift := hm.shift
  have hlast : s.stamp.RTT = rttOf F (n - 1) := by rw [hat.last]; rfl
  have hnext : ∀ e : Nat, ∀ j, max (n - 1) e ≤ j → j < n → s.stamp.RTT ≤ rttOf F j := by
    intro e j h1 h2
    have hj : j = n - 1 := by omega
    rw [hj, hlast]
    exact UInt64.le_refl _
  refine ((manageHistorywin_sat hpos hat.si
    (hP.okFrom _ 0 n _ (Nat.zero_le _) (by omega))
    (hP.okFrom _ 0 n _ (Nat.zero_le _) (by omega)) (hP.half n) (hP.slide n)).and_returns
    ((manageHistorywin_keeps (accepts_any F n) hat h RTT).returns.and
      (manageHistorywin_cases _ _ _))).mono ?_
  rintro s' ⟨-, hk, s1, hs1, hcase⟩
  refine ⟨hk, ?_⟩
  rw [hat.si] at hs1
  by_cases hhalf : n = s.win.hWin / 2
  · -- the middle of the first window
    rw [if_pos hhalf] at hs1
    have hend : s.win.historyEnd + 1 = s.win.hWin := by
      rcases hs.phase with ⟨-, -, hend⟩ | ⟨hlt, -⟩
      · exact hend
      · omega
    rcases hcase with ⟨hnow, -⟩ | ⟨-, rfl⟩
    · rw [hs1] at hnow
      change s.si = s.win.historyEnd at hnow
      rw [hat.si] at hnow
      omega
    · subst hs1
      refine ⟨n - 1, ⟨hm.shift, hm.shiftMin, hm.le_shift, hnext _, hm.hats⟩,
        ⟨by omega, hs.room, Or.inr ⟨?_, ?_, ?_⟩, hs.noTransition⟩⟩
      · show s.win.hWin / 2 < n + 1
        omega
      · show n - 1 + s.win.shiftWin ≤ s.win.historyEnd
        omega
      · show n + 1 ≤ s.win.historyEnd
        omega
  · rw [if_neg hhalf] at hs1
    subst hs1
    rcases hcase with ⟨hnow, Df, Db, rfl⟩ | ⟨hnow, rfl⟩
    · -- a slide: what was prepared is not above the minimum of the shift window
      rw [hat.si] at hnow
      have hsince : since + s1.win.shiftWin ≤ s1.win.historyEnd := by
        rcases hs.phase with ⟨-, hle, hend⟩ | ⟨-, hsince, -⟩
        · omega
        · exact hsince
      have hprep : s1.rtt.nextRTThat ≤ s1.rtt.RTThatShift := by
        obtain ⟨⟨k, hk1, hk2, hk⟩, -⟩ := minRTT_iff.mp hm.shiftMin
        rw [hk]
        exact hm.next k (by omega) (by omega)
      refine ⟨n - 1, ⟨hm.shift, hm.shiftMin, hprep, hnext _, hm.hats⟩,
        ⟨by omega, hs.room, Or.inr ⟨?_, ?_, ?_⟩, hs.noTransition⟩⟩
      · show s1.win.hWin / 2 < n + 1
        rcases hs.phase with ⟨-, hle, hend⟩ | ⟨hlt, -⟩ <;> omega
      · show n - 1 + s1.win.shiftWin ≤ s1.win.historyEnd + s1.win.hWin / 2
        omega
      · show n + 1 ≤ s1.win.historyEnd + s1.win.hWin / 2
        omega
    · rw [hat.si] at hnow
      refine ⟨since, hm, ⟨by have := hs.since_lt; omega, hs.room, ?_, hs.noTransition⟩⟩
      rcases hs.phase with ⟨h0, hle, hend⟩ | ⟨hlt, hsince, hle⟩
      · exact Or.inl ⟨h0, by omega, hend⟩
      · exact Or.inr ⟨by omega, hsince, by omega⟩

/-! ## `process_RTT_full` -/

omit [Arith D] in
/-- The history of estimates, with the estimate for stamp `n` added. -/
theorem addHat_le {hats : Nat → VCounter} {v : VCounter} (h : ∀ j < n, hats j ≤ rttOf F j)
    (hv : v ≤ rttOf F n) : ∀ j < n + 1, addHat hats n v j ≤ rttOf F j := by
  intro j hj
  unfold addHat
  by_cases hjn : j = n
  · subst hjn
    rw [Function.update_self]
    exact hv
  · rw [Function.update_of_ne hjn]
    exact h j (by omega)

omit [Arith D] in
/-- A correction is made back to the start of the shift window at most. -/
theorem corrected_le {hats : Nat → VCounter} {v : VCounter} {jmin e : Nat}
    (h : ∀ j < n + 1, hats j ≤ rttOf F j) (hv : MinRTT F e n v) (he : e ≤ jmin) :
    ∀ j < n + 1, corrected hats v jmin n j ≤ rttOf F j := by
  intro j hj
  unfold corrected
  split
  · next hin => exact hv.le (by omega) (by omega)
  · exact h j hj

omit [Arith D] in
/-- The indices that an upshift rewrites are in the shift window. -/
theorem le_upshiftJmin (hsi : s.si = n) (hshift : s.win.shiftEnd + s.win.shiftWin = n) :
    s.win.shiftEnd + 1 ≤ upshiftJmin s := by
  unfold upshiftJmin lastshift
  dsimp only
  rw [hsi, wsub_of_le (show s.win.shiftWin ≤ n + 1 by omega)]
  omega

/-- `process_RTT_full` keeps the minima, with or without an upshift. -/
theorem processRTTFull_minima (hP : AcceptsPoints P) (hat : At F n s)
    (h : Full F (n + 1) (n + 1) n n s) (hm : Minima F since n s) (hs : Schedule since (n + 1) s) :
    Sat P True (processRTTFull (F n).RTT s) (fun s' =>
      (At F n s' ∧ s'.win.warmupWin = s.win.warmupWin ∧ Full F (n + 1) (n + 1) n (n + 1) s') ∧
        Minima F since (n + 1) s' ∧ Schedule since (n + 1) s') := by
  have hsw := h.win.shift
  have hshift := hm.shift
  have hjmin := le_upshiftJmin hat.si hshift
  have hpred : wsub s.win.shiftWin 1 = s.win.shiftWin - 1 := wsub_of_le (by omega)
  obtain ⟨hats, hh, hle⟩ := hm.hats
  refine ((processRTTFull_sat hat.pos hat.si h.rtts hh (by omega) (by omega)
    (fun _ => hP.okFrom _ _ _) (hP.okFrom _ _ _)).and_returns
    ((processRTTFull_keeps (accepts_any F n) hat h _).returns.and
      (processRTTFull_frame _ _))).mono ?_
  rintro s' ⟨⟨v, -, hmove, hmin, hcase⟩, hk, rtt, e, perr, nhat, h', stt, rfl⟩
  have he : e = s.win.shiftEnd + 1 := by
    rw [hpred] at hmove
    change (n < s.win.shiftWin - 1 + s.win.shiftEnd ∧ e = s.win.shiftEnd ∨
      s.win.shiftWin - 1 + s.win.shiftEnd ≤ n ∧ e = s.win.shiftEnd + 1) at hmove
    omega
  subst he
  have hv : MinRTT F (s.win.shiftEnd + 1) n v := hmin hm.shiftMin
  have hend : s.win.shiftEnd + 1 + s.win.shiftWin = n + 1 := by omega
  have hhat : ∀ j, s.win.shiftEnd ≤ j → j < n + 1 → min s.rtt.RTThat (rttOf F n) ≤ rttOf F j :=
    minVC_le_of_forall fun j h1 h2 => hm.hat_le h1 h2
  have hnext := minVC_le_of_forall hm.next
  have hadd : ∀ j < n + 1, addHat hats n (min s.rtt.RTThat (rttOf F n)) j ≤ rttOf F j :=
    addHat_le hle (minVC_le_right _ _)
  refine ⟨hk, ?_, ⟨hs.since_lt, hs.room, hs.phase, hs.noTransition⟩⟩
  rcases hcase with ⟨hrtt, hh'⟩ | ⟨hrtt, hh'⟩
  · change rtt = s.rtt.updated (rttOf F n) v at hrtt
    subst hrtt
    refine ⟨hend, hv, ?_, fun j h1 h2 => hnext j ?_ h2, ⟨_, hh', hadd⟩⟩
    · -- the minimum of the shift window is the RTT of one of its stamps
      obtain ⟨⟨k, hk1, hk2, hk⟩, -⟩ := minRTT_iff.mp hv
      show min s.rtt.RTThat (rttOf F n) ≤ v
      rw [hk]
      exact hhat k (by omega) (by omega)
    · change max since (s.win.shiftEnd + 1) ≤ j at h1
      omega
  · change Upshifted (s.rtt.updated (rttOf F n) v) rtt at hrtt
    unfold Upshifted at hrtt
    subst hrtt
    refine ⟨hend, hv, UInt64.le_refl _, fun j h1 h2 => ?_, ⟨_, hh', corrected_le hadd hv hjmin⟩⟩
    change max since (s.win.shiftEnd + 1) ≤ j at h1
    exact hv.le (by omega) (by omega)

/-! ## The point errors -/

omit [Arith D] in
/-- The minimum is below the RTT of the last stamp. -/
theorem Minima.hat_le_last (h : Minima F since (n + 1) s) (hpos : 1 ≤ s.win.shiftWin) :
    s.rtt.RTThat ≤ rttOf F n := by
  have hshift := h.shift
  exact h.hat_le (by omega) (Nat.lt_succ_self n)

/-- An offset window that lies in the shift window. -/
theorem shiftEnd_le_fullJmin (hsi : s.si = n) (hm : Minima F since (n + 1) s)
    (hs : Schedule since (n + 1) s) (hw : WinOk s.win) (hoff : s.win.offsetWin ≤ s.win.shiftWin) :
    s.win.shiftEnd ≤ fullJmin s := by
  have hshift := hm.shift
  have hwin : thetaWin s = s.win.offsetWin := by
    unfold thetaWin
    rw [hs.noTransition]
    exact if_neg (Nat.lt_irrefl 0)
  have h2 := hw.offset
  unfold fullJmin safeJmin
  rw [hsi, hwin, wsub_of_le (show 1 ≤ s.win.offsetWin by omega)]
  split <;> split <;> omega

/-- Once `process_RTT_full` has run, the rest of the call leaves the minima alone. -/
structure SameMinima (s s' : AlgoState D) : Prop where
  shiftEnd : s'.win.shiftEnd = s.win.shiftEnd
  shiftWin : s'.win.shiftWin = s.win.shiftWin
  hWin : s'.win.hWin = s.win.hWin
  historyEnd : s'.win.historyEnd = s.win.historyEnd
  offsetWin : s'.win.offsetWin = s.win.offsetWin
  rtt : s'.rtt = s.rtt
  hats : s'.hist.RTThat = s.hist.RTThat
  transition : s'.poll.pollTransitionTh ≤ s.poll.pollTransitionTh

omit [Arith D] in
/-- The minima of a state that has the same ones. -/
theorem Minima.congr {s' : AlgoState D} (h : Minima F since n s) (hc : SameMinima s s') :
    Minima F since n s' where
  shift := by
    rw [hc.shiftEnd, hc.shiftWin]
    exact h.shift
  shiftMin := by
    rw [hc.shiftEnd, hc.rtt]
    exact h.shiftMin
  le_shift := by
    rw [hc.rtt]
    exact h.le_shift
  next := by
    rw [hc.shiftEnd, hc.rtt]
    exact h.next
  hats := by
    rw [hc.hats]
    exact h.hats

omit [Arith D] in
/-- So it is for the schedule. -/
theorem Schedule.congr {s' : AlgoState D} (h : Schedule since n s) (hc : SameMinima s s') :
    Schedule since n s' where
  since_lt := h.since_lt
  room := by
    rw [hc.shiftWin, hc.hWin]
    exact h.room
  phase := by
    rw [hc.shiftWin, hc.hWin, hc.historyEnd]
    exact h.phase
  noTransition := Nat.eq_zero_of_le_zero (h.noTransition ▸ hc.transition)

omit [Arith D] in
/-- So it is for the offset window. -/
theorem OffsetOk.congr {s' : AlgoState D} (h : OffsetOk P s.win) (hc : SameMinima s s') :
    OffsetOk P s'.win := by
  unfold OffsetOk
  rw [hc.offsetWin, hc.shiftWin]
  exact h

omit [Arith D] in
/-- A state has its own minima. -/
theorem SameMinima.refl (s : AlgoState D) : SameMinima s s :=
  ⟨rfl, rfl, rfl, rfl, rfl, rfl, rfl, Nat.le_refl _⟩

/-- What holds of the state once `process_RTT_full` has run for stamp `n`. -/
structure Settled (P : Event D → Prop) (F : Nat → BidirStamp D) (since n : Nat)
    (s : AlgoState D) : Prop where
  minima : Minima F since (n + 1) s
  schedule : Schedule since (n + 1) s
  offset : OffsetOk P s.win

omit [Arith D] in
/-- And for all three. -/
theorem Settled.congr {s' : AlgoState D} (h : Settled P F since n s) (hc : SameMinima s s') :
    Settled P F since n s' := ⟨h.minima.congr hc, h.schedule.congr hc, h.offset.congr hc⟩

/-- The one-way minima do not touch those of the RTT. -/
theorem processOWDAsymFull_same (st : BidirStamp D) :
    Returns (processOWDAsymFull st s) (SameMinima s) := by
  refine (processOWDAsymFull_frame _ _).mono ?_
  rintro s' ⟨owd, e, Dfhat, Dbhat, Asymhat, rfl⟩
  exact ⟨rfl, rfl, rfl, rfl, rfl, rfl, rfl, Nat.le_refl _⟩

/-- Nor does the next `pstamp`. -/
theorem updateNextPstamp_same (st : BidirStamp D) (RTT : VCounter) :
    Returns (updateNextPstamp st RTT s) (SameMinima s) := by
  refine (updateNextPstamp_cases _ _ _).mono ?_
  rintro s' ⟨c, rfl | ⟨-, -, perr, nhat, rfl⟩⟩
  · exact ⟨rfl, rfl, rfl, rfl, rfl, rfl, rfl, Nat.le_refl _⟩
  · exact ⟨rfl, rfl, rfl, rfl, rfl, rfl, rfl, Nat.le_refl _⟩

/-- Nor does the period. -/
theorem processPhatFull_same (st : BidirStamp D) (RTT : VCounter) (q : Bool) :
    Returns (processPhatFull st RTT q s) (SameMinima s) := by
  refine (processPhatFull_frame _ _ _ _).mono ?_
  rintro s' ⟨K, phat, perr, c, stt, rfl⟩
  exact ⟨rfl, rfl, rfl, rfl, rfl, rfl, rfl, Nat.le_refl _⟩

/-- Nor does the local period. -/
theorem processPlocalFull_same (q : Bool) : Returns (processPlocalFull q s) (SameMinima s) := by
  refine (processPlocalFull_frame _ _).mono ?_
  rintro s' ⟨en, ends, ploc, out, stt, rfl⟩
  exact ⟨rfl, rfl, rfl, rfl, rfl, rfl, rfl, Nat.le_refl _⟩

/-- The poll transition comes one stamp nearer to its end. -/
theorem processThetahatFull_transition (st : BidirStamp D) (q : Bool) (E : D) :
    Returns (processThetahatFull mp st q E s) (fun s' =>
      s'.poll.pollTransitionTh = s.poll.pollTransitionTh - 1) := by
  refine Returns.skip fun d0 => Returns.skip fun a => Returns.skip fun e =>
    Returns.skip fun d => Returns.skip fun best => Returns.pure ?_
  obtain ⟨m, stt, hqual⟩ := judgeQuality_frame a (stepTransition (recordTheta (naiveTheta s st) s))
  rw [hqual]
  obtain ⟨off, bound, stt', hsan, -⟩ := judgeSanity_frame st a
    (candidateTheta a (stepTransition (recordTheta (naiveTheta s st) s))) e
    (Arith.cmax a.gapsize ((stepTransition (recordTheta (naiveTheta s st) s)).osc.phat * vcD d)) q
    { stepTransition (recordTheta (naiveTheta s st) s) with
      off := { (stepTransition (recordTheta (naiveTheta s st) s)).off with offsetQualityCount := m }
      status := stt }
  rw [hsan]
  rfl

/-- Nor does the offset. -/
theorem processThetahatFull_same (st : BidirStamp D) (q : Bool) (E : D) :
    Returns (processThetahatFull mp st q E s) (SameMinima s) := by
  refine ((processThetahatFull_transition st q E).and
    (processThetahatFull_frame _ _ _ _ _)).mono ?_
  rintro s' ⟨htr, t, off, err, stt, out, rfl, -⟩
  exact ⟨rfl, rfl, rfl, rfl, rfl, rfl, rfl, htr ▸ Nat.sub_le _ 1⟩

/-- The point errors of the offset window are not negative, since the minimum is below its RTTs. -/
theorem processThetahatFull_minima (hP : AcceptsPoints P) (hat : At F n s)
    (h : Full F (n + 1) (n + 1) (n + 1) (n + 1) s) (hset : Settled P F since n s) (q : Bool)
    (E : D) : Sat P True (processThetahatFull mp (F n) q E s) (fun _ => True) := by
  obtain ⟨hats, hh, hle⟩ := hset.minima.hats
  refine processThetahatFull_sat hat.si hat.pos rfl h.stamps h.rtts hh (hP.okFrom _ _ _)
    (hP.okFrom _ _ _) (hP.okFrom _ _ _) (hP.okFrom _ _ _)
    (fun _ k => hP.okFrom _ 0 (k + 1) k (Nat.zero_le k) (Nat.lt_succ_self k))
    (hP.diffOk F n) (hP.diff _ _) (hP.diff _ _)
    (fun k _ hk => hP.nonneg (hle k (Nat.lt_succ_of_le hk))) fun k hk hk' => ?_
  -- the second loop takes the current estimate, which only the shift window bounds
  rcases hset.offset with hoff | hany
  · have hjmin := shiftEnd_le_fullJmin (s := recordTheta (naiveTheta s (F n)) s) hat.si
      (hset.minima.congr ⟨rfl, rfl, rfl, rfl, rfl, rfl, rfl, Nat.le_refl _⟩)
      (hset.schedule.congr ⟨rfl, rfl, rfl, rfl, rfl, rfl, rfl, Nat.le_refl _⟩) h.win hoff
    exact hP.nonneg (hset.minima.hat_le (Nat.le_trans hjmin hk) (Nat.lt_succ_of_le hk'))
  · exact hany _ _

/-- The history window keeps the widths of the others. -/
theorem manageHistorywin_win (st : BidirStamp D) (RTT : VCounter) :
    Returns (manageHistorywin st RTT s) (fun s' =>
      s'.win.shiftWin = s.win.shiftWin ∧ s'.win.offsetWin = s.win.offsetWin) := by
  refine (manageHistorywin_cases _ _ _).mono ?_
  rintro s' ⟨s1, hs1, hcase⟩
  have h1 : s1.win.shiftWin = s.win.shiftWin ∧ s1.win.offsetWin = s.win.offsetWin := by
    rw [hs1]
    split <;> exact ⟨rfl, rfl⟩
  rcases hcase with ⟨-, Df, Db, rfl⟩ | ⟨-, rfl⟩
  · exact h1
  · exact h1

/-- A stamp of the full phase: the minima stay in order, and no point error is negative. -/
theorem fullPhase_minima (hP : AcceptsPoints P) (hat : At F n s) (h : Full F (n + 1) (n + 1) n n s)
    (hm : Minima F since n s) (hs : Schedule since n s) (hoff : OffsetOk P s.win) (inp : Input D)
    (hinp : inp.stamp = F n) :
    Sat P True (fullPhase mp inp s) (fun s' =>
      (At F n s' ∧ s'.win.warmupWin = s.win.warmupWin ∧
        Full F (n + 1) (n + 1) (n + 1) (n + 1) s') ∧ ∃ since, Settled P F since n s') := by
  have hany := accepts_any (D := D) F n
  unfold fullPhase
  rw [hinp]
  refine Sat.bind ((manageHistorywin_minima hP hat h hm hs _).and_returns
    (manageHistorywin_win _ _)) ?_
  rintro s1 ⟨⟨⟨hat1, hw1, h1⟩, since', hm1, hs1⟩, hsw1, how1⟩
  -- the shift may start anew here
  refine Sat.bind ((processRTTFull_minima hP hat1 h1 hm1 hs1).and_returns
    (processRTTFull_frame _ _)) ?_
  rintro s2 ⟨⟨⟨hat2, hw2, h2⟩, hm2, hs2⟩, rtt, e, perr, nhat, h', stt, rfl⟩
  have hoff2 : OffsetOk P s1.win := by
    unfold OffsetOk
    rw [hsw1, how1]
    exact hoff
  have hset2 : Settled P F since' n _ := ⟨hm2, hs2, hoff2⟩
  refine Sat.bind ((Sat.of_returns (processOWDAsymFull_emits hP.find _ _)
    (processOWDAsymFull_keeps hany hat2 h2 _).returns).and_returns (processOWDAsymFull_same _)) ?_
  rintro s3 ⟨⟨hat3, hw3, h3⟩, hc3⟩
  -- from here on the minima do not change
  have hset3 := hset2.congr hc3
  have hlast := hset3.minima.hat_le_last (Nat.le_trans (by decide) h3.win.shift)
  refine Sat.bind (((updateNextPstamp_sat (hP.nonneg hlast)).and_returns
    (updateNextPstamp_keeps hany hat3 h3 _).returns).and_returns (updateNextPstamp_same _ _)) ?_
  rintro s4 ⟨⟨-, hat4, hw4, h4⟩, hc4⟩
  have hset4 := hset3.congr hc4
  refine Sat.bind (((processPhatFull_sat (hP.nonneg (hc4.rtt ▸ hlast)) (hP.diff _ _)
    (hP.diff _ _)).and_returns
    (processPhatFull_keeps hany hat4 h4 _ _).returns).and_returns (processPhatFull_same _ _ _)) ?_
  rintro s5 ⟨⟨-, hat5, hw5, h5⟩, hc5⟩
  have hset5 := hset4.congr hc5
  refine Sat.bind ((Sat.of_returns (processPlocalFull_emits hP.find hP.diff _ _)
    (processPlocalFull_keeps hany hat5 h5 _).returns).and_returns (processPlocalFull_same _)) ?_
  rintro s6 ⟨⟨hat6, hw6, h6⟩, hc6⟩
  have hset6 := hset5.congr hc6
  refine Sat.bind (((processThetahatFull_minima hP hat6 h6 hset6 _ _).and_returns
    (processThetahatFull_keeps hany hat6 h6 _ _).returns).and_returns
    (processThetahatFull_same _ _ _)) ?_
  rintro s7 ⟨⟨-, hat7, hw7, h7⟩, hc7⟩
  have hset7 := hset6.congr hc7
  refine ((updatePathpenaltyFull_sat (hP.diff _ _)).and_returns
    (updatePathpenaltyFull_frame _ _ _)).mono ?_
  rintro s8 ⟨-, pen, out, rfl⟩
  refine ⟨⟨⟨hat7.pos, hat7.idx, hat7.last⟩, ?_, ⟨⟨h7.stamps, h7.rtts, h7.theta⟩, h7.win, h7.reach,
    h7.ends, h7.pstamp, h7.next, h7.hats⟩⟩, since',
    hset7.congr ⟨rfl, rfl, rfl, rfl, rfl, rfl, rfl, Nat.le_refl _⟩⟩
  show s7.win.warmupWin = s.win.warmupWin
  rw [hw7, hw6, hw5, hw4, hw3, hw2, hw1]

/-! ## Warmup -/

/-- What warmup does to the RTT estimates. -/
structure WarmStep (RTT : VCounter) (s s' : AlgoState D) : Prop where
  win : s'.win = s.win
  hist : s'.hist.RTT = s.hist.RTT ∧ s'.hist.RTThat = s.hist.RTThat
  hat : s'.rtt.RTThat = min s.rtt.RTThat RTT
  transition : s'.poll.pollTransitionTh ≤ s.poll.pollTransitionTh

/-- Each warmup stamp counts the transition down. -/
theorem processThetahatWarmup_transition (st : BidirStamp D) :
    Returns (processThetahatWarmup mp st s) (fun s' =>
      s'.poll.pollTransitionTh = s.poll.pollTransitionTh - 1) := by
  refine Returns.skip fun a => Returns.skip fun e => Returns.skip fun d =>
    Returns.skip fun best => Returns.pure ?_
  obtain ⟨off, bound, stt, heq, -⟩ := judgeWarmup_frame st a e
    ((stepTransition (recordTheta (naiveTheta s st) s)).osc.phat * vcD d)
    (stepTransition (recordTheta (naiveTheta s st) s))
  rw [heq]
  rfl

/-- What a warmup stamp does to the minimum and the transition. -/
theorem warmupAlgos_step (st : BidirStamp D) :
    Returns (warmupAlgos mp st s) (WarmStep st.RTT s) := by
  obtain ⟨i, owd, Df, Db, -, hpath⟩ := warmupPath_frame st st.RTT s
  unfold warmupAlgos
  rw [hpath]
  refine Returns.bind (processPhatWarmup_frame _ _) ?_
  rintro s1 ⟨ends, K, phat, perr, rfl⟩
  refine Returns.bind ((processThetahatWarmup_transition _).and
    (processThetahatWarmup_frame _ _ _)) ?_
  rintro s2 ⟨htr, t, off, bound, stt, out, rfl, -⟩
  obtain ⟨out', stt', hfin⟩ := finishWarmup_frame mp
    { copyPhat _ with
      hist := _, poll := _, off := off, err := _, status := stt, output := out }
  refine Returns.pure ?_
  rw [hfin]
  exact ⟨rfl, ⟨rfl, rfl⟩, rfl, htr ▸ Nat.sub_le _ 1⟩

/-- The shift window starts with a minimum over what it covers. -/
theorem initRTTOWDAsymFull_shift (hsi : s.si = n) (hR : Holds (rttOf F) (n + 1) s.hist.RTT)
    (hend : initShiftEnd s ≤ n) :
    Returns (initRTTOWDAsymFull s) (fun s' => MinRTT F (initShiftEnd s) n s'.rtt.RTThatShift) := by
  refine Returns.skip fun kf => Returns.skip fun f => Returns.skip fun kb =>
    Returns.skip fun b => ?_
  have hok : OkFrom (D := D) (fun _ => True) True s.hist.RTT (initShiftEnd s) (n + 1) :=
    points_any.okFrom _ _ _
  rw [hsi]
  refine Returns.bind (minScan_sat hR hend (by omega) hok).returns fun kr hkr => ?_
  have hkn := Nat.lt_succ_of_le hkr.right
  have hget : Sat (fun _ => True) True (historyGet s.hist.RTT kr) (fun r => r = rttOf F kr) :=
    historyGet_sat hR hkn (hok kr hkr.left hkn) rfl
  refine Returns.bind hget.returns fun r hr => ?_
  subst hr
  exact Returns.pure ⟨kr, hkr, rfl⟩

omit [Arith D] in
/-- The capacity leaves the shift window its full length. -/
theorem initShiftEnd_add {cap : Nat} (hsi : s.si = n) (hsw : 1 ≤ s.win.shiftWin)
    (hst : Stocked cap (n + 1) s.hist.RTT) (hcap : s.win.shiftWin + 2 ≤ cap)
    (hn : s.win.shiftWin < n) : initShiftEnd s + s.win.shiftWin = n + 1 := by
  unfold initShiftEnd
  rw [hst.old (Nat.succ_pos n) (by omega), hsi, wsub_of_le hsw, if_pos hn]
  omega

/-- The full algorithms start with the minima in order. -/
theorem initFull_minima {cap : Nat} (hat : At F n s) (h : Warm F (n + 1) (n + 1) (n + 1) s)
    (hW : s.win.warmupWin = n + 1) (hst : Stocked cap (n + 1) s.hist.RTT)
    (hcap : s.win.shiftWin + 2 ≤ cap) (hroom : s.win.shiftWin + 2 ≤ s.win.warmupWin)
    (hoff : OffsetOk P s.win) (htr : s.poll.pollTransitionTh = 0)
    (hhat : ∀ j < n + 1, s.rtt.RTThat ≤ rttOf F j) :
    Returns (initFull (F n) s) (Settled P F 0 n) := by
  have hhalf := h.win.half
  have hsw := h.win.shift
  have hend : initShiftEnd { s with win := { s.win with historyEnd := wsub s.win.hWin 1 } } +
      s.win.shiftWin = n + 1 :=
    initShiftEnd_add (s := { s with win := { s.win with historyEnd := wsub s.win.hWin 1 } })
      hat.si (show 1 ≤ s.win.shiftWin by omega) hst hcap (show s.win.shiftWin < n by omega)
  have hle : initShiftEnd { s with win := { s.win with historyEnd := wsub s.win.hWin 1 } } ≤ n := by
    omega
  obtain ⟨g, hg⟩ := h.noHats
  refine Returns.bind ((initRTTOWDAsymFull_shift
    (s := { s with win := { s.win with historyEnd := wsub s.win.hWin 1 } }) hat.si h.rtts
    hle).and (initRTTOWDAsymFull_frame _)) ?_
  rintro s1 ⟨hmin, r, f, b, rfl⟩
  refine Returns.bind (initPhatFull_frame _) ?_
  rintro s2 ⟨st, perr, rfl⟩
  refine Returns.bind (initPlocalFull_frame _) ?_
  rintro s3 ⟨e, ends, ploc, rfl⟩
  refine Returns.pure ⟨⟨hend, hmin, ?_, fun j _ hj => hhat j hj, fun _ => s.rtt.RTThat, ?_,
    fun j hj => hhat j hj⟩, ⟨Nat.succ_pos n, ?_, Or.inl ⟨rfl, ?_, ?_⟩, htr⟩, hoff⟩
  · -- the minimum of the shift window is one of the RTTs of warmup
    obtain ⟨⟨k, -, hk, hr⟩, -⟩ := minRTT_iff.mp hmin
    show s.rtt.RTThat ≤ r
    change r = _ at hr
    rw [hr]
    exact hhat k (by omega)
  · show Holds _ (n + 1) (fillHistory s.rtt.RTThat 0 (s.si + 1) s.hist.RTThat)
    rw [hat.si]
    have hfill := holds_fill s.rtt.RTThat (n + 1) 0 _ (hg.of_empty)
    rw [Nat.zero_add] at hfill
    exact hfill
  · show s.win.shiftWin + 2 ≤ s.win.hWin / 2
    omega
  · show n + 1 ≤ s.win.hWin / 2
    omega
  · show wsub s.win.hWin 1 + 1 = s.win.hWin
    rw [wsub_of_le (by omega)]
    omega

/-- The estimate in warmup is a minimum of all RTTs, in a history that is as long as promised. -/
structure WarmHat (F : Nat → BidirStamp D) (cap k n : Nat) (s : AlgoState D) : Prop where
  stock : Stocked cap k s.hist.RTT
  hat : ∀ j < n, s.rtt.RTThat ≤ rttOf F j
  noTransition : s.poll.pollTransitionTh = 0

/-- A call of the warmup keeps the minimum, and at the end of it the schedule starts. -/
theorem warmupPhase_minima {cap : Nat} (hP : AcceptsPoints P) (hat : At F n s)
    (h : Warm F (n + 1) (n + 1) n s)
    (hW : n < s.win.warmupWin) (hwh : WarmHat F cap (n + 1) n s)
    (hcap : s.win.shiftWin + 2 ≤ cap) (hroom : s.win.shiftWin + 2 ≤ s.win.warmupWin)
    (hoff : OffsetOk P s.win) :
    Sat P True (warmupPhase mp (F n) s) (fun s' => At F n s' ∧
      ((Warm F (n + 1) (n + 1) (n + 1) s' ∧ n + 1 < s'.win.warmupWin) ∧ s'.win = s.win ∧
          WarmHat F cap (n + 1) (n + 1) s' ∨
        (Full F (n + 1) (n + 1) (n + 1) (n + 1) s' ∧ s'.win.warmupWin ≤ n + 1) ∧
          Settled P F 0 n s')) := by
  have hany := accepts_any (D := D) F n
  refine Sat.of_returns (warmupPhase_emits hP.find hP.diff _ _ _)
    (Returns.bind ((warmupAlgos_keeps hany hat h).returns.and (warmupAlgos_step _)) ?_)
  rintro s1 ⟨⟨hat1, hw1, h1⟩, hstep⟩
  have hwh1 : WarmHat F cap (n + 1) (n + 1) s1 := by
    refine ⟨hstep.hist.1 ▸ hwh.stock, fun j hj => ?_,
      Nat.eq_zero_of_le_zero (hwh.noTransition ▸ hstep.transition)⟩
    rw [hstep.hat]
    exact minVC_le_of_forall (fun j _ hj => hwh.hat j hj) j (Nat.zero_le j) hj
  have hpred : wsub s1.win.warmupWin 1 = s1.win.warmupWin - 1 := by
    rw [hw1]
    exact wsub_of_le (by omega)
  -- at the last stamp the windows of the full phase start
  refine Returns.ite (fun hlast => ?_) fun hmore => ?_
  · rw [hat1.si, hpred, hw1] at hlast
    have hWn : s1.win.warmupWin = n + 1 := by
      rw [hw1]
      omega
    refine ((initFull_keeps hany hat1 h1 hWn).returns.and
      (initFull_minima hat1 h1 hWn hwh1.stock (hw1 ▸ hcap) (hw1 ▸ hroom) (hw1 ▸ hoff)
        hwh1.noTransition hwh1.hat)).mono ?_
    rintro s2 ⟨⟨hat2, h2⟩, hset⟩
    exact ⟨hat2, Or.inr ⟨h2, hset⟩⟩
  · rw [hat1.si, hpred, hw1] at hmore
    exact Returns.pure ⟨hat1, Or.inl ⟨⟨h1, by rw [hw1]; omega⟩, hw1, hwh1⟩⟩

/-! ## Calls -/

/-- The last statements of a call leave histories, windows, RTT estimates and the polling period
alone. -/
theorem finish_rest (st : BidirStamp D) :
    Returns (do
      let s ← updateErrors mp st (copyStamp st s)
      pure (fillOutput st.RTT s)) (fun s' => s'.hist = s.hist ∧ s'.win = s.win ∧ s'.rtt = s.rtt ∧
        s'.poll = s.poll) := by
  obtain ⟨stats, hcopy⟩ := copyStamp_frame st s
  rw [hcopy]
  refine Returns.bind (updateErrors_frame _ _ _) ?_
  rintro s1 ⟨err, rfl⟩
  exact Returns.pure ⟨rfl, rfl, rfl, rfl⟩

/-- The end of a call takes no point error. -/
theorem finish_emits (hP : AcceptsPoints P) (st : BidirStamp D) :
    Emits P (do
      let s ← updateErrors mp st (copyStamp st s)
      pure (fillOutput st.RTT s)) :=
  Emits.bind (updateErrors_emits hP.diff _ _ _) fun _ => Emits.pure

/-- Between calls in warmup, after `n` stamps, with the windows `w`. -/
structure WarmMinima (F : Nat → BidirStamp D) (w : Windows) (n : Nat) (s : AlgoState D) :
    Prop where
  inv : Inv F n s
  win : s.win = w
  more : n < w.warmupWin
  hat : WarmHat F (histSz w.warmupWin) n n s

/-- Between calls in the full phase, after `n` stamps. -/
structure FullMinima (P : Event D → Prop) (F : Nat → BidirStamp D) (n : Nat) (s : AlgoState D) :
    Prop where
  inv : Inv F n s
  full : s.win.warmupWin ≤ n
  minima : ∃ since, Minima F since n s ∧ Schedule since n s
  offset : OffsetOk P s.win

/-- The capacity of the RTT history, and the offset window, in terms of the shift window. -/
structure RoomFor (P : Event D → Prop) (w : Windows) : Prop where
  capacity : w.shiftWin + 2 ≤ histSz w.warmupWin
  offset : OffsetOk P w

omit [Arith D] in
/-- The warmup is longer than the shift window. -/
theorem RoomFor.warmup {w : Windows} (h : RoomFor P w) : w.shiftWin + 2 ≤ w.warmupWin :=
  Nat.le_trans h.capacity (Nat.mod_le _ _)

/-- One call of the warmup keeps the minima. -/
theorem RADalgoBidir_warmMinima {w : Windows} (hP : AcceptsPoints P) (hw : RoomFor P w)
    (conf : Config D) (inp : Input D) (hinp : inp.stamp = F n) (hupd : conf.algoUpdate = false)
    (h : WarmMinima F w n s) :
    Sat P True (RADalgoBidir conf inp s)
      (fun s' => WarmMinima F w (n + 1) s' ∨ FullMinima P F (n + 1) s') := by
  have hW : n < s.win.warmupWin := h.win ▸ h.more
  have hat := h.inv.next_at
  -- the invariant is that of the warmup, since its end is not reached
  have hwarm : Warm F n n n s := by
    rcases h.inv.phase with ⟨hw, -⟩ | ⟨-, hge⟩
    · exact hw
    · exact absurd hW (Nat.not_lt.mpr hge)
  have hcore : Core F n n { s with stampI := s.stampI + 1 } :=
    ⟨hwarm.stamps, hwarm.rtts, hwarm.theta⟩
  have hat' : At F n (recordStamp (F n) { s with stampI := s.stampI + 1 }) :=
    ⟨hat.pos, hat.idx, hat.last⟩
  have hwh : WarmHat F (histSz w.warmupWin) (n + 1) n
      (recordStamp (F n) { s with stampI := s.stampI + 1 }) := by
    refine ⟨?_, h.hat.hat, h.hat.noTransition⟩
    show Stocked _ _ (historyAdd s.hist.RTT (AlgoState.si { s with stampI := s.stampI + 1 }) _)
    rw [hat.si]
    exact h.hat.stock.add _
  rw [RADalgoBidir_noUpdate conf inp h.inv hupd, hinp, phases_warm conf inp hat' hW, hinp]
  refine Sat.bind (warmupPhase_minima hP hat' ⟨hcore.record hat, hwarm.win, hwarm.ends,
    Nat.lt_succ_of_lt hwarm.pstampI, hwarm.noHats, hwarm.fresh⟩ hW hwh (h.win ▸ hw.capacity)
    (h.win ▸ hw.warmup) (h.win ▸ hw.offset)) ?_
  rintro s1 ⟨hat1, hcase⟩
  refine Sat.of_returns (finish_emits hP _) (((finish_keeps (accepts_any F n) hat1.idx
    (hcase.imp (·.1) (·.1))).returns.and (finish_rest _)).mono ?_)
  rintro s2 ⟨hinv, hhist, hwin, hrtt, hpoll⟩
  -- still warming up, or settled
  rcases hcase with ⟨⟨-, hmore⟩, hw1, hwh1⟩ | ⟨⟨-, hle⟩, hset⟩
  · have hw1' : s1.win = w := hw1.trans h.win
    exact Or.inl ⟨hinv, hwin.trans hw1', hw1' ▸ hmore,
      ⟨hhist ▸ hwh1.stock, hrtt ▸ hwh1.hat, hpoll ▸ hwh1.noTransition⟩⟩
  · have hsame : SameMinima s1 s2 := ⟨hwin ▸ rfl, hwin ▸ rfl, hwin ▸ rfl, hwin ▸ rfl, hwin ▸ rfl,
      hrtt, hhist ▸ rfl, hpoll ▸ Nat.le_refl _⟩
    have hset2 := hset.congr hsame
    exact Or.inr ⟨hinv, hwin ▸ hle, ⟨0, hset2.minima, hset2.schedule⟩, hset2.offset⟩

/-- One call of the full phase keeps the minima. -/
theorem RADalgoBidir_fullMinima (hP : AcceptsPoints P) (conf : Config D) (inp : Input D)
    (hinp : inp.stamp = F n) (hupd : conf.algoUpdate = false) (h : FullMinima P F n s) :
    Sat P True (RADalgoBidir conf inp s) (FullMinima P F (n + 1)) := by
  obtain ⟨since, hm, hs⟩ := h.minima
  -- the end of the warmup is behind
  have hfull : Full F n n n n s := by
    rcases h.inv.phase with ⟨-, hlt⟩ | ⟨hf, -⟩
    · exact absurd h.full (Nat.not_le.mpr hlt)
    · exact hf
  have hat := h.inv.next_at
  have hcore : Core F n n { s with stampI := s.stampI + 1 } :=
    ⟨hfull.stamps, hfull.rtts, hfull.theta⟩
  have hat' : At F n (recordStamp (F n) { s with stampI := s.stampI + 1 }) :=
    ⟨hat.pos, hat.idx, hat.last⟩
  have hsame : SameMinima s (recordStamp (F n) { s with stampI := s.stampI + 1 }) :=
    ⟨rfl, rfl, rfl, rfl, rfl, rfl, rfl, Nat.le_refl _⟩
  rw [RADalgoBidir_noUpdate conf inp h.inv hupd, hinp, phases_full conf inp hat' h.full]
  refine Sat.bind (fullPhase_minima hP hat' ⟨hcore.record hat, hfull.win, hfull.reach, hfull.ends,
    hfull.pstamp.mono (Nat.le_succ n), hfull.next.mono (Nat.le_succ n), hfull.hats⟩
    (hm.congr hsame) (hs.congr hsame) (h.offset.congr hsame) inp hinp) ?_
  rintro s1 ⟨⟨hat1, hw1, h1⟩, since', hset⟩
  have hle : s1.win.warmupWin ≤ n + 1 := by
    rw [hw1]
    exact Nat.le_succ_of_le h.full
  refine Sat.of_returns (finish_emits hP _) (((finish_keeps (accepts_any F n) hat1.idx
    (Or.inr ⟨h1, hle⟩)).returns.and (finish_rest _)).mono ?_)
  rintro s2 ⟨hinv, hhist, hwin, hrtt, hpoll⟩
  have hsame2 : SameMinima s1 s2 := ⟨hwin ▸ rfl, hwin ▸ rfl, hwin ▸ rfl, hwin ▸ rfl, hwin ▸ rfl,
    hrtt, hhist ▸ rfl, hpoll ▸ Nat.le_refl _⟩
  have hset2 := hset.congr hsame2
  exact ⟨hinv, hwin ▸ hle, ⟨since', hset2.minima, hset2.schedule⟩, hset2.offset⟩

/-- The first stamp. -/
theorem RADalgoBidir_firstMinima (hP : AcceptsPoints P) (conf : Config D) (inp : Input D)
    (hinp : inp.stamp = F 0) (hupd : conf.algoUpdate = false) :
    Sat P True (RADalgoBidir conf inp AlgoState.zero) (WarmMinima F (startWindows conf) 1) := by
  generalize hs : initPhase conf inp.stamp (recordStamp inp.stamp
    (nextStamp conf (AlgoState.zero : AlgoState D))) = s1
  have hcall : RADalgoBidir conf inp AlgoState.zero = (do
      let s ← updateErrors conf.metaparam inp.stamp (copyStamp inp.stamp s1)
      pure (fillOutput inp.stamp.RTT s)) := by
    unfold RADalgoBidir reactToUpdate
    rw [hupd, ← hs]
    rfl
  have hwin : s1.win = startWindows conf := by
    rw [← hs]
    rfl
  -- the first RTT is its own minimum
  have hhat : WarmHat F (histSz (startWindows conf).warmupWin) 1 1 s1 := by
    have hempty : Stocked (histSz (startWindows conf).warmupWin) 0
        (historyInit .RTT (histSz (startWindows conf).warmupWin) : History VCounter) :=
      stocked_init _ _
    rw [← hs]
    refine ⟨hempty.add _, fun j hj => ?_, rfl⟩
    have hzero : j = 0 := by omega
    subst hzero
    show inp.stamp.RTT ≤ rttOf F 0
    rw [hinp]
    exact UInt64.le_refl _
  refine Sat.of_returns (hcall ▸ finish_emits hP _) ((((inv_init (accepts_any F 0) conf inp
    hinp).returns).and (hcall ▸ finish_rest _)).mono ?_)
  rintro s2 ⟨hinv, hhist, hw, hrtt, hpoll⟩
  have hW := (startWindows_ok conf).hundred
  exact ⟨hinv, hw.trans hwin, by omega, hhist ▸ hhat.stock, hrtt ▸ hhat.hat,
    hpoll ▸ hhat.noTransition⟩

/-! ## Runs -/

section Run

variable {w : Windows} {conf : Config D}

/-- After `n` stamps of a run under one configuration. -/
def MinRun (P : Event D → Prop) (F : Nat → BidirStamp D) (w : Windows) (n : Nat)
    (s : AlgoState D) : Prop := WarmMinima F w n s ∨ FullMinima P F n s

/-- A run without updates keeps the minima. -/
theorem runFrom_minima (hP : AcceptsPoints P) (hw : RoomFor P w) (hupd : conf.algoUpdate = false)
    (inps : List (Input D)) (h : MinRun P F w n s) (hf : Follows F n (under conf inps)) :
    Sat P True (runFrom (under conf inps) s) (MinRun P F w (n + inps.length)) := by
  have hrun := runFrom_sat (I := MinRun P F w) (under conf inps) n s h fun k c s' hk h' => by
    obtain ⟨inp, -, rfl⟩ := List.mem_map.mp (List.mem_of_getElem? hk)
    rcases h' with h' | h'
    · exact RADalgoBidir_warmMinima hP hw conf inp (hf k _ hk) hupd h'
    · exact (RADalgoBidir_fullMinima hP conf inp (hf k _ hk) hupd h').mono fun _ h'' => Or.inr h''
  rw [under, List.length_map] at hrun
  exact hrun

/-- The minima stay in order along a run under one configuration. -/
theorem run_minima (hP : AcceptsPoints P) (hw : RoomFor P (startWindows conf))
    (hupd : conf.algoUpdate = false) (inp : Input D) (inps : List (Input D))
    (hf : Follows F 0 (under conf (inp :: inps))) :
    Sat P True (run (under conf (inp :: inps)))
      (MinRun P F (startWindows conf) (1 + inps.length)) :=
  Sat.bind (RADalgoBidir_firstMinima hP conf inp hf.head hupd) fun _ h' =>
    runFrom_minima hP hw hupd inps (Or.inl h') hf.tail

end Run

end RADclock
