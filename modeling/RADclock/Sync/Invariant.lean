import RADclock.Sync.Windows

/-!
# The invariant of a run

`Inv F n s`: after the first `n` stamps of the series `F`, the state `s` is either still in
warmup or in the full phase, and in both cases

- the stamp and RTT histories hold the last stamps of the series and their RTTs,
- the end windows stand where the next stamp expects them,
- every stamp recorded in the state is one of the series (or still zero bytes).

The invariant holds after the first stamp and is kept by every call, with one proviso: an
update in the full phase leaves the local period window as it is (`KeepsPlocal`). Nothing is
asked about the sizes of the histories, so a call may also halt.

The lemmas carry an event predicate `P` along: whenever the differences of stamps in the
order of the series satisfy `P`, so do all events of the call.
-/

namespace RADclock

open Lib Lib.Exec

variable {D : Type} [Arith D]

/-! ## Statement -/

/-- What the whole run has in common: `k` stamps are recorded in the histories, and the last
update of the offset was one of the first `n`. -/
structure Core (F : Nat → BidirStamp D) (k n : Nat) (s : AlgoState D) : Prop where
  stamps : Holds F k s.hist.stamp
  rtts : Holds (rttOf F) k s.hist.RTT
  theta : ∃ j, j < n ∧ s.off.thetastamp = F j

/-- The warmup phase; the end windows account for `e` stamps. -/
structure Warm (F : Nat → BidirStamp D) (k n e : Nat) (s : AlgoState D) : Prop
    extends Core F k n s where
  win : WarmWin s.win
  ends : WarmEnds F e s.ends
  pstampI : s.past.pstampI < n
  noHats : ∃ hats, Holds hats 0 s.hist.RTThat
  fresh : s.past.nextPstamp = 0

/-- The full phase; the end windows account for `e` stamps, the RTThat history for `h`. -/
structure Full (F : Nat → BidirStamp D) (k n e h : Nat) (s : AlgoState D) : Prop
    extends Core F k n s where
  win : WinOk s.win
  reach : plocalReach s.win.plocalWin ≤ e
  ends : s.ploc.plocalProblem = false → FullEnds e s.win.plocalWin s.ends
  pstamp : Recorded F n s.past.pstamp
  next : Recorded F n s.past.nextPstamp
  hats : ∃ hats, Holds hats h s.hist.RTThat

/-- The invariant between calls, after `n` stamps. -/
structure Inv (F : Nat → BidirStamp D) (n : Nat) (s : AlgoState D) : Prop where
  pos : 0 < n
  idx : s.stampI = (n : Int) - 1
  last : s.stamp = F (n - 1)
  phase : Warm F n n n s ∧ n < s.win.warmupWin ∨ Full F n n n n s ∧ s.win.warmupWin ≤ n

/-- Inside the call for stamp `n`. -/
structure At (F : Nat → BidirStamp D) (n : Nat) (s : AlgoState D) : Prop where
  pos : 0 < n
  idx : s.stampI = n
  last : s.stamp = F (n - 1)

/-- The next stamp is one of the full phase. -/
def NextFull (s : AlgoState D) : Prop := 0 ≤ s.stampI ∧ (s.win.warmupWin : Int) ≤ s.stampI + 1

/-- An update in the full phase leaves the local period window as it is. -/
def KeepsPlocal (conf : Config D) (s : AlgoState D) : Prop :=
  conf.algoUpdate = true → NextFull s →
    basePlocalWin conf.metaparam conf.pollPeriod = s.win.plocalWin

/-- What the event predicate of this module has to accept: anything but a difference, the
differences in the order of the series, and those with zero bytes. -/
structure Accepts (P : Event D → Prop) (F : Nat → BidirStamp D) (n : Nat) : Prop where
  find : ∀ name i oldest newest, P (.find name i oldest newest)
  point : ∀ RTT RTThat, P (.pointErr RTT RTThat)
  half : ∀ i, P (.halfWindow i)
  slide : ∀ i r, P (.slide i r)
  diffs : DiffOk P F n
  zero : ∀ later, P (.diff later 0)

section Step

variable {P : Event D → Prop} {F : Nat → BidirStamp D} {n : Nat} {s : AlgoState D}
  {mp : Metaparam D}

omit [Arith D] in
/-- The stamp counter as an unsigned index. -/
theorem At.si (h : At F n s) : s.si = n := by
  have := h.idx
  unfold AlgoState.si
  omega

omit [Arith D] in
/-- Nothing is asked of the events. -/
theorem accepts_any (F : Nat → BidirStamp D) (n : Nat) : Accepts (fun _ => True) F n :=
  ⟨fun _ _ _ _ => True.intro, fun _ _ => True.intro, fun _ => True.intro,
    fun _ _ => True.intro, ⟨fun _ _ _ _ => True.intro, fun _ _ _ _ => True.intro⟩,
    fun _ => True.intro⟩

/-- A difference of the current stamp with a recorded one is accepted. -/
theorem Accepts.recorded (hP : Accepts P F n) {st : BidirStamp D} (h : Recorded F (n + 1) st) :
    P (.diff (F n).Ta st.Ta) ∧ P (.diff (F n).Tf st.Tf) := by
  rcases h with rfl | ⟨k, hk, rfl⟩
  · exact ⟨hP.zero _, hP.zero _⟩
  · have hkn : k ≤ n := Nat.le_of_lt_succ hk
    exact ⟨hP.diffs.Ta k n hkn (Nat.le_refl n), hP.diffs.Tf k n hkn (Nat.le_refl n)⟩

omit [Arith D] in
/-- The difference from the stamp before this one is accepted. -/
theorem Accepts.last (hP : Accepts P F n) (h : At F n s) : P (.diff (F n).Tf s.stamp.Tf) := by
  rw [h.last]
  exact hP.diffs.Tf _ _ (by omega) (Nat.le_refl n)

omit [Arith D] in
/-- The difference from the last update of the offset is accepted, since an earlier stamp made
it. -/
theorem Accepts.theta (hP : Accepts P F n) {k : Nat} (h : Core F k (n + 1) s) :
    P (.diff (F n).Tf s.off.thetastamp.Tf) := by
  obtain ⟨j, hj, heq⟩ := h.theta
  rw [heq]
  exact hP.diffs.Tf _ _ (Nat.le_of_lt_succ hj) (Nat.le_refl n)

omit [Arith D] in
/-- The last update of the offset is the one before, or the current stamp. -/
theorem theta_step {off : Offset D} (h : ∃ j, j < n + 1 ∧ s.off.thetastamp = F j)
    (ht : off.thetastamp = s.off.thetastamp ∨ off.thetastamp = F n) :
    ∃ j, j < n + 1 ∧ off.thetastamp = F j := by
  rcases ht with ht | ht
  · rw [ht]
    exact h
  · exact ⟨n, Nat.lt_succ_self n, ht⟩

/-! ## Warmup -/

/-- The minima of the warmup are those of the stamps so far, and the two histories have one item
more. -/
theorem warmupPath_keeps (hat : At F n s) (h : Warm F (n + 1) (n + 1) n s) :
    ∀ s', s' = processOWDAsymWarmup (F n) (processRTTWarmup (F n).RTT s) →
      At F n s' ∧ s'.win = s.win ∧ Warm F (n + 1) (n + 1) n s' := by
  intro s' hs'
  obtain ⟨i, owd, Df, Db, hi, heq⟩ := warmupPath_frame (F n) (F n).RTT s
  rw [heq] at hs'
  subst hs'
  refine ⟨⟨hat.pos, hat.idx, hat.last⟩, rfl,
    ⟨⟨h.stamps, h.rtts, h.theta⟩, h.win, h.ends, ?_, h.noHats, h.fresh⟩⟩
  have hsi := hat.si
  have hp := h.pstampI
  show i < n + 1
  omega

/-- `process_phat_warmup` looks up stamps that are held, and keeps the invariant of the warmup. -/
theorem processPhatWarmup_keeps (hP : Accepts P F n) (hat : At F n s)
    (h : Warm F (n + 1) (n + 1) n s) :
    Sat P True (processPhatWarmup (F n).RTT s) (fun s' =>
      At F n s' ∧ s'.win = s.win ∧ Warm F (n + 1) (n + 1) (n + 1) s') := by
  refine ((processPhatWarmup_sat hat.pos hat.si h.stamps h.rtts h.ends
    (okFrom_lax hP.find _ _ _) (okFrom_lax hP.find _ _ _) hP.diffs).and_returns
    (processPhatWarmup_frame _ _)).mono ?_
  rintro s1 ⟨hends, ends, K, phat, perr, rfl⟩
  exact ⟨⟨hat.pos, hat.idx, hat.last⟩, rfl,
    ⟨⟨h.stamps, h.rtts, h.theta⟩, h.win, hends, h.pstampI, h.noHats, h.fresh⟩⟩

/-- `process_thetahat_warmup` adds the naive offset that was missing. -/
theorem processThetahatWarmup_keeps (hP : Accepts P F n) (hat : At F n s)
    (h : Warm F (n + 1) (n + 1) (n + 1) s) :
    Sat P True (processThetahatWarmup mp (F n) s) (fun s' =>
      At F n s' ∧ s'.win = s.win ∧ Warm F (n + 1) (n + 1) (n + 1) s') := by
  refine ((processThetahatWarmup_sat hat.si hat.pos rfl h.stamps h.rtts
    (okFrom_lax hP.find _ _ _) (okFrom_lax hP.find _ _ _) (okFrom_lax hP.find _ _ _)
    (fun _ k => okFrom_lax hP.find _ 0 (k + 1) k (Nat.zero_le k) (Nat.lt_succ_self k)) hP.diffs
    (hP.last hat)).and_returns (processThetahatWarmup_frame _ _ _)).mono ?_
  rintro s1 ⟨-, t, off, err, stt, out, rfl, hts⟩
  exact ⟨⟨hat.pos, hat.idx, hat.last⟩, rfl, ⟨⟨h.stamps, h.rtts, theta_step h.theta hts⟩,
    h.win, h.ends, h.pstampI, h.noHats, h.fresh⟩⟩

/-- The algorithms of the warmup together. -/
theorem warmupAlgos_keeps (hP : Accepts P F n) (hat : At F n s) (h : Warm F (n + 1) (n + 1) n s) :
    Sat P True (warmupAlgos mp (F n) s) (fun s' =>
      At F n s' ∧ s'.win = s.win ∧ Warm F (n + 1) (n + 1) (n + 1) s') := by
  obtain ⟨hat0, hw0, h0⟩ := warmupPath_keeps hat h _ rfl
  refine Sat.bind (processPhatWarmup_keeps hP hat0 h0) ?_
  rintro s1 ⟨hat1, hw1, h1⟩
  have hat1' : At F n (copyPhat s1) := ⟨hat1.pos, hat1.idx, hat1.last⟩
  have h1' : Warm F (n + 1) (n + 1) (n + 1) (copyPhat s1) :=
    ⟨⟨h1.stamps, h1.rtts, h1.theta⟩, h1.win, h1.ends, h1.pstampI, h1.noHats, h1.fresh⟩
  refine Sat.bind (processThetahatWarmup_keeps hP hat1' h1') ?_
  rintro s2 ⟨hat2, hw2, h2⟩
  obtain ⟨out, stt, hfin⟩ := finishWarmup_frame mp s2
  refine Sat.pure ?_
  rw [hfin]
  exact ⟨⟨hat2.pos, hat2.idx, hat2.last⟩, hw2.trans (hw1.trans hw0),
    ⟨⟨h2.stamps, h2.rtts, h2.theta⟩, h2.win, h2.ends, h2.pstampI, h2.noHats, h2.fresh⟩⟩

/-! ## End of warmup -/

/-- What is left to do at the end of warmup: `pstamp` and the local period. -/
structure Ending (F : Nat → BidirStamp D) (n : Nat) (s : AlgoState D) : Prop
    extends Core F (n + 1) (n + 1) s where
  win : WinOk s.win
  reach : plocalReach s.win.plocalWin ≤ n
  near : s.ends.nearI ≤ n
  far : s.ends.farI ≤ n
  pstampI : s.past.pstampI ≤ n
  hats : ∃ hats, Holds hats (n + 1) s.hist.RTThat
  fresh : s.past.nextPstamp = 0

/-- The start of the shift windows fills the minima of the past and leaves the ends to
`initPlocalFull`. -/
theorem initRTTOWDAsymFull_keeps (hP : Accepts P F n) (hat : At F n s)
    (h : Warm F (n + 1) (n + 1) (n + 1) s) (hW : s.win.warmupWin = n + 1) (e : Nat) :
    Sat P True (initRTTOWDAsymFull { s with win := { s.win with historyEnd := e } }) (fun s' =>
      At F n s' ∧ s'.win.warmupWin = n + 1 ∧ Ending F n s') := by
  refine Sat.of_returns (initRTTOWDAsymFull_emits hP.find _)
    ((initRTTOWDAsymFull_frame _).mono ?_)
  rintro s1 ⟨r, f, b, rfl⟩
  have hwidth := h.ends.width
  have hfar := h.ends.far.right
  have hnear := h.ends.near.right
  have hreach := h.win.reach_lt
  obtain ⟨g, hg⟩ := h.noHats
  refine ⟨⟨hat.pos, hat.idx, hat.last⟩, hW, ⟨⟨h.stamps, h.rtts, h.theta⟩,
    ⟨h.win.offset, h.win.plocal, h.win.shift⟩, ?_, ?_, ?_, ?_, ?_, h.fresh⟩⟩
  · show plocalReach s.win.plocalWin ≤ n
    omega
  · show s.ends.nearI ≤ n
    omega
  · show s.ends.farI ≤ n
    omega
  · exact Nat.le_of_lt_succ h.pstampI
  · -- some series fits, since the minima of the past are filled with the minimum of the warmup
    refine ⟨fun _ => s.rtt.RTThat, ?_⟩
    show Holds _ (n + 1) (fillHistory s.rtt.RTThat 0 (s.si + 1) s.hist.RTThat)
    rw [hat.si]
    have hfill := holds_fill s.rtt.RTThat (n + 1) 0 _ (hg.of_empty)
    rw [Nat.zero_add] at hfill
    exact hfill

/-- The first `pstamp` of the full phase is a stamp of the run. -/
theorem initPhatFull_keeps (hP : Accepts P F n) (hat : At F n s) (h : Ending F n s) :
    Sat P True (initPhatFull s) (fun s' => At F n s' ∧ s'.win = s.win ∧ Ending F n s' ∧
      Recorded F (n + 1) s'.past.pstamp) := by
  refine ((initPhatFull_sat h.stamps h.rtts (okFrom_lax hP.find _ _ _)
    (okFrom_lax hP.find _ _ _) h.pstampI h.near h.far).and_returns (initPhatFull_frame s)).mono ?_
  rintro s1 ⟨hp, st, perr, rfl⟩
  exact ⟨⟨hat.pos, hat.idx, hat.last⟩, rfl, ⟨⟨h.stamps, h.rtts, h.theta⟩, h.win, h.reach, h.near,
    h.far, h.pstampI, h.hats, h.fresh⟩, Or.inr ⟨_, Nat.lt_succ_of_le h.pstampI, hp⟩⟩

/-- With the start of plocal the invariant of the full phase holds. -/
theorem initPlocalFull_keeps (hP : Accepts P F n) (hat : At F n s) (h : Ending F n s)
    (hp : Recorded F (n + 1) s.past.pstamp) :
    Sat P True (initPlocalFull s) (fun s' => At F n s' ∧ s'.win.warmupWin = s.win.warmupWin ∧
      Full F (n + 1) (n + 1) (n + 1) (n + 1) s') := by
  refine ((initPlocalFull_sat hat.si h.win.ten_le_plocal h.reach h.rtts
    (okFrom_lax hP.find _ _ _)).and_returns (initPlocalFull_frame s)).mono ?_
  rintro s1 ⟨hends, e, ends, ploc, rfl⟩
  exact ⟨⟨hat.pos, hat.idx, hat.last⟩, rfl, ⟨⟨h.stamps, h.rtts, h.theta⟩,
    ⟨h.win.offset, h.win.plocal, h.win.shift⟩, Nat.le_succ_of_le h.reach, hends, hp,
    Or.inl h.fresh, h.hats⟩⟩

/-- The start of the full phase, at the last stamp of the warmup. -/
theorem initFull_keeps (hP : Accepts P F n) (hat : At F n s)
    (h : Warm F (n + 1) (n + 1) (n + 1) s) (hW : s.win.warmupWin = n + 1) :
    Sat P True (initFull (F n) s) (fun s' => At F n s' ∧
      Full F (n + 1) (n + 1) (n + 1) (n + 1) s' ∧ s'.win.warmupWin ≤ n + 1) := by
  refine Sat.bind (initRTTOWDAsymFull_keeps hP hat h hW _) ?_
  rintro s1 ⟨hat1, hw1, h1⟩
  refine Sat.bind (initPhatFull_keeps hP hat1 h1) ?_
  rintro s2 ⟨hat2, hw2, h2, hp2⟩
  refine Sat.bind (initPlocalFull_keeps hP hat2 h2 hp2) ?_
  rintro s3 ⟨hat3, hw3, h3⟩
  refine Sat.pure ⟨⟨hat3.pos, hat3.idx, hat3.last⟩,
    ⟨⟨h3.stamps, h3.rtts, ⟨n, Nat.lt_succ_self n, rfl⟩⟩, h3.win, h3.reach, h3.ends, h3.pstamp,
      h3.next, h3.hats⟩, ?_⟩
  show s3.win.warmupWin ≤ n + 1
  exact Nat.le_of_eq (by rw [hw3, hw2, hw1])

/-- A call of the warmup phase stays in it, or reaches the full phase. -/
theorem warmupPhase_keeps (hP : Accepts P F n) (hat : At F n s) (h : Warm F (n + 1) (n + 1) n s)
    (hW : n < s.win.warmupWin) :
    Sat P True (warmupPhase mp (F n) s) (fun s' => At F n s' ∧
      (Warm F (n + 1) (n + 1) (n + 1) s' ∧ n + 1 < s'.win.warmupWin ∨
        Full F (n + 1) (n + 1) (n + 1) (n + 1) s' ∧ s'.win.warmupWin ≤ n + 1)) := by
  refine Sat.bind (warmupAlgos_keeps hP hat h) ?_
  rintro s1 ⟨hat1, hw1, h1⟩
  have hlt : n < s1.win.warmupWin := hw1 ▸ hW
  have hpred : wsub s1.win.warmupWin 1 = s1.win.warmupWin - 1 := wsub_of_le (by omega)
  refine Sat.ite (fun hlast => ?_) fun hmore => ?_
  · rw [hat1.si, hpred] at hlast
    exact (initFull_keeps hP hat1 h1 (by omega)).mono fun s2 h2 => ⟨h2.1, Or.inr h2.2⟩
  · rw [hat1.si, hpred] at hmore
    exact Sat.pure ⟨hat1, Or.inl ⟨h1, by omega⟩⟩

/-! ## Full phase -/

/-- The history window touches nothing that the invariant speaks about but stamps of the run. -/
theorem manageHistorywin_keeps (hP : Accepts P F n) (hat : At F n s)
    (h : Full F (n + 1) (n + 1) n n s) (RTT : VCounter) :
    Sat P True (manageHistorywin (F n) RTT s) (fun s' => At F n s' ∧
      s'.win.warmupWin = s.win.warmupWin ∧ Full F (n + 1) (n + 1) n n s') := by
  have hnow : Recorded F (n + 1) (F n) := Or.inr ⟨n, Nat.lt_succ_self n, rfl⟩
  refine ((manageHistorywin_sat hat.pos hat.si
    (okFrom_lax hP.find _ 0 n _ (Nat.zero_le _) (by have := hat.pos; omega))
    (okFrom_lax hP.find _ 0 n _ (Nat.zero_le _) (by have := hat.pos; omega)) (hP.half n)
    (hP.slide n)).and_returns (manageHistorywin_cases _ _ _)).mono ?_
  rintro s' ⟨-, s1, hs1, hcase⟩
  have h1 : At F n s1 ∧ s1.win.warmupWin = s.win.warmupWin ∧ Full F (n + 1) (n + 1) n n s1 := by
    by_cases hhalf : s.si = s.win.hWin / 2
    · rw [if_pos hhalf] at hs1
      subst hs1
      exact ⟨⟨hat.pos, hat.idx, hat.last⟩, rfl, ⟨⟨h.stamps, h.rtts, h.theta⟩,
        ⟨h.win.offset, h.win.plocal, h.win.shift⟩, h.reach, h.ends, h.pstamp, hnow, h.hats⟩⟩
    · rw [if_neg hhalf] at hs1
      subst hs1
      exact ⟨hat, rfl, h⟩
  obtain ⟨hat1, hw1, h1⟩ := h1
  rcases hcase with ⟨-, Df, Db, rfl⟩ | ⟨-, rfl⟩
  · exact ⟨⟨hat1.pos, hat1.idx, hat1.last⟩, hw1, ⟨⟨h1.stamps, h1.rtts, h1.theta⟩,
      ⟨h1.win.offset, h1.win.plocal, h1.win.shift⟩, h1.reach, h1.ends, h1.next, hnow, h1.hats⟩⟩
  · exact ⟨hat1, hw1, h1⟩

omit [Arith D] in
/-- With `jmin = 0` the correction loop never returns. -/
theorem rewriteBack_zero (v : VCounter) : ∀ (j : Nat) (h : History VCounter),
    Returns (rewriteBack v 0 j h : Algo D _) (fun _ => False) := by
  intro j
  induction j with
  | zero =>
    intro h
    refine Returns.ite (fun _ => ?_) fun hz => absurd rfl hz
    exact Returns.skip fun _ => Returns.skip fun _ _ hr => (nomatch hr)
  | succ j ih =>
    intro h
    exact Returns.ite (fun hlt => absurd hlt (by omega)) fun _ => Returns.skip fun h' => ih h'

omit [Arith D] in
/-- The correction loop keeps the RTThat history a history. -/
theorem rewriteBack_returns (v : VCounter) (jmin : Nat) {h : History VCounter}
    {hats : Nat → VCounter} (hh : Holds hats (n + 1) h) {j : Nat} (hj : j ≤ n) :
    Returns (rewriteBack v jmin j h : Algo D _) (fun h' => ∃ hats', Holds hats' (n + 1) h') := by
  rcases Nat.eq_zero_or_pos jmin with rfl | hpos
  · exact (rewriteBack_zero v j h).mono fun _ hf => hf.elim
  · refine ((rewriteBack_sat (D := D) (P := fun _ => True) hpos j h hats hj hh
      (okFrom_lax (fun _ _ _ _ => True.intro) _ _ _)).returns).mono fun h' hh' => ⟨_, hh'.2⟩

/-- `process_RTT_full` adds the minimum of this stamp to the minima of the past. -/
theorem processRTTFull_keeps (hP : Accepts P F n) (hat : At F n s)
    (h : Full F (n + 1) (n + 1) n n s) (RTT : VCounter) :
    Sat P True (processRTTFull RTT s) (fun s' => At F n s' ∧
      s'.win.warmupWin = s.win.warmupWin ∧ Full F (n + 1) (n + 1) n (n + 1) s') := by
  -- what an upshift writes into the minima of the past does not matter, only that they are held
  have hhats : Returns (processRTTFull RTT s) fun s' =>
      ∃ hats, Holds hats (n + 1) s'.hist.RTThat := by
    obtain ⟨hats, hh⟩ := h.hats
    refine Returns.bind (updateRTTShift_frame _ _) ?_
    rintro s1 ⟨v, e, rfl⟩
    have hadd : Holds (addHat hats n (min s.rtt.RTThat RTT)) (n + 1)
        (updateRTTMinima RTT s).hist.RTThat := by
      show Holds _ _ (historyAdd s.hist.RTThat s.si _)
      rw [hat.si]
      exact hh.addHat _
    refine Returns.ite (fun _ => ?_) fun _ => Returns.pure ⟨_, hadd⟩
    dsimp only
    obtain ⟨perr, nhat, heq⟩ := recalcNextPstamp_frame (adoptShift
      { updateRTTMinima RTT s with
        rtt := { (updateRTTMinima RTT s).rtt with RTThatShift := v }
        win := { (updateRTTMinima RTT s).win with shiftEnd := e } })
    rw [heq]
    refine Returns.bind (rewriteBack_returns _ _ hadd (Nat.le_of_eq hat.si)) ?_
    rintro h' ⟨hats', hh'⟩
    exact Returns.pure ⟨hats', hh'⟩
  refine Sat.of_returns (processRTTFull_emits hP.find _ _)
    ((hhats.and (processRTTFull_frame _ _)).mono ?_)
  rintro s' ⟨hh, rtt, e, perr, nhat, h', stt, rfl⟩
  exact ⟨⟨hat.pos, hat.idx, hat.last⟩, rfl, ⟨⟨h.stamps, h.rtts, h.theta⟩,
    ⟨h.win.offset, h.win.plocal, h.win.shift⟩, h.reach, h.ends, h.pstamp, h.next, hh⟩⟩

/-- `process_OWDAsym_full` keeps the invariant, and completes the one-way histories. -/
theorem processOWDAsymFull_keeps (hP : Accepts P F n) (hat : At F n s) {e m : Nat}
    (h : Full F (n + 1) (n + 1) e m s) (st : BidirStamp D) :
    Sat P True (processOWDAsymFull st s) (fun s' => At F n s' ∧
      s'.win.warmupWin = s.win.warmupWin ∧ Full F (n + 1) (n + 1) e m s') := by
  refine Sat.of_returns (processOWDAsymFull_emits hP.find _ _)
    ((processOWDAsymFull_frame _ _).mono ?_)
  rintro s' ⟨owd, en, Dfhat, Dbhat, Asymhat, rfl⟩
  exact ⟨⟨hat.pos, hat.idx, hat.last⟩, rfl, ⟨⟨h.stamps, h.rtts, h.theta⟩,
    ⟨h.win.offset, h.win.plocal, h.win.shift⟩, h.reach, h.ends, h.pstamp, h.next, h.hats⟩⟩

/-- A candidate for the next `pstamp` is a stamp of the run. -/
theorem updateNextPstamp_keeps (hP : Accepts P F n) (hat : At F n s) {e m : Nat}
    (h : Full F (n + 1) (n + 1) e m s) (RTT : VCounter) :
    Sat P True (updateNextPstamp (F n) RTT s) (fun s' => At F n s' ∧
      s'.win.warmupWin = s.win.warmupWin ∧ Full F (n + 1) (n + 1) e m s') := by
  refine Sat.of_returns (updateNextPstamp_emits hP.point _ _ _)
    ((updateNextPstamp_cases _ _ _).mono ?_)
  rintro s' ⟨c, rfl | ⟨-, -, perr, nhat, rfl⟩⟩
  · exact ⟨⟨hat.pos, hat.idx, hat.last⟩, rfl, ⟨⟨h.stamps, h.rtts, h.theta⟩, h.win, h.reach,
      h.ends, h.pstamp, h.next, h.hats⟩⟩
  · exact ⟨⟨hat.pos, hat.idx, hat.last⟩, rfl, ⟨⟨h.stamps, h.rtts, h.theta⟩, h.win, h.reach,
      h.ends, h.pstamp, Or.inr ⟨n, Nat.lt_succ_self n, rfl⟩, h.hats⟩⟩

/-- `process_phat_full` takes differences of stamps of the run. -/
theorem processPhatFull_keeps (hP : Accepts P F n) (hat : At F n s) {e m : Nat}
    (h : Full F (n + 1) (n + 1) e m s) (RTT : VCounter) (q : Bool) :
    Sat P True (processPhatFull (F n) RTT q s) (fun s' => At F n s' ∧
      s'.win.warmupWin = s.win.warmupWin ∧ Full F (n + 1) (n + 1) e m s') := by
  have hrec := hP.recorded h.pstamp
  refine ((processPhatFull_sat (hP.point _ _) hrec.1 hrec.2).and_returns
    (processPhatFull_frame _ _ _ _)).mono ?_
  rintro s' ⟨-, K, phat, perr, c, stt, rfl⟩
  exact ⟨⟨hat.pos, hat.idx, hat.last⟩, rfl, ⟨⟨h.stamps, h.rtts, h.theta⟩, h.win, h.reach,
    h.ends, h.pstamp, h.next, h.hats⟩⟩

/-- `process_plocal_full` moves its ends by one stamp. -/
theorem processPlocalFull_keeps (hP : Accepts P F n) (hat : At F n s) {m : Nat}
    (h : Full F (n + 1) (n + 1) n m s) (q : Bool) :
    Sat P True (processPlocalFull q s) (fun s' => At F n s' ∧
      s'.win.warmupWin = s.win.warmupWin ∧ Full F (n + 1) (n + 1) (n + 1) m s') := by
  refine ((processPlocalFull_sat hat.si h.win.ten_le_plocal h.reach h.ends h.stamps h.rtts
    (okFrom_lax hP.find _ _ _) (okFrom_lax hP.find _ _ _) hP.diffs).and_returns
    (processPlocalFull_frame _ _)).mono ?_
  rintro s' ⟨hends, en, ends, ploc, out, stt, rfl⟩
  exact ⟨⟨hat.pos, hat.idx, hat.last⟩, rfl, ⟨⟨h.stamps, h.rtts, h.theta⟩,
    ⟨h.win.offset, h.win.plocal, h.win.shift⟩, Nat.le_succ_of_le h.reach, hends, h.pstamp, h.next,
    h.hats⟩⟩

/-- `process_thetahat_full` adds the naive offset that was missing. -/
theorem processThetahatFull_keeps (hP : Accepts P F n) (hat : At F n s) {e : Nat}
    (h : Full F (n + 1) (n + 1) e (n + 1) s) (q : Bool) (E : D) :
    Sat P True (processThetahatFull mp (F n) q E s) (fun s' => At F n s' ∧
      s'.win.warmupWin = s.win.warmupWin ∧ Full F (n + 1) (n + 1) e (n + 1) s') := by
  obtain ⟨hats, hh⟩ := h.hats
  refine ((processThetahatFull_sat hat.si hat.pos rfl h.stamps h.rtts hh
    (okFrom_lax hP.find _ _ _) (okFrom_lax hP.find _ _ _) (okFrom_lax hP.find _ _ _)
    (okFrom_lax hP.find _ _ _)
    (fun _ k => okFrom_lax hP.find _ 0 (k + 1) k (Nat.zero_le k) (Nat.lt_succ_self k)) hP.diffs
    (hP.last hat) (hP.theta h.toCore) (fun _ _ _ => hP.point _ _)
    (fun _ _ _ => hP.point _ _)).and_returns (processThetahatFull_frame _ _ _ _ _)).mono ?_
  rintro s' ⟨-, t, off, err, stt, out, rfl, hts⟩
  exact ⟨⟨hat.pos, hat.idx, hat.last⟩, rfl, ⟨⟨h.stamps, h.rtts, theta_step h.theta hts⟩, h.win,
    h.reach, h.ends, h.pstamp, h.next, ⟨hats, hh⟩⟩⟩

/-- A call of the full phase keeps its invariant, with one stamp more. -/
theorem fullPhase_keeps (hP : Accepts P F n) (hat : At F n s) (h : Full F (n + 1) (n + 1) n n s)
    (inp : Input D) (hinp : inp.stamp = F n) :
    Sat P True (fullPhase mp inp s) (fun s' => At F n s' ∧
      s'.win.warmupWin = s.win.warmupWin ∧ Full F (n + 1) (n + 1) (n + 1) (n + 1) s') := by
  unfold fullPhase
  rw [hinp]
  refine Sat.bind (manageHistorywin_keeps hP hat h _) ?_
  rintro s1 ⟨hat1, hw1, h1⟩
  refine Sat.bind (processRTTFull_keeps hP hat1 h1 _) ?_
  rintro s2 ⟨hat2, hw2, h2⟩
  refine Sat.bind (processOWDAsymFull_keeps hP hat2 h2 _) ?_
  rintro s3 ⟨hat3, hw3, h3⟩
  refine Sat.bind (updateNextPstamp_keeps hP hat3 h3 _) ?_
  rintro s4 ⟨hat4, hw4, h4⟩
  refine Sat.bind (processPhatFull_keeps hP hat4 h4 _ _) ?_
  rintro s5 ⟨hat5, hw5, h5⟩
  -- from here on the ends are those of the next stamp
  refine Sat.bind (processPlocalFull_keeps hP hat5 h5 _) ?_
  rintro s6 ⟨hat6, hw6, h6⟩
  refine Sat.bind (processThetahatFull_keeps hP hat6 h6 _ _) ?_
  rintro s7 ⟨hat7, hw7, h7⟩
  refine ((updatePathpenaltyFull_sat (hP.last hat7)).and_returns
    (updatePathpenaltyFull_frame _ _ _)).mono ?_
  rintro s8 ⟨-, pen, out, rfl⟩
  refine ⟨⟨hat7.pos, hat7.idx, hat7.last⟩, ?_, ⟨⟨h7.stamps, h7.rtts, h7.theta⟩, h7.win, h7.reach,
    h7.ends, h7.pstamp, h7.next, h7.hats⟩⟩
  show s7.win.warmupWin = s.win.warmupWin
  rw [hw7, hw6, hw5, hw4, hw3, hw2, hw1]

/-! ## One call -/

/-- Resizing keeps what is recorded about the stamps. -/
theorem Core.resize {k : Nat} (h : Core F k n s) : Core F k n (resizeAll s) where
  stamps := h.stamps.resize _
  rtts := h.rtts.resize _
  theta := h.theta

/-- A change of the parameters during warmup keeps the invariant of the warmup. -/
theorem reactToUpdate_warm (hP : Accepts P F n) (conf : Config D) (hat : At F n s)
    (h : Warm F n n n s) (hW : n < s.win.warmupWin) :
    Sat P True (reactToUpdate conf s) (fun s' => At F n s' ∧ Warm F n n n s' ∧
      n < s'.win.warmupWin) := by
  have hsi := hat.si
  have hn := hat.pos
  refine Sat.of_returns (reactToUpdate_emits hP.find _ _)
    (Returns.ite (fun _ => ?_) fun _ => Returns.pure ⟨hat, h, hW⟩)
  refine (updateState_cases _ _ _).mono ?_
  rintro s' ⟨poll, -, ⟨-, rfl⟩ | ⟨hge, -⟩⟩
  · obtain ⟨hats, hh⟩ := h.noHats
    refine ⟨⟨hn, hat.idx, hat.last⟩, ⟨Core.resize ⟨h.stamps, h.rtts, h.theta⟩, ?_, h.ends,
      h.pstampI, ⟨hats, hh.resize _⟩, h.fresh⟩, ?_⟩
    · exact warmWindows_ok conf.minPoll (newWindows_ok _ _ _) fun h0 => absurd h0 (by omega)
    · have := lt_adjustedWarmup (show s.si ≠ 0 by omega) conf.minPoll
        (newWindows_ok conf.metaparam conf.pollPeriod s.win)
      show n < adjustedWarmup s.si conf.pollPeriod _
      omega
  · omega

/-- In the full phase it does unless the window of plocal changes. -/
theorem reactToUpdate_full (hP : Accepts P F n) (conf : Config D) (hat : At F n s)
    (h : Full F n n n n s) (hW : s.win.warmupWin ≤ n)
    (hkeep : conf.algoUpdate = true →
      basePlocalWin conf.metaparam conf.pollPeriod = s.win.plocalWin) :
    Sat P True (reactToUpdate conf s) (fun s' => At F n s' ∧ Full F n n n n s' ∧
      s'.win.warmupWin ≤ n) := by
  have hsi := hat.si
  refine Sat.of_returns (reactToUpdate_emits hP.find _ _)
    (Returns.ite (fun hupd => ?_) fun _ => Returns.pure ⟨hat, h, hW⟩)
  have hpw := hkeep hupd
  refine (updateState_cases _ _ _).mono ?_
  rintro s' ⟨poll, -, ⟨hlt, -⟩ | ⟨-, v, e, rfl⟩⟩
  · omega
  · obtain ⟨hats, hh⟩ := h.hats
    have hok := newWindows_ok conf.metaparam conf.pollPeriod s.win
    refine ⟨⟨hat.pos, hat.idx, hat.last⟩, ⟨Core.resize ⟨h.stamps, h.rtts, h.theta⟩,
      ⟨hok.offset, hok.plocal, hok.shift⟩, ?_, ?_, h.pstamp, h.next, ⟨hats, hh.resize _⟩⟩, hW⟩
    · show plocalReach (basePlocalWin conf.metaparam conf.pollPeriod) ≤ n
      rw [hpw]
      exact h.reach
    · show s.ploc.plocalProblem = false →
        FullEnds n (basePlocalWin conf.metaparam conf.pollPeriod) s.ends
      rw [hpw]
      exact h.ends

omit [Arith D] in
/-- A stamp that is recorded extends the series of the run. -/
theorem Core.record (hat : At F n s) (h : Core F n n s) :
    Core F (n + 1) (n + 1) (recordStamp (F n) s) where
  stamps := by
    show Holds F (n + 1) (historyAdd s.hist.stamp s.si (F n))
    rw [hat.si]
    exact h.stamps.add rfl
  rtts := by
    show Holds (rttOf F) (n + 1) (historyAdd s.hist.RTT s.si (F n).RTT)
    rw [hat.si]
    exact h.rtts.add rfl
  theta := h.theta.imp fun _ hj => ⟨Nat.lt_succ_of_lt hj.1, hj.2⟩

omit [Arith D] in
/-- A stamp of the run so far is one later on. -/
theorem Recorded.mono [Zero D] {m : Nat} {st : BidirStamp D} (h : Recorded F n st) (hnm : n ≤ m) :
    Recorded F m st :=
  h.imp_right fun ⟨k, hk, he⟩ => ⟨k, Nat.lt_of_lt_of_le hk hnm, he⟩

/-- The phase of stamp `n > 0`. -/
theorem phases_keeps (hP : Accepts P F n) (conf : Config D) (inp : Input D)
    (hinp : inp.stamp = F n) (hat : At F n s)
    (h : Warm F n n n s ∧ n < s.win.warmupWin ∨ Full F n n n n s ∧ s.win.warmupWin ≤ n) :
    Sat P True (phases conf inp (recordStamp inp.stamp s)) (fun s' => At F n s' ∧
      (Warm F (n + 1) (n + 1) (n + 1) s' ∧ n + 1 < s'.win.warmupWin ∨
        Full F (n + 1) (n + 1) (n + 1) (n + 1) s' ∧ s'.win.warmupWin ≤ n + 1)) := by
  have hn := hat.pos
  have hat' : At F n (recordStamp (F n) s) := ⟨hn, hat.idx, hat.last⟩
  rw [hinp]
  unfold phases
  refine Sat.ite (fun hz => absurd (hat'.idx.symm.trans hz) (by omega)) fun _ => ?_
  rw [hat'.si, hinp]
  rcases h with ⟨h, hW⟩ | ⟨h, hW⟩
  · refine Sat.ite (fun _ => ?_) fun hge => absurd hW hge
    exact warmupPhase_keeps hP hat' ⟨h.toCore.record hat, h.win, h.ends,
      Nat.lt_succ_of_lt h.pstampI, h.noHats, h.fresh⟩ hW
  · refine Sat.ite (fun hlt => absurd hlt (Nat.not_lt.mpr hW)) fun _ => ?_
    refine (fullPhase_keeps hP hat' ⟨h.toCore.record hat, h.win, h.reach, h.ends,
      h.pstamp.mono (Nat.le_succ n), h.next.mono (Nat.le_succ n), h.hats⟩ inp hinp).mono ?_
    rintro s' ⟨hat2, hw2, h2⟩
    refine ⟨hat2, Or.inr ⟨h2, ?_⟩⟩
    rw [hw2]
    exact Nat.le_succ_of_le hW

/-- The last statements of a call. -/
theorem finish_keeps (hP : Accepts P F n) (hidx : s.stampI = n)
    (h : Warm F (n + 1) (n + 1) (n + 1) s ∧ n + 1 < s.win.warmupWin ∨
      Full F (n + 1) (n + 1) (n + 1) (n + 1) s ∧ s.win.warmupWin ≤ n + 1) :
    Sat P True (do
      let s ← updateErrors mp (F n) (copyStamp (F n) s)
      pure (fillOutput (F n).RTT s)) (Inv F (n + 1)) := by
  have htheta := hP.theta (h.elim (·.1.toCore) (·.1.toCore) : Core F (n + 1) (n + 1) s)
  obtain ⟨stats, hcopy⟩ := copyStamp_frame (F n) s
  rw [hcopy]
  refine Sat.bind ((updateErrors_sat (s := { s with stamp := F n, stats := stats })
    fun _ => htheta).and_returns (updateErrors_frame _ _ _)) ?_
  rintro s1 ⟨-, err, rfl⟩
  refine Sat.pure ⟨Nat.succ_pos n, ?_, rfl, ?_⟩
  · show s.stampI = _
    rw [hidx]
    omega
  · rcases h with ⟨h, hW⟩ | ⟨h, hW⟩
    · exact Or.inl ⟨⟨⟨h.stamps, h.rtts, h.theta⟩, h.win, h.ends, h.pstampI, h.noHats, h.fresh⟩, hW⟩
    · exact Or.inr ⟨⟨⟨h.stamps, h.rtts, h.theta⟩, h.win, h.reach, h.ends, h.pstamp, h.next,
        h.hats⟩, hW⟩

/-- One call keeps the invariant. -/
theorem inv_step (hP : Accepts P F n) (conf : Config D) (inp : Input D) (hinp : inp.stamp = F n)
    (h : Inv F n s) (hkeep : KeepsPlocal conf s) :
    Sat P True (RADalgoBidir conf inp s) (Inv F (n + 1)) := by
  have hn := h.pos
  have hidx : s.stampI + 1 = n := by
    have := h.idx
    omega
  have hnext : nextStamp conf s = { s with stampI := s.stampI + 1 } :=
    nextStamp_later conf (by omega)
  have hat : At F n { s with stampI := s.stampI + 1 } := ⟨hn, hidx, h.last⟩
  unfold RADalgoBidir
  rw [hnext]
  -- the update comes first, and may move the end of the warmup
  refine Sat.bind (Q := fun s' => At F n s' ∧ (Warm F n n n s' ∧ n < s'.win.warmupWin ∨
    Full F n n n n s' ∧ s'.win.warmupWin ≤ n)) ?_ ?_
  · -- the two phases, each with its own invariant
    rcases h.phase with ⟨hw, hW⟩ | ⟨hf, hW⟩
    · exact (reactToUpdate_warm hP conf hat ⟨⟨hw.stamps, hw.rtts, hw.theta⟩, hw.win, hw.ends,
        hw.pstampI, hw.noHats, hw.fresh⟩ hW).mono fun s' h' => ⟨h'.1, Or.inl h'.2⟩
    · exact (reactToUpdate_full hP conf hat ⟨⟨hf.stamps, hf.rtts, hf.theta⟩, hf.win, hf.reach,
        hf.ends, hf.pstamp, hf.next, hf.hats⟩ hW
        fun hu => hkeep hu ⟨by omega, by omega⟩).mono fun s' h' => ⟨h'.1, Or.inr h'.2⟩
  · rintro s1 ⟨hat1, h1⟩
    refine Sat.bind (phases_keeps hP conf inp hinp hat1 h1) ?_
    rintro s2 ⟨hat2, h2⟩
    rw [hinp]
    exact finish_keeps hP hat2.idx h2

/-! ## The first stamp -/

/-- Before the first stamp is recorded. -/
structure Init (F : Nat → BidirStamp D) (s : AlgoState D) : Prop where
  idx : s.stampI = 0
  stamps : Holds F 0 s.hist.stamp
  rtts : Holds (rttOf F) 0 s.hist.RTT
  win : WarmWin s.win
  ends : s.ends = ⟨0, 0, 0⟩
  pstampI : s.past.pstampI = 0
  noHats : ∃ hats, Holds hats 0 s.hist.RTThat
  fresh : s.past.nextPstamp = 0

/-- Before the first stamp nothing is recorded. -/
theorem init_firstStamp (F : Nat → BidirStamp D) (conf : Config D) :
    Init F (nextStamp conf AlgoState.zero) := by
  have hnext : nextStamp conf (AlgoState.zero : AlgoState D) =
      firstStamp conf { AlgoState.zero with stampI := 0 } := rfl
  have hok := newWindows_ok conf.metaparam conf.pollPeriod (AlgoState.zero : AlgoState D).win
  rw [hnext, firstStamp_eq]
  exact ⟨rfl, holds_init _ _ _, holds_init _ _ _,
    warmWindows_ok conf.minPoll ⟨hok.offset, hok.plocal, hok.shift⟩ (fun _ => Nat.le_refl 100),
    rfl, rfl, ⟨fun _ => 0, holds_init _ _ _⟩, rfl⟩

/-- A change of the parameters before it changes nothing of that. -/
theorem reactToUpdate_init (hP : Accepts P F 0) (conf : Config D) (h : Init F s) :
    Sat P True (reactToUpdate conf s) (Init F) := by
  have hsi : s.si = 0 := by
    have := h.idx
    unfold AlgoState.si
    omega
  have hW := h.win.hundred
  refine Sat.of_returns (reactToUpdate_emits hP.find _ _)
    (Returns.ite (fun _ => ?_) fun _ => Returns.pure h)
  refine (updateState_cases _ _ _).mono ?_
  rintro s' ⟨poll, -, ⟨-, rfl⟩ | ⟨hge, -⟩⟩
  · obtain ⟨hats, hh⟩ := h.noHats
    exact ⟨h.idx, h.stamps.resize _, h.rtts.resize _,
      warmWindows_ok conf.minPoll (newWindows_ok _ _ _) (fun _ => hW), h.ends, h.pstampI,
      ⟨hats, hh.resize _⟩, h.fresh⟩
  · omega

/-- The first call establishes the invariant. -/
theorem inv_init (hP : Accepts P F 0) (conf : Config D) (inp : Input D)
    (hinp : inp.stamp = F 0) : Sat P True (RADalgoBidir conf inp AlgoState.zero) (Inv F 1) := by
  refine Sat.bind (reactToUpdate_init hP conf (init_firstStamp F conf)) fun s h => ?_
  have hsi : s.si = 0 := by
    have := h.idx
    unfold AlgoState.si
    omega
  rw [hinp]
  -- the first stamp has a branch of its own
  have hphase : phases conf inp (recordStamp (F 0) s) =
      pure (initPhase conf inp.stamp (recordStamp (F 0) s)) := if_pos h.idx
  rw [hphase, hinp]
  refine finish_keeps (n := 0) hP h.idx (Or.inl ⟨⟨⟨?_, ?_, 0, Nat.one_pos, rfl⟩, h.win, ?_, ?_,
    h.noHats, h.fresh⟩, ?_⟩)
  · show Holds F 1 (historyAdd s.hist.stamp s.si (F 0))
    rw [hsi]
    exact h.stamps.add rfl
  · show Holds (rttOf F) 1 (historyAdd s.hist.RTT s.si (F 0).RTT)
    rw [hsi]
    exact h.rtts.add rfl
  · show WarmEnds F 1 { s.ends with wwidth := 1 }
    rw [h.ends]
    exact ⟨rfl, minAt_self _ _ 0, minAt_self _ _ 0⟩
  · show s.past.pstampI < 1
    rw [h.pstampI]
    exact Nat.one_pos
  · -- a warmup is longer than one stamp
    have := h.win.hundred
    show 0 + 1 < s.win.warmupWin
    omega

end Step

/-! ## Runs -/

section Run

variable {P : Event D → Prop} {F : Nat → BidirStamp D}

/-- The calls `cs` feed the series `F`, from index `n` on. -/
def Follows (F : Nat → BidirStamp D) (n : Nat) (cs : List (Call D)) : Prop :=
  ∀ k c, cs[k]? = some c → c.inp.stamp = F (n + k)

omit [Arith D] in
/-- The first call of the calls that follow is about the next stamp. -/
theorem Follows.head {n : Nat} {c : Call D} {cs : List (Call D)} (h : Follows F n (c :: cs)) :
    c.inp.stamp = F n := h 0 c rfl

omit [Arith D] in
/-- The calls after it follow on. -/
theorem Follows.tail {n : Nat} {c : Call D} {cs : List (Call D)} (h : Follows F n (c :: cs)) :
    Follows F (n + 1) cs := by
  intro k c' hk
  rw [show n + 1 + k = n + (k + 1) by omega]
  exact h (k + 1) c' hk

omit [Arith D] in
/-- The calls at the front follow. -/
theorem Follows.left {n : Nat} {cs cs' : List (Call D)} (h : Follows F n (cs ++ cs')) :
    Follows F n cs := by
  intro k c hk
  obtain ⟨hlt, -⟩ := List.getElem?_eq_some_iff.mp hk
  exact h k c (by rw [List.getElem?_append_left hlt, hk])

omit [Arith D] in
/-- The calls at the back follow on those at the front. -/
theorem Follows.right {n : Nat} {cs cs' : List (Call D)} (h : Follows F n (cs ++ cs')) :
    Follows F (n + cs.length) cs' := by
  intro k c hk
  rw [Nat.add_assoc]
  exact h _ c (by rw [List.getElem?_append_right (Nat.le_add_right _ _),
    Nat.add_sub_cancel_left, hk])

/-- Any calls follow their own stamps. -/
theorem follows_stampsOf (cs : List (Call D)) : Follows (stampsOf cs) 0 cs := by
  intro k c hk
  unfold stampsOf
  rw [Nat.zero_add, hk]

/-- A condition that every call of the list meets in any state. -/
theorem RunMeets.of_forall {C : Call D → AlgoState D → Prop} {cs : List (Call D)}
    (h : ∀ c ∈ cs, ∀ s, C c s) (s : AlgoState D) : RunMeets C cs s := by
  induction cs generalizing s with
  | nil => exact True.intro
  | cons c cs ih =>
    exact ⟨h c List.mem_cons_self s,
      fun s' _ => ih (fun c' hc' => h c' (List.mem_cons_of_mem c hc')) s'⟩

/-- A condition on two lists of calls, one after the other. -/
theorem RunMeets.append {C : Call D → AlgoState D → Prop} (cs cs' : List (Call D)) :
    ∀ s, RunMeets C (cs ++ cs') s → RunMeets C cs s ∧ Returns (runFrom cs s) (RunMeets C cs') := by
  induction cs with
  | nil => exact fun s h => ⟨True.intro, Returns.pure h⟩
  | cons c cs ih =>
    intro s h
    refine ⟨⟨h.1, fun s' hcall => (ih s' (h.2 s' hcall)).1⟩, fun s'' hres => ?_⟩
    obtain ⟨s', hcall, hrest⟩ := bind_res_some.mp hres
    exact (ih s' (h.2 s' hcall)).2 s'' hrest

/-- Calls after calls. -/
theorem runFrom_append (cs cs' : List (Call D)) (s : AlgoState D) :
    runFrom (cs ++ cs') s = runFrom cs s >>= runFrom cs' := by
  induction cs generalizing s with
  | nil => rfl
  | cons c cs ih =>
    show RADalgoBidir c.conf c.inp s >>= (fun s' => runFrom (cs ++ cs') s') =
      RADalgoBidir c.conf c.inp s >>= (fun s' => runFrom cs s') >>= runFrom cs'
    rw [bind_assoc]
    exact congrArg _ (funext ih)

/-- What each call makes of the next index, a list of calls makes of its length. -/
theorem runFrom_sat {H : Prop} {I : Nat → AlgoState D → Prop} (cs : List (Call D)) :
    ∀ n s, I n s →
      (∀ k c s, cs[k]? = some c → I (n + k) s →
        Sat P H (RADalgoBidir c.conf c.inp s) (I (n + k + 1))) →
      Sat P H (runFrom cs s) (I (n + cs.length)) := by
  induction cs with
  | nil => exact fun n s h _ => Sat.pure h
  | cons c cs ih =>
    intro n s h hstep
    refine Sat.bind (hstep 0 c s rfl h) fun s' h' => ?_
    have hrest := ih (n + 1) s' h' fun k c' s' hk hI => by
      have hnext := hstep (k + 1) c' s' hk
      rw [show n + (k + 1) = n + 1 + k by omega] at hnext
      exact hnext hI
    rw [show n + 1 + cs.length = n + (c :: cs).length by rw [List.length_cons]; omega] at hrest
    exact hrest

/-- Any number of calls keep the invariant, if each update keeps the window of plocal. -/
theorem inv_runFrom (cs : List (Call D)) :
    ∀ (n : Nat) (s : AlgoState D), Inv F n s → Follows F n cs →
      (∀ m, n ≤ m → m < n + cs.length → Accepts P F m) →
      RunMeets (fun c s => KeepsPlocal c.conf s) cs s →
      Sat P True (runFrom cs s) (Inv F (n + cs.length)) := by
  induction cs with
  | nil => exact fun n s h _ _ _ => Sat.pure h
  | cons c cs ih =>
    intro n s h hf hP hm
    have hlen : n + (c :: cs).length = n + 1 + cs.length := by
      rw [List.length_cons]
      omega
    rw [hlen] at hP ⊢
    refine Sat.bind ((inv_step (hP n (Nat.le_refl n) (by omega)) c.conf c.inp hf.head h
      hm.1).and_returns (fun s' => hm.2 s')) ?_
    rintro s' ⟨h', hm'⟩
    exact ih (n + 1) s' h' hf.tail (fun m h1 h2 => hP m (by omega) h2) hm'

/-- A whole run: the invariant holds at its end, and its events are accepted. -/
theorem inv_run {c : Call D} {cs : List (Call D)} (hf : Follows F 0 (c :: cs))
    (hP : ∀ m, m < cs.length + 1 → Accepts P F m)
    (hm : RunMeets (fun c s => KeepsPlocal c.conf s) (c :: cs) AlgoState.zero) :
    Sat P True (run (c :: cs)) (Inv F (cs.length + 1)) := by
  refine Sat.bind ((inv_init (hP 0 (by omega)) c.conf c.inp hf.head).and_returns
    (fun s' => hm.2 s')) ?_
  rintro s' ⟨h', hm'⟩
  have hrun := inv_runFrom cs 1 s' h' hf.tail (fun m _ h2 => hP m (by omega)) hm'
  rw [Nat.add_comm] at hrun
  exact hrun

end Run

end RADclock
