import RADclock.Sync.Transitions

/-!
# What the local period has at its disposal

`process_plocal_full` and `init_plocal_full` ask whether the first stamp of the far window is
available, and then search the end windows for their best packets. The test takes the width that
the end windows have before `reset_plocal` changes it, and compares on unsigned numbers: with fewer
stamps than the local period window is long, `plocal_end` wraps and passes for available.

- `Search`: a search that meets available stamps only, between ends that have not wrapped.
- `Reaches`: what it takes, in terms of the first stamp of the windows searched.
- `searches_iff`: one is equivalent to the other, in all states that any run reaches at the tests.
-/

namespace RADclock

open Lib Lib.Exec

variable {D : Type}

/-! ## Statement -/

/-- Stamp `k` is there, and no older than the last change of the polling period. -/
structure Usable (s : AlgoState D) (k : Nat) : Prop where
  le : k ≤ s.si
  poll : s.poll.pollChangedI ≤ k
  stamp : s.hist.stamp.Has k
  RTT : s.hist.RTT.Has k

/-- The search over `[lhs + d, rhs + d]` meets usable stamps only, and the ends `lhs` and `rhs`,
computed on unsigned numbers, are the integers `l` and `r`. -/
structure Search (s : AlgoState D) (d lhs rhs : Nat) (l r : Int) : Prop where
  left : (lhs : Int) = l
  right : (rhs : Int) = r
  usable : ∀ k, lhs + d ≤ k → k ≤ rhs + d → Usable s k

/-- The searches of `reset_plocal`, for end windows of width `w`. -/
structure ResetSearches (s : AlgoState D) (w : Nat) : Prop where
  far : Search s 0 (wsub (s.si + 1) (s.win.plocalWin + w / 2))
    (wsub (s.si + w) (s.win.plocalWin + w / 2)) (s.si - s.win.plocalWin + 1 - (w / 2 : Nat))
    (s.si - s.win.plocalWin + w - (w / 2 : Nat))
  near : Search s 0 (wsub (s.si + 1) w) s.si (s.si - w + 1) s.si

/-- The slides of `process_plocal_full`, which are given the old windows and search the new. -/
structure SlideSearches (s : AlgoState D) (w : Nat) : Prop where
  far : Search s 1 (wsub s.si (w + s.win.plocalWin + w / 2))
    (wsub s.si (1 + s.win.plocalWin + w / 2)) (s.si - w - s.win.plocalWin - (w / 2 : Nat))
    (s.si - 1 - s.win.plocalWin - (w / 2 : Nat))
  near : Search s 1 (wsub s.si w) (wsub s.si 1) (s.si - w) (s.si - 1)

/-- The width of the end windows once past the test: a recorded problem resets it. -/
def endWidth (s : AlgoState D) : Nat :=
  if s.ploc.plocalProblem then fullWwidth s.win.plocalWin else s.ends.wwidth

/-- The availability test succeeds. -/
def PastTest (s : AlgoState D) : Prop := availableEnd s ≤ requiredEnd s

/-- `process_plocal_full` goes past its test only if all its searches meet usable stamps. -/
def ProcessesAvailable (s : AlgoState D) : Prop :=
  PastTest s → (s.ploc.plocalProblem = true → ResetSearches s (fullWwidth s.win.plocalWin)) ∧
    SlideSearches s (endWidth s)

/-- `init_plocal_full` goes past its test only if its searches do. -/
def InitsAvailable (s : AlgoState D) : Prop :=
  PastTest s → ResetSearches s (fullWwidth s.win.plocalWin)

/-- There have been more than `back` stamps, the last `back` of them after the last change of the
polling period, and they are all in both histories. -/
structure Reaches (s : AlgoState D) (back : Nat) : Prop where
  room : back ≤ s.si + 1
  poll : s.poll.pollChangedI + back ≤ s.si + 1
  stamp : s.hist.stamp.oldestI + back ≤ s.si + 1
  RTT : s.hist.RTT.oldestI + back ≤ s.si + 1

section Step

variable [Arith D] {F : Nat → BidirStamp D} {n r w : Nat} {s : AlgoState D} {mp : Metaparam D}

/-! ## Searches -/

theorem Within.has_stamp (h : Within F n r s) {k : Nat} :
    s.hist.stamp.Has k ↔ s.hist.stamp.oldestI ≤ k ∧ k ≤ n := by
  have hnew := h.stamps.newest
  unfold History.Has
  omega

theorem Within.has_RTT (h : Within F n r s) {k : Nat} :
    s.hist.RTT.Has k ↔ s.hist.RTT.oldestI ≤ k ∧ k ≤ n := by
  have hnew := h.rtts.newest
  unfold History.Has
  omega

/-- A search that starts no further back than is reached. -/
theorem Reaches.search (h : Within F n r s) {back d lhs rhs : Nat} {l r : Int}
    (hb : Reaches s back) (hl : (lhs : Int) = l) (hr : (rhs : Int) = r)
    (hleft : n + 1 ≤ lhs + d + back) (hright : rhs + d ≤ n) : Search s d lhs rhs l r := by
  have hsi := h.si
  obtain ⟨hroom, hpoll, hstamp, hrtt⟩ := hb
  refine ⟨hl, hr, fun k hk1 hk2 => ⟨by omega, by omega, h.has_stamp.mpr ?_, h.has_RTT.mpr ?_⟩⟩
  · omega
  · omega

/-- The first stamp of a search tells how far back everything reaches. -/
theorem Search.reaches (h : Within F n r s) {d lhs rhs : Nat} {l r : Int}
    (hs : Search s d lhs rhs l r) (hle : lhs ≤ rhs) {back : Nat}
    (hback : lhs + d + back = n + 1) : Reaches s back := by
  have hsi := h.si
  have hk := hs.usable (lhs + d) (Nat.le_refl _) (by omega)
  have hstamp := (h.has_stamp.mp hk.stamp).1
  have hrtt := (h.has_RTT.mp hk.RTT).1
  have hpoll := hk.poll
  exact ⟨by omega, by omega, by omega, by omega⟩

omit [Arith D] in
/-- A difference that is the integer one has not wrapped. -/
theorem le_of_wsub_eq {a b : Nat} (h : (wsub a b : Int) = (a : Int) - b) : b ≤ a := by
  omega

/-- The windows of `reset_plocal` start with the far window. -/
theorem resetSearches_iff (h : Within F n r s) :
    ResetSearches s (fullWwidth s.win.plocalWin) ↔
      Reaches s (s.win.plocalWin + fullWwidth s.win.plocalWin / 2) := by
  have hsi := h.si
  have hw := four_le_fullWwidth s.win.plocalWin
  have hw' := fullWwidth_le h.win.ok.ten_le_plocal
  generalize fullWwidth s.win.plocalWin = w at hw hw' ⊢
  constructor
  · rintro ⟨hfar, -⟩
    have hleft := hfar.left
    have hle : s.win.plocalWin + w / 2 ≤ s.si + 1 := le_of_wsub_eq (by omega)
    rw [wsub_of_le hle, wsub_of_le (by omega)] at hfar
    exact hfar.reaches h (by omega) (by omega)
  · intro hb
    have hroom := hb.room
    refine ⟨?_, ?_⟩
    · rw [wsub_of_le hroom, wsub_of_le (by omega)]
      exact hb.search h (by omega) (by omega) (by omega) (by omega)
    · rw [wsub_of_le (by omega)]
      exact hb.search h (by omega) (by omega) (by omega) (by omega)

/-- So do the slides; the far window given as the old one starts one stamp earlier. -/
theorem slideSearches_iff (h : Within F n r s) (hw : 1 ≤ w) :
    SlideSearches s w ↔ s.win.plocalWin + w + w / 2 ≤ s.si ∧
      Reaches s (s.win.plocalWin + w + w / 2) := by
  have hsi := h.si
  constructor
  · rintro ⟨hfar, -⟩
    have hleft := hfar.left
    have hle : w + s.win.plocalWin + w / 2 ≤ s.si := le_of_wsub_eq (by omega)
    rw [wsub_of_le hle, wsub_of_le (by omega)] at hfar
    exact ⟨by omega, hfar.reaches h (by omega) (by omega)⟩
  · rintro ⟨hle, hb⟩
    have hpw := h.win.ok.ten_le_plocal
    refine ⟨?_, ?_⟩
    · rw [wsub_of_le (by omega), wsub_of_le (by omega)]
      exact hb.search h (by omega) (by omega) (by omega) (by omega)
    · rw [wsub_of_le (by omega), wsub_of_le (by omega)]
      exact hb.search h (by omega) (by omega) (by omega) (by omega)

/-- A search past the test, in terms of its first stamp. -/
structure FitsTest (s : AlgoState D) : Prop where
  room : s.win.plocalWin + endWidth s + endWidth s / 2 ≤ s.si
  reaches : Reaches s (s.win.plocalWin + endWidth s + endWidth s / 2)

omit [Arith D] in
theorem Reaches.mono {back back' : Nat} (h : Reaches s back) (hle : back' ≤ back) :
    Reaches s back' := by
  obtain ⟨hroom, hpoll, hstamp, hrtt⟩ := h
  exact ⟨by omega, by omega, by omega, by omega⟩

theorem processesAvailable_iff (h : Within F n r s) (hw : 1 ≤ s.ends.wwidth) :
    ProcessesAvailable s ↔ (PastTest s → FitsTest s) := by
  have hwidth : 1 ≤ endWidth s := by
    have hfull := four_le_fullWwidth s.win.plocalWin
    unfold endWidth
    split <;> omega
  refine forall_congr' fun _ => ?_
  rw [slideSearches_iff h hwidth]
  constructor
  · rintro ⟨-, hle, hb⟩
    exact ⟨hle, hb⟩
  · rintro ⟨hle, hb⟩
    refine ⟨fun hprob => (resetSearches_iff h).mpr ?_, hle, hb⟩
    rw [endWidth, if_pos hprob] at hb
    exact hb.mono (by omega)

end Step

/-! ## The width of the end windows -/

section Width

variable [Arith D] {s : AlgoState D} {mp : Metaparam D}

/-- The width of the end windows after a call, in terms of that before: in warmup it may grow by
one, and `reset_plocal` sets it. -/
def WidthStep (s s' : AlgoState D) : Prop :=
  s'.ends.wwidth = s.ends.wwidth ∨ s'.ends.wwidth = s.ends.wwidth + 1 ∨
    s'.ends.wwidth = fullWwidth s.win.plocalWin

omit [Arith D] in
theorem WidthStep.pos {s' : AlgoState D} (h : WidthStep s s') (hw : 1 ≤ s.ends.wwidth) :
    1 ≤ s'.ends.wwidth := by
  have hfull := four_le_fullWwidth s.win.plocalWin
  rcases h with h | h | h <;> omega

omit [Arith D] in
theorem warmupEnds_width (RTT : VCounter) : Returns (warmupEnds RTT s) fun e =>
    e.wwidth = s.ends.wwidth ∨ e.wwidth = s.ends.wwidth + 1 := by
  refine Returns.ite (fun _ => ?_) fun _ => ?_
  · exact Returns.skip fun _ => Returns.pure (Or.inl rfl)
  · refine Returns.skip fun _ => Returns.skip fun _ => Returns.skip fun _ => ?_
    refine Returns.skip fun _ => Returns.skip fun _ => Returns.skip fun _ => ?_
    exact Returns.pure (Or.inr rfl)

theorem processPhatWarmup_width (RTT : VCounter) : Returns (processPhatWarmup RTT s) fun s' =>
    s'.ends.wwidth = s.ends.wwidth ∨ s'.ends.wwidth = s.ends.wwidth + 1 := by
  refine Returns.bind (warmupEnds_width RTT) fun e he => ?_
  refine Returns.skip fun st => Returns.skip fun phat => ?_
  refine Returns.ite (fun _ => Returns.pure he) fun _ => ?_
  exact Returns.ite (fun _ => Returns.skip fun r => Returns.pure he) fun _ => Returns.pure he

theorem warmupAlgos_width (st : BidirStamp D) : Returns (warmupAlgos mp st s) fun s' =>
    s'.ends.wwidth = s.ends.wwidth ∨ s'.ends.wwidth = s.ends.wwidth + 1 := by
  obtain ⟨i, owd, Df, Db, -, hpath⟩ := warmupPath_frame st st.RTT s
  unfold warmupAlgos
  rw [hpath]
  refine Returns.bind (processPhatWarmup_width _) fun s1 h1 => ?_
  refine Returns.bind (processThetahatWarmup_frame _ _ _) ?_
  rintro s2 ⟨t, off, bound, stt, out, rfl, -⟩
  obtain ⟨out', stt', hfin⟩ := finishWarmup_frame mp
    { copyPhat s1 with
      hist := _, poll := _, off := off, err := _, status := stt, output := out }
  refine Returns.pure ?_
  rw [hfin]
  exact h1

omit [Arith D] in
theorem startPlocal_width : Returns (startPlocal s) fun s' =>
    s'.ends.wwidth = s.ends.wwidth ∨ s'.ends.wwidth = fullWwidth s.win.plocalWin := by
  refine Returns.ite (fun _ => ?_) fun _ => Returns.pure (Or.inl rfl)
  refine (resetPlocal_frame _).mono ?_
  rintro s' ⟨far, near, rfl⟩
  exact Or.inr rfl

theorem processPlocalFull_width (q : Bool) : Returns (processPlocalFull q s) fun s' =>
    s'.ends.wwidth = s.ends.wwidth ∨ s'.ends.wwidth = fullWwidth s.win.plocalWin := by
  refine Returns.ite (fun _ => Returns.pure (Or.inl rfl)) fun _ => ?_
  refine Returns.bind (Q := fun s1 => s1.ends.wwidth = s.ends.wwidth ∨
    s1.ends.wwidth = fullWwidth s.win.plocalWin) ?_ fun s1 h1 => ?_
  · refine Returns.ite (fun _ => ?_) fun _ => Returns.pure (Or.inl rfl)
    refine (resetPlocal_frame _).mono ?_
    rintro s1 ⟨far, near, rfl⟩
    exact Or.inr rfl
  · refine (slidePlocal_frame q _).mono ?_
    rintro s2 ⟨far, near, pl, err, n, out, stt, rfl⟩
    exact h1

theorem initFull_width (st : BidirStamp D) : Returns (initFull st s) fun s' =>
    s'.ends.wwidth = s.ends.wwidth ∨ s'.ends.wwidth = fullWwidth s.win.plocalWin := by
  refine Returns.bind (initRTTOWDAsymFull_frame _) ?_
  rintro s1 ⟨r, f, b, rfl⟩
  refine Returns.bind (initPhatFull_frame _) ?_
  rintro s2 ⟨stamp, perr, rfl⟩
  refine Returns.bind (Q := fun s3 => s3.ends.wwidth = s.ends.wwidth ∨
    s3.ends.wwidth = fullWwidth s.win.plocalWin) ?_ fun s3 h3 => Returns.pure h3
  exact Returns.bind startPlocal_width fun s3 h3 => Returns.pure h3

/-! ## What a call leaves alone -/

theorem detectUpshift_series :
    Returns (detectUpshift s) fun s' => SameSeries s s' ∧ s'.ends = s.ends := by
  refine Returns.ite (fun _ => ?_) fun _ => Returns.pure ⟨⟨rfl, rfl, rfl, rfl, rfl, rfl, rfl, rfl⟩,
    rfl⟩
  obtain ⟨perr, nhat, heq⟩ := recalcNextPstamp_frame (adoptShift s)
  dsimp only
  rw [heq]
  exact Returns.skip fun h => Returns.pure ⟨⟨rfl, rfl, rfl, rfl, rfl, rfl, rfl, rfl⟩, rfl⟩

theorem toPlocal_series (inp : Input D) :
    Returns (toPlocal inp s) fun s' => SameSeries s s' ∧ s'.ends = s.ends := by
  refine Returns.bind (Q := fun s1 => SameSeries s s1 ∧ s1.ends = s.ends) ?_ fun s1 h1 => ?_
  · refine Returns.bind (manageHistorywin_series _ _) ?_
    rintro s1 ⟨h1, -, he1, -⟩
    refine (updateRTTShift_frame _ _).mono ?_
    rintro s2 ⟨v, e, rfl⟩
    exact ⟨h1.trans ⟨rfl, rfl, rfl, rfl, rfl, rfl, rfl, rfl⟩, he1⟩
  · refine Returns.bind detectUpshift_series ?_
    rintro s2 ⟨h2, he2⟩
    refine Returns.bind (processOWDAsymFull_series _) ?_
    rintro s3 ⟨h3, -, he3, -⟩
    refine Returns.bind (updateNextPstamp_series _ _) ?_
    rintro s4 ⟨h4, -, -, -, he4, -⟩
    refine (processPhatFull_series _ _ _).mono ?_
    rintro s5 ⟨h5, -, -, -, he5, -⟩
    refine ⟨(((h1.1.trans h2).trans h3).trans h4).trans h5, ?_⟩
    rw [he5, he4, he3, he2, h1.2]

theorem initFull_series (st : BidirStamp D) : Returns (initFull st s) (SameSeries s) := by
  refine Returns.bind (initRTTOWDAsymFull_frame _) ?_
  rintro s1 ⟨r, f, b, rfl⟩
  refine Returns.bind (initPhatFull_frame _) ?_
  rintro s2 ⟨stamp, perr, rfl⟩
  refine Returns.bind (initPlocalFull_frame _) ?_
  rintro s3 ⟨e, ends, ploc, rfl⟩
  exact Returns.pure ⟨rfl, rfl, rfl, rfl, rfl, rfl, rfl, rfl⟩

theorem fromPlocal_width (inp : Input D) : Returns (fromPlocal mp inp s) fun s' =>
    s'.ends.wwidth = s.ends.wwidth ∨ s'.ends.wwidth = fullWwidth s.win.plocalWin := by
  refine Returns.bind (processPlocalFull_width _) fun s1 h1 => ?_
  refine Returns.bind (processThetahatFull_frame _ _ _ _ _) ?_
  rintro s2 ⟨t, off, bound, stt, out, rfl, -⟩
  refine (updatePathpenaltyFull_frame _ _ _).mono ?_
  rintro s3 ⟨pen, out, rfl⟩
  exact h1

/-- After the first stamp, the algorithms leave series and windows alone. -/
theorem phases_series (conf : Config D) (inp : Input D) (hpos : s.stampI ≠ 0) :
    Returns (phases conf inp s) fun s' => SameSeries s s' ∧ WidthStep s s' := by
  refine Returns.ite (fun hzero => absurd hzero hpos) fun _ => ?_
  refine Returns.ite (fun _ => ?_) fun _ => ?_
  · -- warmup: the width changes only where the end windows are set or reset
    refine Returns.bind (Q := fun s1 => SameSeries s s1 ∧ (s1.ends.wwidth = s.ends.wwidth ∨
      s1.ends.wwidth = s.ends.wwidth + 1)) ?_ ?_
    · refine ((warmupAlgos_frame _ _ _).and (warmupAlgos_width _)).mono ?_
      rintro s1 ⟨⟨i, owd, Df, Db, th, ends, phat, perr, t, off, bound, stt, out, rfl⟩, h1⟩
      exact ⟨⟨rfl, rfl, rfl, rfl, rfl, rfl, rfl, rfl⟩, h1⟩
    · rintro s1 ⟨hs1, h1⟩
      refine Returns.ite (fun _ => ?_) fun _ => Returns.pure ⟨hs1, h1.imp_right Or.inl⟩
      refine ((initFull_series _).and (initFull_width _)).mono ?_
      rintro s2 ⟨hs2, h2⟩
      refine ⟨hs1.trans hs2, ?_⟩
      rw [hs1.plocalWin] at h2
      unfold WidthStep
      rcases h2 with h2 | h2
      · rw [h2]
        exact h1.imp_right Or.inl
      · exact Or.inr (Or.inr h2)
  · -- the full phase, cut at plocal, the only part that changes the width
    rw [fullPhase_eq]
    refine Returns.bind (toPlocal_series inp) ?_
    rintro s1 ⟨hs1, h1⟩
    refine ((fromPlocal_series inp).and (fromPlocal_width inp)).mono ?_
    rintro s2 ⟨⟨hs2, -⟩, h2⟩
    rw [hs1.plocalWin, h1] at h2
    exact ⟨hs1.trans hs2, h2.imp_right Or.inr⟩

theorem reactToUpdate_ends (conf : Config D) (s : AlgoState D) :
    Returns (reactToUpdate conf s) fun s' => s'.stampI = s.stampI ∧ s'.ends = s.ends ∧
      (conf.algoUpdate = false → s' = s) := by
  refine Returns.ite (fun hupd => ?_) fun _ => Returns.pure ⟨rfl, rfl, fun _ => rfl⟩
  refine (updateState_cases _ _ _).mono ?_
  rintro s1 ⟨poll, -, ⟨-, rfl⟩ | ⟨-, v, e, rfl⟩⟩
  · exact ⟨rfl, rfl, fun hno => absurd hupd (by rw [hno]; decide)⟩
  · exact ⟨rfl, rfl, fun hno => absurd hupd (by rw [hno]; decide)⟩

/-- What calls after the first leave alone, unless the configuration has changed. -/
structure SameWidths (s s' : AlgoState D) : Prop where
  warmupWin : s'.win.warmupWin = s.win.warmupWin
  shiftWin : s'.win.shiftWin = s.win.shiftWin
  plocalWin : s'.win.plocalWin = s.win.plocalWin
  offsetWin : s'.win.offsetWin = s.win.offsetWin
  pollChangedI : s'.poll.pollChangedI = s.poll.pollChangedI

/-- The end windows over a call after the first. -/
theorem RADalgoBidir_width (conf : Config D) (inp : Input D) (hidx : 0 ≤ s.stampI) :
    Returns (RADalgoBidir conf inp s) fun s' => (1 ≤ s.ends.wwidth → 1 ≤ s'.ends.wwidth) ∧
      (conf.algoUpdate = false → SameWidths s s' ∧ WidthStep s s') := by
  have hnext : nextStamp conf s = { s with stampI := s.stampI + 1 } :=
    nextStamp_later conf (by omega)
  unfold RADalgoBidir
  rw [hnext]
  refine Returns.bind (reactToUpdate_ends _ _) ?_
  rintro s1 ⟨hidx1, hends1, hkeep⟩
  refine Returns.bind (phases_series (s := recordStamp inp.stamp s1) conf inp ?_) ?_
  · show s1.stampI ≠ 0
    rw [hidx1]
    dsimp only
    omega
  · rintro s2 ⟨hsame, hwidth⟩
    obtain ⟨stats, hcopy⟩ := copyStamp_frame inp.stamp s2
    rw [hcopy]
    refine Returns.bind (updateErrors_frame _ _ _) ?_
    rintro s3 ⟨err, rfl⟩
    refine Returns.pure ⟨fun hw => hwidth.pos ?_, fun hupd => ?_⟩
    · show 1 ≤ s1.ends.wwidth
      rw [hends1]
      exact hw
    · obtain rfl := hkeep hupd
      exact ⟨⟨hsame.warmupWin, hsame.shiftWin, hsame.plocalWin, hsame.offsetWin,
        hsame.pollChangedI⟩, hwidth⟩

end Width

/-! ## Runs -/

section Run

variable [Arith D]

theorem RADalgoBidir_firstWidth (conf : Config D) (inp : Input D) :
    Returns (RADalgoBidir conf inp AlgoState.zero) fun s => 1 ≤ s.ends.wwidth := by
  refine Returns.bind (reactToUpdate_ends _ _) ?_
  rintro s1 ⟨hidx1, -, -⟩
  have hphase : phases conf inp (recordStamp inp.stamp s1) =
      pure (initPhase conf inp.stamp (recordStamp inp.stamp s1)) := if_pos hidx1
  rw [hphase]
  refine Returns.bind (Q := fun s2 => s2.ends.wwidth = 1) (Returns.pure rfl) fun s2 h2 => ?_
  obtain ⟨stats, hcopy⟩ := copyStamp_frame inp.stamp s2
  rw [hcopy]
  refine Returns.bind (updateErrors_frame _ _ _) ?_
  rintro s3 ⟨err, rfl⟩
  exact Returns.pure (Nat.le_of_eq h2.symm)

/-- After the first call, the end windows are not empty. -/
theorem run_width {c : Call D} {cs : List (Call D)} :
    Returns (run (c :: cs)) fun s => 0 ≤ s.stampI ∧ 1 ≤ s.ends.wwidth := by
  have hrun := run_returns (C := fun _ _ => True)
    (I := fun n s => Running (stampsOf (c :: cs)) n s ∧ 1 ≤ s.ends.wwidth)
    (fun hinp _ => (RADalgoBidir_running_first c.conf c.inp hinp).and
      (RADalgoBidir_firstWidth c.conf c.inp)) (fun n c' s hinp h _ => ?_) (follows_stampsOf _)
    (RunMeets.trivial _ _)
  · refine hrun.mono ?_
    rintro s ⟨h, hw⟩
    have hidx := h.idx
    have hpos := h.pos
    exact ⟨by omega, hw⟩
  · have hidx := h.1.idx
    have hpos := h.1.pos
    refine ((RADalgoBidir_running c'.conf c'.inp hinp h.1).and
      (RADalgoBidir_width c'.conf c'.inp (by omega))).mono ?_
    rintro s' ⟨h', hw', -⟩
    exact ⟨h', hw' h.2⟩

theorem run_beginCall_width (cs : List (Call D)) (c : Call D) :
    Returns (run cs >>= beginCall c) fun s => s.win.warmupWin ≤ s.si → 1 ≤ s.ends.wwidth := by
  cases cs with
  | nil =>
    refine (run_beginCall [] c (follows_stampsOf _)).mono ?_
    rintro s ⟨hsi, hundred, -⟩ hfull
    rw [hsi, List.length_nil] at hfull
    omega
  | cons c₀ cs =>
    refine Returns.bind run_width ?_
    rintro s ⟨hidx, hw⟩
    have hnext : nextStamp c.conf s = { s with stampI := s.stampI + 1 } :=
      nextStamp_later c.conf (by omega)
    unfold beginCall
    rw [hnext]
    refine Returns.bind (reactToUpdate_ends _ _) ?_
    rintro s1 ⟨-, hends1, -⟩
    refine Returns.pure fun _ => ?_
    show 1 ≤ s1.ends.wwidth
    rw [hends1]
    exact hw

/-- A call that goes on to `process_plocal_full`, or to `init_plocal_full`, goes past the
availability test only to search usable stamps. -/
def SearchesAvailable (c : Call D) (s : AlgoState D) : Prop :=
  (s.win.warmupWin ≤ s.si → Returns (toPlocal c.inp s) ProcessesAvailable) ∧
    (s.si + 1 = s.win.warmupWin →
      Returns (warmupAlgos c.conf.metaparam c.inp.stamp s >>= startFull) InitsAvailable)

/-- The windows that the call is to search fit, if it goes past the availability test. -/
def SearchesFit (c : Call D) (s : AlgoState D) : Prop :=
  (s.win.warmupWin ≤ s.si → Returns (toPlocal c.inp s) fun s => PastTest s → FitsTest s) ∧
    (s.si + 1 = s.win.warmupWin →
      Returns (warmupAlgos c.conf.metaparam c.inp.stamp s >>= startFull) fun s => PastTest s →
        Reaches s (s.win.plocalWin + fullWwidth s.win.plocalWin / 2))

/-- The next call of any run, with any configuration changes on the way, searches usable stamps
only if and only if its windows fit. -/
theorem searches_iff (cs : List (Call D)) (c : Call D) :
    Returns (run cs >>= beginCall c) fun s => SearchesAvailable c s ↔ SearchesFit c s := by
  refine ((run_beginCall cs c (follows_stampsOf _)).and (run_beginCall_width cs c)).mono ?_
  rintro s ⟨⟨-, -, hwarm, hfull⟩, hw⟩
  refine and_congr (forall_congr' fun hge => ?_) (forall_congr' fun hlast => ?_)
  · refine Returns.congr_iff ((toPlocal_within (hfull hge) c.inp).mono ?_)
    rintro s' ⟨-, h', hends, -⟩
    exact processesAvailable_iff h' (hends ▸ hw hge)
  · refine Returns.congr_iff (Returns.bind (warmupAlgos_within (hwarm (by omega)) _) ?_)
    rintro s1 ⟨-, h1⟩
    refine (startFull_within h1).mono ?_
    rintro s2 ⟨-, h2⟩
    exact forall_congr' fun _ => resetSearches_iff h2

end Run

end RADclock
