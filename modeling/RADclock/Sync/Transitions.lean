import RADclock.Sync.Indexing

/-!
# Runs with any configuration changes

`Inv` asks that a change in the full phase leave the local period window as it is. What holds of
all runs, whatever the changes:

- `Running F n s`: after `n` stamps of the series `F`, the stamp and RTT histories hold the last
  stamps and their RTTs, the windows are those of some configuration, and the RTThat history is
  empty in warmup and follows the stamps later.
- `Within`: the same inside a call.
- `toUpshift`, `toPlocal`: a call of the full phase up to the point where an upshift is looked for,
  and up to `process_plocal_full`.

Only results are looked at: a call that halts leaves no state behind.
-/

namespace RADclock

open Lib Lib.Exec

variable {D : Type} [Arith D]

/-! ## A call of the full phase, in parts -/

/-- Up to the test for an upshift. -/
def toUpshift (inp : Input D) (s : AlgoState D) : Algo D (AlgoState D) := do
  let s ← manageHistorywin inp.stamp inp.stamp.RTT s
  updateRTTShift inp.stamp.RTT (updateRTTMinima inp.stamp.RTT s)

/-- Up to `process_plocal_full`. -/
def toPlocal (inp : Input D) (s : AlgoState D) : Algo D (AlgoState D) := do
  let s ← toUpshift inp s
  let s ← detectUpshift s
  let s ← processOWDAsymFull inp.stamp s
  let s ← updateNextPstamp inp.stamp inp.stamp.RTT s
  processPhatFull inp.stamp inp.stamp.RTT inp.qualWarning s

/-- From `process_plocal_full` on. -/
def fromPlocal (mp : Metaparam D) (inp : Input D) (s : AlgoState D) : Algo D (AlgoState D) := do
  let s ← processPlocalFull inp.qualWarning s
  let s ← processThetahatFull mp inp.stamp inp.qualWarning inp.Ebound s
  updatePathpenaltyFull mp inp.stamp s

/-- A call of the full phase, cut before plocal. -/
theorem fullPhase_eq (mp : Metaparam D) (inp : Input D) (s : AlgoState D) :
    fullPhase mp inp s = toPlocal inp s >>= fromPlocal mp inp := by
  unfold fullPhase toPlocal toUpshift fromPlocal processRTTFull
  simp only [bind_assoc]

/-- The last stamp of warmup, up to `init_plocal_full`. -/
def startFull (s : AlgoState D) : Algo D (AlgoState D) := do
  let s ← initRTTOWDAsymFull { s with win := { s.win with historyEnd := wsub s.win.hWin 1 } }
  initPhatFull s

/-- The last stamp of warmup, from `init_plocal_full` on. -/
def finishFull (st : BidirStamp D) (s : AlgoState D) : Algo D (AlgoState D) := do
  let s ← initPlocalFull s
  let s := initThetahatFull st s
  let s := { s with pen := { s.pen with Pbase := s.output.pathpenalty } }
  pure ((parametersCalibration s).delStatus STARAD_WARMUP)

/-- The start of the full phase, cut before its end. -/
theorem initFull_eq (st : BidirStamp D) (s : AlgoState D) :
    initFull st s = startFull s >>= finishFull st := by
  unfold initFull startFull finishFull
  simp only [bind_assoc]

/-! ## Inside a call -/

/-- The windows are those of some metaparameters and polling period. -/
def Configured (D : Type) [Arith D] (w : Windows) : Prop :=
  ∃ (mp : Metaparam D) (pollPeriod : Nat), w.shiftWin = baseShiftWin mp pollPeriod ∧
    w.offsetWin = baseOffsetWin mp pollPeriod ∧ w.plocalWin = basePlocalWin mp pollPeriod

/-- Windows of a configuration are long enough. -/
theorem Configured.ok {w : Windows} (h : Configured D w) : WinOk w := by
  obtain ⟨mp, pp, hshift, hoffset, hplocal⟩ := h
  have hok := newWindows_ok mp pp w
  refine ⟨?_, ?_, ?_⟩
  · rw [hoffset]
    exact hok.offset
  · rw [hplocal, hoffset]
    exact hok.plocal
  · rw [hshift]
    exact hok.shift

/-- The windows that an update computes are of a configuration. -/
theorem configured_new (mp : Metaparam D) (pollPeriod : Nat) (w : Windows) :
    Configured D (newWindows mp pollPeriod w) := ⟨mp, pollPeriod, rfl, rfl, rfl⟩

/-- Which is a matter of three windows. -/
theorem Configured.congr {w w' : Windows} (h : Configured D w) (hs : w'.shiftWin = w.shiftWin)
    (ho : w'.offsetWin = w.offsetWin) (hp : w'.plocalWin = w.plocalWin) : Configured D w' := by
  obtain ⟨mp, pp, hshift, hoffset, hplocal⟩ := h
  exact ⟨mp, pp, hs.trans hshift, ho.trans hoffset, hp.trans hplocal⟩

/-- Inside the call for stamp `n`, with `r` items in the RTThat history. -/
structure Within (F : Nat → BidirStamp D) (n r : Nat) (s : AlgoState D) : Prop where
  idx : s.stampI = n
  stamps : Holds F (n + 1) s.hist.stamp
  rtts : Holds (rttOf F) (n + 1) s.hist.RTT
  win : Configured D s.win
  hats : ∃ hats, Holds hats r s.hist.RTThat

section Step

variable {F : Nat → BidirStamp D} {n r : Nat} {s s' : AlgoState D} {mp : Metaparam D}

/-- The stamp counter as an unsigned index. -/
theorem Within.si (h : Within F n r s) : s.si = n := by
  have := h.idx
  unfold AlgoState.si
  omega

/-- What is left alone between the test for an upshift and `process_plocal_full`, and after it. -/
structure SameSeries (s s' : AlgoState D) : Prop where
  idx : s'.stampI = s.stampI
  warmupWin : s'.win.warmupWin = s.win.warmupWin
  shiftWin : s'.win.shiftWin = s.win.shiftWin
  plocalWin : s'.win.plocalWin = s.win.plocalWin
  offsetWin : s'.win.offsetWin = s.win.offsetWin
  stamp : s'.hist.stamp = s.hist.stamp
  RTT : s'.hist.RTT = s.hist.RTT
  pollChangedI : s'.poll.pollChangedI = s.poll.pollChangedI

omit [Arith D] in
/-- A state has its own series. -/
theorem SameSeries.refl (s : AlgoState D) : SameSeries s s :=
  ⟨rfl, rfl, rfl, rfl, rfl, rfl, rfl, rfl⟩

omit [Arith D] in
/-- The same through a third state. -/
theorem SameSeries.trans {s'' : AlgoState D} (h : SameSeries s s') (h' : SameSeries s' s'') :
    SameSeries s s'' where
  idx := h'.idx.trans h.idx
  warmupWin := h'.warmupWin.trans h.warmupWin
  shiftWin := h'.shiftWin.trans h.shiftWin
  plocalWin := h'.plocalWin.trans h.plocalWin
  offsetWin := h'.offsetWin.trans h.offsetWin
  stamp := h'.stamp.trans h.stamp
  RTT := h'.RTT.trans h.RTT
  pollChangedI := h'.pollChangedI.trans h.pollChangedI

/-- With the same series, only the minima of the past have to be held still. -/
theorem Within.congr {r' : Nat} (h : Within F n r s) (hsame : SameSeries s s')
    (hhats : ∃ hats, Holds hats r' s'.hist.RTThat) : Within F n r' s' where
  idx := hsame.idx.trans h.idx
  stamps := hsame.stamp ▸ h.stamps
  rtts := hsame.RTT ▸ h.rtts
  win := h.win.congr hsame.shiftWin hsame.offsetWin hsame.plocalWin
  hats := hhats

/-! ## The full phase -/

/-- The history window keeps the histories, the ends and plocal. -/
theorem manageHistorywin_series (st : BidirStamp D) (RTT : VCounter) :
    Returns (manageHistorywin st RTT s) fun s' => SameSeries s s' ∧ s'.hist = s.hist ∧
      s'.ends = s.ends ∧ s'.ploc = s.ploc := by
  refine (manageHistorywin_cases _ _ _).mono ?_
  rintro s' ⟨s1, hs1, hcase⟩
  have h1 : SameSeries s s1 ∧ s1.hist = s.hist ∧ s1.ends = s.ends ∧ s1.ploc = s.ploc := by
    rw [hs1]
    split
    · exact ⟨⟨rfl, rfl, rfl, rfl, rfl, rfl, rfl, rfl⟩, rfl, rfl, rfl⟩
    · exact ⟨SameSeries.refl s, rfl, rfl, rfl⟩
  rcases hcase with ⟨-, Df, Db, rfl⟩ | ⟨-, rfl⟩
  · exact ⟨h1.1.trans ⟨rfl, rfl, rfl, rfl, rfl, rfl, rfl, rfl⟩, h1.2⟩
  · exact h1

/-- So does what comes before the detection of an upshift. -/
theorem toUpshift_series (inp : Input D) (s : AlgoState D) :
    Returns (toUpshift inp s) (SameSeries s) := by
  refine Returns.bind (manageHistorywin_series _ _) ?_
  rintro s1 ⟨h1, -⟩
  refine (updateRTTShift_frame _ _).mono ?_
  rintro s2 ⟨v, e, rfl⟩
  exact h1.trans ⟨rfl, rfl, rfl, rfl, rfl, rfl, rfl, rfl⟩

/-- On-line minima and shift window: one item more in the RTThat history. -/
theorem toUpshift_within (h : Within F n n s) (inp : Input D) :
    Returns (toUpshift inp s) fun s' => SameSeries s s' ∧ Within F n (n + 1) s' ∧
      s'.ends = s.ends ∧ s'.ploc = s.ploc := by
  refine Returns.bind (manageHistorywin_series _ _) ?_
  rintro s1 ⟨h1, hhist, hends, hploc⟩
  obtain ⟨hats, hh⟩ := h.hats
  refine (updateRTTShift_frame _ _).mono ?_
  rintro s2 ⟨v, e, rfl⟩
  have hsame : SameSeries s
      { updateRTTMinima inp.stamp.RTT s1 with
        rtt := { (updateRTTMinima inp.stamp.RTT s1).rtt with RTThatShift := v }
        win := { (updateRTTMinima inp.stamp.RTT s1).win with shiftEnd := e } } :=
    h1.trans ⟨rfl, rfl, rfl, rfl, rfl, rfl, rfl, rfl⟩
  refine ⟨hsame, h.congr hsame ⟨addHat hats n (min s1.rtt.RTThat inp.stamp.RTT), ?_⟩, hends, hploc⟩
  show Holds _ _ (historyAdd s1.hist.RTThat s1.si _)
  rw [si_of_idx (h1.idx.trans h.idx), hhist]
  exact hh.addHat _

/-- An upshift rewrites the minima of the past, and keeps the rest. -/
theorem detectUpshift_within (h : Within F n (n + 1) s) :
    Returns (detectUpshift s) fun s' => SameSeries s s' ∧ Within F n (n + 1) s' ∧
      s'.ends = s.ends ∧ s'.ploc = s.ploc := by
  obtain ⟨hats, hh⟩ := h.hats
  refine Returns.ite (fun _ => ?_) fun _ => ?_
  · obtain ⟨perr, nhat, heq⟩ := recalcNextPstamp_frame (adoptShift s)
    dsimp only
    rw [heq]
    refine Returns.bind (rewriteBack_returns _ _ hh (Nat.le_of_eq h.si)) ?_
    rintro h' ⟨hats', hh'⟩
    refine Returns.pure ⟨⟨rfl, rfl, rfl, rfl, rfl, rfl, rfl, rfl⟩, ?_, rfl, rfl⟩
    exact ⟨h.idx, h.stamps, h.rtts, h.win, hats', hh'⟩
  · refine Returns.pure ⟨⟨rfl, rfl, rfl, rfl, rfl, rfl, rfl, rfl⟩, ?_, rfl, rfl⟩
    exact ⟨h.idx, h.stamps, h.rtts, h.win, hats, hh⟩

/-- The one-way minima keep those of the RTT. -/
theorem processOWDAsymFull_series (st : BidirStamp D) :
    Returns (processOWDAsymFull st s) fun s' => SameSeries s s' ∧
      s'.hist.RTThat = s.hist.RTThat ∧ s'.ends = s.ends ∧ s'.ploc = s.ploc := by
  refine (processOWDAsymFull_frame _ _).mono ?_
  rintro s' ⟨owd, e, Dfhat, Dbhat, Asymhat, rfl⟩
  exact ⟨⟨rfl, rfl, rfl, rfl, rfl, rfl, rfl, rfl⟩, rfl, rfl, rfl⟩

/-- The next `pstamp` is no part of the series. -/
theorem updateNextPstamp_series (st : BidirStamp D) (RTT : VCounter) :
    Returns (updateNextPstamp st RTT s) fun s' => SameSeries s s' ∧ s'.hist = s.hist ∧
      s'.owd = s.owd ∧ s'.win = s.win ∧ s'.ends = s.ends ∧ s'.ploc = s.ploc := by
  refine (updateNextPstamp_cases _ _ _).mono ?_
  rintro s' ⟨c, rfl | ⟨-, -, perr, nhat, rfl⟩⟩
  · exact ⟨⟨rfl, rfl, rfl, rfl, rfl, rfl, rfl, rfl⟩, rfl, rfl, rfl, rfl, rfl⟩
  · exact ⟨⟨rfl, rfl, rfl, rfl, rfl, rfl, rfl, rfl⟩, rfl, rfl, rfl, rfl, rfl⟩

/-- Nor is the period. -/
theorem processPhatFull_series (st : BidirStamp D) (RTT : VCounter) (q : Bool) :
    Returns (processPhatFull st RTT q s) fun s' => SameSeries s s' ∧ s'.hist = s.hist ∧
      s'.owd = s.owd ∧ s'.win = s.win ∧ s'.ends = s.ends ∧ s'.ploc = s.ploc := by
  refine (processPhatFull_frame _ _ _ _).mono ?_
  rintro s' ⟨K, phat, perr, c, stt, rfl⟩
  exact ⟨⟨rfl, rfl, rfl, rfl, rfl, rfl, rfl, rfl⟩, rfl, rfl, rfl, rfl, rfl⟩

/-- Up to `process_plocal_full`, the end windows and the local period are left alone. -/
theorem toPlocal_within (h : Within F n n s) (inp : Input D) :
    Returns (toPlocal inp s) fun s' => SameSeries s s' ∧ Within F n (n + 1) s' ∧
      s'.ends = s.ends ∧ s'.ploc = s.ploc := by
  refine Returns.bind (toUpshift_within h inp) ?_
  rintro s1 ⟨hs1, h1, he1, hp1⟩
  refine Returns.bind (detectUpshift_within h1) ?_
  rintro s2 ⟨hs2, h2, he2, hp2⟩
  refine Returns.bind (processOWDAsymFull_series _) ?_
  rintro s3 ⟨hs3, hr3, he3, hp3⟩
  have h3 := h2.congr hs3 (hr3 ▸ h2.hats)
  refine Returns.bind (updateNextPstamp_series _ _) ?_
  rintro s4 ⟨hs4, hh4, -, -, he4, hp4⟩
  have h4 := h3.congr hs4 (hh4 ▸ h3.hats)
  refine (processPhatFull_series _ _ _).mono ?_
  rintro s5 ⟨hs5, hh5, -, -, he5, hp5⟩
  refine ⟨(((hs1.trans hs2).trans hs3).trans hs4).trans hs5, h4.congr hs5 (hh5 ▸ h4.hats), ?_, ?_⟩
  · rw [he5, he4, he3, he2, he1]
  · rw [hp5, hp4, hp3, hp2, hp1]

/-- What `process_plocal_full` and the functions after it leave alone. -/
theorem fromPlocal_series (inp : Input D) :
    Returns (fromPlocal mp inp s) fun s' => SameSeries s s' ∧ s'.owd = s.owd ∧
      s'.win.shiftEndOWD = s.win.shiftEndOWD ∧ s'.hist.Df = s.hist.Df ∧ s'.hist.Db = s.hist.Db ∧
      s'.hist.RTThat = s.hist.RTThat := by
  refine Returns.bind (processPlocalFull_frame _ _) ?_
  rintro s1 ⟨en, ends, ploc, out, stt, rfl⟩
  refine Returns.bind (processThetahatFull_frame _ _ _ _ _) ?_
  rintro s2 ⟨t, off, bound, stt, out, rfl, -⟩
  refine (updatePathpenaltyFull_frame _ _ _).mono ?_
  rintro s3 ⟨pen, out, rfl⟩
  exact ⟨⟨rfl, rfl, rfl, rfl, rfl, rfl, rfl, rfl⟩, rfl, rfl, rfl, rfl, rfl⟩

/-- A call of the full phase adds one to each series. -/
theorem fullPhase_within (h : Within F n n s) (inp : Input D) :
    Returns (fullPhase mp inp s) fun s' => SameSeries s s' ∧ Within F n (n + 1) s' := by
  rw [fullPhase_eq]
  refine Returns.bind (toPlocal_within h inp) ?_
  rintro s1 ⟨hs1, h1, -, -⟩
  refine (fromPlocal_series inp).mono ?_
  rintro s2 ⟨hs2, -, -, -, -, hr2⟩
  exact ⟨hs1.trans hs2, h1.congr hs2 (hr2 ▸ h1.hats)⟩

end Step

/-! ## Between calls -/

/-- After `n` stamps of a run with any configuration changes. -/
structure Running (F : Nat → BidirStamp D) (n : Nat) (s : AlgoState D) : Prop where
  pos : 0 < n
  idx : s.stampI + 1 = n
  hundred : 100 ≤ s.win.warmupWin
  stamps : Holds F n s.hist.stamp
  rtts : Holds (rttOf F) n s.hist.RTT
  win : Configured D s.win
  noHats : n < s.win.warmupWin → ∃ hats, Holds hats 0 s.hist.RTThat
  hats : s.win.warmupWin ≤ n → ∃ hats, Holds hats n s.hist.RTThat

/-- At the start of the call for stamp `n`, before and after a configuration change. -/
structure Starting (F : Nat → BidirStamp D) (n : Nat) (s : AlgoState D) : Prop where
  idx : s.stampI = n
  hundred : 100 ≤ s.win.warmupWin
  stamps : Holds F n s.hist.stamp
  rtts : Holds (rttOf F) n s.hist.RTT
  win : Configured D s.win
  noHats : n < s.win.warmupWin → ∃ hats, Holds hats 0 s.hist.RTThat
  hats : s.win.warmupWin ≤ n → ∃ hats, Holds hats n s.hist.RTThat

section Run

variable {F : Nat → BidirStamp D} {n : Nat} {s : AlgoState D} {mp : Metaparam D}

/-- The stamp counter as an unsigned index. -/
theorem Starting.si (h : Starting F n s) : s.si = n := si_of_idx h.idx

/-- Between two calls the next one is about to start. -/
theorem Running.starting (conf : Config D) (h : Running F n s) :
    Starting F n (nextStamp conf s) := by
  have hidx := h.idx
  have hpos := h.pos
  have hnext : nextStamp conf s = { s with stampI := s.stampI + 1 } :=
    nextStamp_later conf (by omega)
  rw [hnext]
  exact ⟨h.idx, h.hundred, h.stamps, h.rtts, h.win, h.noHats, h.hats⟩

/-- A configuration change stays in its phase. -/
theorem reactToUpdate_starting (conf : Config D) (h : Starting F n s) :
    Returns (reactToUpdate conf s) fun s' => Starting F n s' ∧
      (n < s.win.warmupWin ↔ n < s'.win.warmupWin) := by
  refine Returns.ite (fun _ => ?_) fun _ => Returns.pure ⟨h, Iff.rfl⟩
  have hsi := h.si
  have hok := newWindows_ok conf.metaparam conf.pollPeriod s.win
  have hundred := h.hundred
  refine (updateState_cases _ _ _).mono ?_
  rintro s' ⟨poll, -, ⟨hlt, rfl⟩ | ⟨hge, v, e, rfl⟩⟩
  · rw [hsi] at hlt
    obtain ⟨hats, hh⟩ := h.noHats hlt
    have hwarm : WarmWin (warmWindows s.si conf.pollPeriod
        (newWindows conf.metaparam conf.pollPeriod s.win)) :=
      warmWindows_ok conf.minPoll hok fun _ => hundred
    have hW : (warmWindows s.si conf.pollPeriod
        (newWindows conf.metaparam conf.pollPeriod s.win)).warmupWin =
        if n = 0 then max s.win.warmupWin (requiredWarmup conf) else requiredWarmup conf + n := by
      rw [← hsi]
      exact adjustedWarmup_new s.si conf s.win
    have hmore : n < (warmWindows s.si conf.pollPeriod
        (newWindows conf.metaparam conf.pollPeriod s.win)).warmupWin := by
      have hreq : 2 ≤ requiredWarmup conf :=
        Nat.le_trans hok.offset (Nat.le_max_left _ _)
      rw [hW]
      split <;> omega
    refine ⟨⟨h.idx, hwarm.hundred, h.stamps.resize _, h.rtts.resize _, configured_new _ _ s.win,
      fun _ => ⟨hats, hh.resize _⟩, fun hle => absurd hmore (Nat.not_lt.mpr hle)⟩, ?_⟩
    exact iff_of_true hlt hmore
  · rw [hsi] at hge
    obtain ⟨hats, hh⟩ := h.hats hge
    refine ⟨⟨h.idx, hundred, h.stamps.resize _, h.rtts.resize _,
      configured_new _ _ s.win, fun hlt => absurd hge (Nat.not_le.mpr hlt),
      fun _ => ⟨hats, hh.resize _⟩⟩, Iff.rfl⟩

/-- The stamp and its RTT are recorded. -/
theorem Starting.record {r : Nat} (h : Starting F n s)
    (hhats : ∃ hats, Holds hats r s.hist.RTThat) :
    Within F n r (recordStamp (F n) s) := by
  refine ⟨h.idx, ?_, ?_, h.win, hhats⟩
  · show Holds F (n + 1) (historyAdd s.hist.stamp s.si (F n))
    rw [h.si]
    exact h.stamps.add rfl
  · show Holds (rttOf F) (n + 1) (historyAdd s.hist.RTT s.si (F n).RTT)
    rw [h.si]
    exact h.rtts.add rfl

/-- The algorithms of the warmup do not touch the minima of the past. -/
theorem warmupAlgos_within (h : Within F n 0 s) (st : BidirStamp D) :
    Returns (warmupAlgos mp st s) fun s' => SameSeries s s' ∧ Within F n 0 s' := by
  refine (warmupAlgos_frame _ _ _).mono ?_
  rintro s1 ⟨i, owd, Df, Db, th, ends, phat, perr, t, off, bound, stt, out, rfl⟩
  exact ⟨⟨rfl, rfl, rfl, rfl, rfl, rfl, rfl, rfl⟩, h.idx, h.stamps, h.rtts, h.win, h.hats⟩

/-- The full algorithms start with a full RTThat history. -/
theorem startFull_within (h : Within F n 0 s) :
    Returns (startFull s) fun s' => SameSeries s s' ∧ Within F n (n + 1) s' := by
  obtain ⟨hats, hh⟩ := h.hats
  have hfill := holds_fill s.rtt.RTThat (n + 1) 0 _ hh.of_empty
  rw [Nat.zero_add] at hfill
  refine Returns.bind (initRTTOWDAsymFull_frame _) ?_
  rintro s2 ⟨r, f, b, rfl⟩
  refine (initPhatFull_frame _).mono ?_
  rintro s3 ⟨pst, perr, rfl⟩
  refine ⟨⟨rfl, rfl, rfl, rfl, rfl, rfl, rfl, rfl⟩, h.idx, h.stamps, h.rtts, h.win,
    fun _ => s.rtt.RTThat, ?_⟩
  show Holds _ (n + 1) (fillHistory s.rtt.RTThat 0 (s.si + 1) s.hist.RTThat)
  rw [h.si]
  exact hfill

/-- The start of the full phase fills them. -/
theorem initFull_within (h : Within F n 0 s) (st : BidirStamp D) :
    Returns (initFull st s) fun s' => SameSeries s s' ∧ Within F n (n + 1) s' := by
  rw [initFull_eq]
  refine Returns.bind (startFull_within h) ?_
  rintro s1 ⟨hsame, h1⟩
  refine Returns.bind (initPlocalFull_frame _) ?_
  rintro s2 ⟨e, ends, ploc, rfl⟩
  exact Returns.pure ⟨hsame.trans ⟨rfl, rfl, rfl, rfl, rfl, rfl, rfl, rfl⟩,
    ⟨h1.idx, h1.stamps, h1.rtts, h1.win, h1.hats⟩⟩

/-- A stamp of warmup; the last one fills the RTThat history. -/
theorem warmupPhase_within (h : Within F n 0 s) (hW : n < s.win.warmupWin) (st : BidirStamp D) :
    Returns (warmupPhase mp st s) fun s' => SameSeries s s' ∧
      (n + 1 < s.win.warmupWin → Within F n 0 s') ∧
      (s.win.warmupWin ≤ n + 1 → Within F n (n + 1) s') := by
  refine Returns.bind (warmupAlgos_within h st) ?_
  rintro s1 ⟨hsame, h1⟩
  have hpred : wsub s1.win.warmupWin 1 = s.win.warmupWin - 1 := by
    rw [hsame.warmupWin]
    exact wsub_of_le (by omega)
  refine Returns.ite (fun hlast => ?_) fun hmore => ?_
  · rw [h1.si, hpred] at hlast
    refine (initFull_within h1 st).mono ?_
    rintro s2 ⟨hsame2, h2⟩
    exact ⟨hsame.trans hsame2, fun hlt => absurd hlt (by omega), fun _ => h2⟩
  · rw [h1.si, hpred] at hmore
    exact Returns.pure ⟨hsame, fun _ => h1, fun hle => absurd hle (by omega)⟩

/-- The end of a call leaves series and windows alone. -/
theorem finish_running {r : Nat} (hw : Within F n r s) (hundred : 100 ≤ s.win.warmupWin)
    (hr : r = 0 ∧ n + 1 < s.win.warmupWin ∨ r = n + 1 ∧ s.win.warmupWin ≤ n + 1)
    (st : BidirStamp D) :
    Returns (do
      let s ← updateErrors mp st (copyStamp st s)
      pure (fillOutput st.RTT s)) (Running F (n + 1)) := by
  obtain ⟨stats, hcopy⟩ := copyStamp_frame st s
  rw [hcopy]
  refine Returns.bind (updateErrors_frame _ _ _) ?_
  rintro s1 ⟨err, rfl⟩
  have hidx : s.stampI + 1 = ((n + 1 : Nat) : Int) := by
    have := hw.idx
    omega
  refine Returns.pure ⟨Nat.succ_pos n, hidx, hundred, hw.stamps, hw.rtts, hw.win, ?_, ?_⟩
  · intro hlt
    rcases hr with ⟨rfl, -⟩ | ⟨-, hle⟩
    · exact hw.hats
    · exact absurd hlt (Nat.not_lt.mpr hle)
  · intro hle
    rcases hr with ⟨-, hlt⟩ | ⟨rfl, -⟩
    · exact absurd hle (Nat.not_le.mpr hlt)
    · exact hw.hats

/-- A call, once a configuration change has been reacted to. -/
theorem phases_running (hn : 0 < n) (conf : Config D) (inp : Input D) (hinp : inp.stamp = F n)
    (h : Starting F n s) :
    Returns (do
      let s ← phases conf inp (recordStamp inp.stamp s)
      let s ← updateErrors conf.metaparam inp.stamp (copyStamp inp.stamp s)
      pure (fillOutput inp.stamp.RTT s)) (Running F (n + 1)) := by
  have hsi := h.si
  have hidx := h.idx
  have hphases : phases conf inp (recordStamp inp.stamp s) =
      if s.si < s.win.warmupWin then warmupPhase conf.metaparam inp.stamp (recordStamp inp.stamp s)
      else fullPhase conf.metaparam inp (recordStamp inp.stamp s) :=
    if_neg (show ¬ s.stampI = 0 by omega)
  rw [hphases, hsi, hinp]
  by_cases hW : n < s.win.warmupWin
  · rw [if_pos hW]
    refine Returns.bind (warmupPhase_within (h.record (h.noHats hW)) hW (F n)) ?_
    rintro s1 ⟨hsame, hmore, hlast⟩
    have hWin : s1.win.warmupWin = s.win.warmupWin := hsame.warmupWin
    have hundred := h.hundred
    by_cases hle : s.win.warmupWin ≤ n + 1
    · exact finish_running (hlast hle) (by omega) (Or.inr ⟨rfl, by omega⟩) _
    · exact finish_running (hmore (Nat.not_le.mp hle)) (by omega) (Or.inl ⟨rfl, by omega⟩) _
  · rw [if_neg hW]
    have hge := Nat.not_lt.mp hW
    refine Returns.bind (fullPhase_within (h.record (h.hats hge)) inp) ?_
    rintro s1 ⟨hsame, h1⟩
    have hWin : s1.win.warmupWin = s.win.warmupWin := hsame.warmupWin
    have hundred := h.hundred
    exact finish_running h1 (by omega) (Or.inr ⟨rfl, by omega⟩) _

/-- One call. -/
theorem RADalgoBidir_running (conf : Config D) (inp : Input D) (hinp : inp.stamp = F n)
    (h : Running F n s) : Returns (RADalgoBidir conf inp s) (Running F (n + 1)) := by
  refine Returns.bind (reactToUpdate_starting conf (h.starting conf)) ?_
  rintro s1 ⟨h1, -⟩
  exact phases_running h.pos conf inp hinp h1

/-- Before the first call. -/
theorem starting_first (F : Nat → BidirStamp D) (conf : Config D) :
    Starting F 0 (nextStamp conf (AlgoState.zero : AlgoState D)) := by
  have hinit := init_firstStamp F conf
  refine ⟨hinit.idx, hinit.win.hundred, hinit.stamps, hinit.rtts,
    configured_new conf.metaparam conf.pollPeriod (AlgoState.zero : AlgoState D).win, fun _ =>
      hinit.noHats, fun hle => ?_⟩
  have := hinit.win.hundred
  omega

/-- The first stamp. -/
theorem RADalgoBidir_running_first (conf : Config D) (inp : Input D) (hinp : inp.stamp = F 0) :
    Returns (RADalgoBidir conf inp AlgoState.zero) (Running F 1) := by
  refine Returns.bind (reactToUpdate_starting conf (starting_first F conf)) ?_
  rintro s1 ⟨h1, -⟩
  have hundred := h1.hundred
  have hphase : phases conf inp (recordStamp inp.stamp s1) =
      pure (initPhase conf inp.stamp (recordStamp inp.stamp s1)) := if_pos h1.idx
  rw [hphase, hinp]
  have hrec := h1.record (h1.noHats (by omega))
  have hw : Within F 0 0 (initPhase conf (F 0) (recordStamp (F 0) s1)) :=
    ⟨hrec.idx, hrec.stamps, hrec.rtts, hrec.win, hrec.hats⟩
  exact finish_running hw hundred (Or.inl ⟨rfl, show 0 + 1 < s1.win.warmupWin by omega⟩) _

/-- What every call makes of the next index, every list of calls makes of its length. -/
theorem runFrom_returns {I : Nat → AlgoState D → Prop} {C : Call D → AlgoState D → Prop}
    (hstep : ∀ n c s, c.inp.stamp = F n → I n s → C c s →
      Returns (RADalgoBidir c.conf c.inp s) (I (n + 1))) (cs : List (Call D)) :
    ∀ n s, I n s → Follows F n cs → RunMeets C cs s →
      Returns (runFrom cs s) (I (n + cs.length)) := by
  induction cs with
  | nil => exact fun n s h _ _ => Returns.pure h
  | cons c cs ih =>
    intro n s h hf hm
    refine Returns.bind ((hstep n c s hf.head h hm.1).and (fun s' => hm.2 s')) ?_
    rintro s' ⟨h', hm'⟩
    have hrest := ih (n + 1) s' h' hf.tail hm'
    rw [show n + 1 + cs.length = n + (c :: cs).length by rw [List.length_cons]; omega] at hrest
    exact hrest

/-- A rule for runs: one call establishes the invariant, and the others keep it. -/
theorem run_returns {I : Nat → AlgoState D → Prop} {C : Call D → AlgoState D → Prop}
    {c : Call D} {cs : List (Call D)}
    (hfirst : c.inp.stamp = F 0 → C c AlgoState.zero →
      Returns (RADalgoBidir c.conf c.inp AlgoState.zero) (I 1))
    (hstep : ∀ n c s, c.inp.stamp = F n → I n s → C c s →
      Returns (RADalgoBidir c.conf c.inp s) (I (n + 1)))
    (hf : Follows F 0 (c :: cs)) (hm : RunMeets C (c :: cs) AlgoState.zero) :
    Returns (run (c :: cs)) (I (c :: cs).length) := by
  refine Returns.bind ((hfirst hf.head hm.1).and (fun s' => hm.2 s')) ?_
  rintro s' ⟨h', hm'⟩
  have hrun := runFrom_returns hstep cs 1 s' h' hf.tail hm'
  rw [List.length_cons, Nat.add_comm]
  exact hrun

omit [Arith D] in
/-- Nothing is asked of the steps. -/
theorem RunMeets.trivial [Arith D] (cs : List (Call D)) (s : AlgoState D) :
    RunMeets (fun _ _ => True) cs s :=
  RunMeets.of_forall (fun _ _ _ => True.intro) s

/-- After any run, the series are as they should be. -/
theorem run_running {c : Call D} {cs : List (Call D)} (hf : Follows F 0 (c :: cs)) :
    Returns (run (c :: cs)) (Running F (c :: cs).length) :=
  run_returns (C := fun _ _ => True) (fun h _ => RADalgoBidir_running_first _ _ h)
    (fun _ c _ h hI _ => RADalgoBidir_running c.conf c.inp h hI) hf (RunMeets.trivial _ _)

/-- Before the next call of any run. -/
theorem run_starting (cs : List (Call D)) (conf : Config D) (hf : Follows F 0 cs) :
    Returns (run cs) fun s => Starting F cs.length (nextStamp conf s) := by
  cases cs with
  | nil => exact Returns.pure (starting_first _ conf)
  | cons c₀ cs => exact (run_running hf).mono fun s h => h.starting conf

/-- The last statements of a call. -/
def endCall (mp : Metaparam D) (st : BidirStamp D) (s : AlgoState D) : Algo D (AlgoState D) := do
  let s ← updateErrors mp st (copyStamp st s)
  pure (fillOutput st.RTT s)

/-- A call in three parts: the stamp recorded and the parameters, the phase, and the output. -/
theorem RADalgoBidir_eq (c : Call D) (s : AlgoState D) : RADalgoBidir c.conf c.inp s =
    beginCall c s >>= phases c.conf c.inp >>= endCall c.conf.metaparam c.inp.stamp := by
  unfold RADalgoBidir beginCall endCall
  simp only [bind_assoc, pure_bind]

/-- A call without update of the configuration, after the first stamp. -/
theorem beginCall_idle (c : Call D) (hupd : c.conf.algoUpdate = false) (hidx : 0 ≤ s.stampI) :
    beginCall c s = pure (recordStamp c.inp.stamp { s with stampI := s.stampI + 1 }) := by
  have hnext : nextStamp c.conf s = { s with stampI := s.stampI + 1 } :=
    nextStamp_later c.conf (by omega)
  unfold beginCall reactToUpdate
  rw [if_neg (by rw [hupd]; decide), hnext, pure_bind]

/-- The end of a call keeps all the series. -/
theorem endCall_series (st : BidirStamp D) : Returns (endCall mp st s) fun s' =>
    SameSeries s s' ∧ s'.ends = s.ends ∧ s'.ploc = s.ploc := by
  obtain ⟨stats, hcopy⟩ := copyStamp_frame st s
  unfold endCall
  rw [hcopy]
  refine Returns.bind (updateErrors_frame _ _ _) ?_
  rintro s1 ⟨err, rfl⟩
  exact Returns.pure ⟨⟨rfl, rfl, rfl, rfl, rfl, rfl, rfl, rfl⟩, rfl, rfl⟩

/-- The next call of any run, once its stamp has been recorded. -/
theorem run_beginCall (cs : List (Call D)) (c : Call D) (hf : Follows F 0 (cs ++ [c])) :
    Returns (run cs >>= beginCall c) fun s => s.si = cs.length ∧ 100 ≤ s.win.warmupWin ∧
      (s.si < s.win.warmupWin → Within F cs.length 0 s) ∧
      (s.win.warmupWin ≤ s.si → Within F cs.length cs.length s) := by
  have hinp : c.inp.stamp = F cs.length := by
    have h := hf.right.head
    rw [Nat.zero_add] at h
    exact h
  refine Returns.bind (run_starting cs c.conf hf.left) fun s h => ?_
  refine Returns.bind (reactToUpdate_starting c.conf h) ?_
  rintro s1 ⟨h1, -⟩
  rw [hinp]
  refine Returns.pure ⟨h1.si, h1.hundred, fun hwarm => h1.record (h1.noHats ?_),
    fun hfull => h1.record (h1.hats ?_)⟩
  · rw [← h1.si]
    exact hwarm
  · rw [← h1.si]
    exact hfull

end Run

end RADclock
