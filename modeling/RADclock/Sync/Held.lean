import RADclock.Sync.Invariant

/-!
# Lookups that are held

With histories large enough for the windows, every lookup of a call asks for an index the
history holds, and no call halts.

- `Stocked sz n h`: of `n` items added, `h` holds the last `sz`, or all.
- `Stock`: the histories that are looked up, each with its size and count.
- `Fits`: the sizes the windows of the full phase ask for.

In warmup nothing has been lost yet. In the full phase the shift windows end one window
back, which takes a history one slot longer than the window.
-/

namespace RADclock

open Lib Lib.Exec

variable {D : Type}

/-! ## Stocked histories -/

/-- A history of `sz` slots that has lost none of `n` items without need. -/
structure Stocked {α : Type} (sz n : Nat) (h : History α) : Prop where
  size : h.bufferSz = sz
  holds : ∃ f : Nat → α, Holds f n h
  dense : Dense n h

section Stocked

variable {α : Type} {sz n : Nat} {h : History α}

/-- A new history is stocked with nothing. -/
theorem stocked_init [Zero α] (name : HistName) (sz : Nat) :
    Stocked sz 0 (historyInit name sz : History α) :=
  ⟨rfl, ⟨fun _ => 0, holds_init _ _ _⟩, dense_init _ _⟩

/-- One item more is kept until the capacity is reached, and then replaces the oldest. -/
theorem Stocked.add (hs : Stocked sz n h) (item : α) :
    Stocked sz (n + 1) (historyAdd h n item) := by
  obtain ⟨f, hh⟩ := hs.holds
  have hh' : Holds (Function.update f n item) n h :=
    ⟨hh.newest, hh.range, hh.fits, fun j h1 h2 => by
      rw [Function.update_of_ne (by omega)]
      exact hh.slot j h1 h2⟩
  exact ⟨(historyAdd_bufferSz _ _ _).trans hs.size,
    ⟨_, hh'.add (Function.update_self _ _ _)⟩, hs.dense.add hh item⟩

/-- The oldest item is the capacity back. -/
theorem Stocked.oldest (hs : Stocked sz n h) : h.oldestI = n - sz := by
  obtain ⟨f, hh⟩ := hs.holds
  rw [hs.dense.oldest hh, hs.size]

/-- What `history_old` returns, once there is an item. -/
theorem Stocked.old (hs : Stocked sz n h) (hn : 0 < n) (hsz : 0 < sz) :
    historyOld h = n - sz := by
  rw [historyOld_eq (hs.dense.itemCount_ne_zero hn (by rw [hs.size]; exact hsz)), hs.oldest]

/-- A smaller capacity keeps the last items; a larger one all of them, if none had been dropped. -/
theorem Stocked.resize [Zero α] (hs : Stocked sz n h) {sz' : Nat} (hsz : sz' ≤ sz ∨ n ≤ sz) :
    Stocked sz' n (historyResize h sz') := by
  obtain ⟨f, hh⟩ := hs.holds
  refine ⟨historyResize_bufferSz _ _, ⟨f, hh.resize _⟩, hs.dense.resize ?_⟩
  rw [hs.size]
  exact hsz

/-- The lookups from `lo` on are held. -/
theorem Stocked.okFrom (hs : Stocked sz n h) {lo : Nat} (hlo : n ≤ lo + sz) :
    OkFrom (D := D) Event.Held False h lo n := by
  obtain ⟨f, hh⟩ := hs.holds
  refine okFrom_of_held hh (fun _ _ _ _ h1 h2 => ⟨h1, h2⟩) ?_
  rw [hs.oldest]
  omega

/-- Items may be replaced. -/
theorem Stocked.congr {h' : History α} (hs : Stocked sz n h) (hsame : SameShape h h')
    (hh : ∃ f : Nat → α, Holds f n h') : Stocked sz n h' := by
  refine ⟨hsame.bufferSz.trans hs.size, hh, ?_⟩
  have hd := hs.dense
  unfold Dense at hd ⊢
  rw [hsame.itemCount, hsame.bufferSz]
  exact hd

end Stocked

/-- The histories that are looked up: `k` stamps and RTTs, `m` one-way delays, `t` naive
offsets, `r` estimates of the RTT. -/
structure Stock (z : HistSizes) (k m t r : Nat) (h : Hists D) : Prop where
  stamp : Stocked z.stamp k h.stamp
  RTT : Stocked z.RTT k h.RTT
  Df : Stocked z.RTT m h.Df
  Db : Stocked z.RTT m h.Db
  thnaive : Stocked z.thnaive t h.thnaive
  RTThat : Stocked z.RTThat r h.RTThat

/-- Every history of size `W`, as during warmup. -/
def evenSizes (W : Nat) : HistSizes := ⟨W, W, W, W⟩

variable [Arith D]

omit [Arith D] in
/-- Lookups are all that is asked about. -/
theorem diffOk_held (F : Nat → BidirStamp D) (n : Nat) : DiffOk Event.Held F n :=
  ⟨fun _ _ _ _ => True.intro, fun _ _ _ _ => True.intro⟩

section Warmup

variable {F : Nat → BidirStamp D} {n W : Nat} {s : AlgoState D} {mp : Metaparam D}

/-! ## Warmup -/

omit [Arith D] in
/-- The safe left end of a window does not pass the current stamp. -/
theorem safeJmin_le {least win : Nat} (h : least ≤ n) : safeJmin least n win ≤ n := by
  unfold safeJmin
  split <;> omega

/-- During warmup nothing has been dropped, so the ends of the warmup are held. -/
theorem processPhatWarmup_held (hat : At F n s) (h : Warm F (n + 1) (n + 1) n s)
    (hst : Stock (evenSizes W) (n + 1) (n + 1) n 0 s.hist) (hW : n + 1 ≤ W) :
    Sat Event.Held False (processPhatWarmup (F n).RTT s) (fun s' =>
      (At F n s' ∧ s'.win = s.win ∧ Warm F (n + 1) (n + 1) (n + 1) s') ∧
        Stock (evenSizes W) (n + 1) (n + 1) n 0 s'.hist) := by
  refine ((processPhatWarmup_sat hat.pos hat.si h.stamps h.rtts h.ends
    (hst.stamp.okFrom (show n + 1 ≤ 0 + W by omega)) (hst.RTT.okFrom (show n + 1 ≤ 0 + W by omega))
    (diffOk_held F n)).and_returns ((processPhatWarmup_keeps (accepts_any F n) hat h).returns.and
      (processPhatWarmup_frame _ _))).mono ?_
  rintro s' ⟨-, hk, ends, K, phat, perr, rfl⟩
  exact ⟨hk, hst⟩

/-- So is the offset window. -/
theorem processThetahatWarmup_held (hat : At F n s) (h : Warm F (n + 1) (n + 1) (n + 1) s)
    (hst : Stock (evenSizes W) (n + 1) (n + 1) n 0 s.hist) (hW : n + 1 ≤ W) :
    Sat Event.Held False (processThetahatWarmup mp (F n) s) (fun s' =>
      (At F n s' ∧ s'.win = s.win ∧ Warm F (n + 1) (n + 1) (n + 1) s') ∧
        Stock (evenSizes W) (n + 1) (n + 1) (n + 1) 0 s'.hist) := by
  have hsi := hat.si
  have hpos := hat.pos
  have hth : Stocked W (n + 1) (thnaiveNext F n s) := by
    unfold thnaiveNext
    rw [hsi]
    exact hst.thnaive.add _
  -- the window is cut at the oldest item of each history
  have hjmin : warmupJmin (recordTheta (naiveTheta s (F n)) s) ≤ n := by
    have h1 : safeJmin 1 n (thetaWin (recordTheta (naiveTheta s (F n)) s)) ≤ n :=
      safeJmin_le hpos
    have h2 : historyOld s.hist.RTT = n + 1 - W :=
      hst.RTT.old (Nat.succ_pos n) (show 0 < W by omega)
    have h3 : historyOld (thnaiveNext F n s) = n + 1 - W := hth.old (Nat.succ_pos n) (by omega)
    unfold warmupJmin
    show max (safeJmin 1 s.si _) (max (historyOld s.hist.RTT) (historyOld (thnaiveNext F n s))) ≤ n
    rw [hsi, h2, h3]
    omega
  refine ((processThetahatWarmup_sat hsi hpos rfl h.stamps h.rtts
    (hst.stamp.okFrom (by show _ ≤ _ + W; omega)) (hst.RTT.okFrom (by show _ ≤ _ + W; omega))
    (hth.okFrom (by omega)) (fun hlt => absurd hlt (Nat.not_lt.mpr hjmin)) (diffOk_held F n)
    True.intro).and_returns ((processThetahatWarmup_keeps (accepts_any F n) hat h).returns.and
      (processThetahatWarmup_frame _ _ _))).mono ?_
  rintro s' ⟨-, hk, t, off, err, stt, out, rfl, -⟩
  exact ⟨hk, hst.stamp, hst.RTT, hst.Df, hst.Db, hth, hst.RTThat⟩

/-- The first algorithms of the warmup, and the stock they leave. -/
theorem beforeTheta_held (hat : At F n s) (h : Warm F (n + 1) (n + 1) n s)
    (hst : Stock (evenSizes W) (n + 1) n n 0 s.hist) (hW : n + 1 ≤ W) :
    Sat Event.Held False (beforeTheta (F n) s) (fun s' =>
      (At F n s' ∧ s'.win = s.win ∧ Warm F (n + 1) (n + 1) (n + 1) s') ∧
        Stock (evenSizes W) (n + 1) (n + 1) n 0 s'.hist) := by
  have hsi := hat.si
  obtain ⟨hat0, hw0, h0⟩ := warmupPath_keeps hat h _ rfl
  have hst0 : Stock (evenSizes W) (n + 1) (n + 1) n 0
      (processOWDAsymWarmup (F n) (processRTTWarmup (F n).RTT s)).hist := by
    obtain ⟨i, owd, Df, Db, -, heq⟩ := warmupPath_frame (F n) (F n).RTT s
    rw [heq, hsi]
    exact ⟨hst.stamp, hst.RTT, hst.Df.add _, hst.Db.add _, hst.thnaive, hst.RTThat⟩
  refine Sat.bind (processPhatWarmup_held hat0 h0 hst0 hW) ?_
  rintro s1 ⟨⟨hat1, hw1, h1⟩, hst1⟩
  exact Sat.pure ⟨⟨⟨hat1.pos, hat1.idx, hat1.last⟩, hw1.trans hw0, ⟨h1.stamps, h1.rtts, h1.theta⟩,
    h1.win, h1.ends, h1.pstampI, h1.noHats, h1.fresh⟩, hst1⟩

/-- The algorithms of the warmup together. -/
theorem warmupAlgos_held (hat : At F n s) (h : Warm F (n + 1) (n + 1) n s)
    (hst : Stock (evenSizes W) (n + 1) n n 0 s.hist) (hW : n + 1 ≤ W) :
    Sat Event.Held False (warmupAlgos mp (F n) s) (fun s' =>
      (At F n s' ∧ s'.win = s.win ∧ Warm F (n + 1) (n + 1) (n + 1) s') ∧
        Stock (evenSizes W) (n + 1) (n + 1) (n + 1) 0 s'.hist) := by
  rw [warmupAlgos_eq]
  refine Sat.bind (beforeTheta_held hat h hst hW) ?_
  rintro s1 ⟨⟨hat1, hw1, h1⟩, hst1⟩
  refine Sat.bind (processThetahatWarmup_held hat1 h1 hst1 hW) ?_
  rintro s2 ⟨⟨hat2, hw2, h2⟩, hst2⟩
  obtain ⟨out, stt, hfin⟩ := finishWarmup_frame mp s2
  refine Sat.pure ?_
  rw [hfin]
  exact ⟨⟨⟨hat2.pos, hat2.idx, hat2.last⟩, hw2.trans hw1,
    ⟨⟨h2.stamps, h2.rtts, h2.theta⟩, h2.win, h2.ends, h2.pstampI, h2.noHats, h2.fresh⟩⟩, hst2⟩

/-! ## End of warmup -/

omit [Arith D] in
/-- Filling adds so many items. -/
theorem Stocked.fill {sz j : Nat} {h : History VCounter} (hs : Stocked sz j h) (v : VCounter)
    (m : Nat) : Stocked sz (j + m) (fillHistory v j m h) := by
  induction m generalizing j h with
  | zero => exact hs
  | succ m ih =>
    have hrest := ih (hs.add v)
    rw [show j + 1 + m = j + (m + 1) by omega] at hrest
    exact hrest

/-- Where the shift windows start at the end of warmup, when nothing has been lost. -/
def shiftStart (shiftWin n : Nat) : Nat := if shiftWin < n then n - (shiftWin - 1) else 0

/-- The full algorithms have been started from stamp `n`, with the windows `w`. -/
structure Started (F : Nat → BidirStamp D) (W n : Nat) (w : Windows) (s : AlgoState D) :
    Prop where
  stock : Stock (evenSizes W) (n + 1) (n + 1) (n + 1) (n + 1) s.hist
  shift : s.win.shiftEnd = shiftStart w.shiftWin n
  shiftOWD : s.win.shiftEndOWD = shiftStart w.shiftWin n
  shiftMin : MinRTT F (shiftStart w.shiftWin n) n s.rtt.RTThatShift
  shiftWin : s.win.shiftWin = w.shiftWin
  plocalWin : s.win.plocalWin = w.plocalWin
  offsetWin : s.win.offsetWin = w.offsetWin
  hWin : s.win.hWin = w.hWin
  historyEnd : s.win.historyEnd = wsub w.hWin 1

omit [Arith D] in
/-- The shift window starts its width back, or at the first stamp. -/
theorem initShiftEnd_eq (hsi : s.si = n) (hsw : 1 ≤ s.win.shiftWin)
    (hst : Stocked W (n + 1) s.hist.RTT) (hW : n + 1 ≤ W) :
    initShiftEnd s = shiftStart s.win.shiftWin n := by
  unfold initShiftEnd shiftStart
  rw [hst.old (Nat.succ_pos n) (by omega), hsi, wsub_of_le hsw]
  omega

/-- The shift window of the start is held. -/
theorem initRTTOWDAsymFull_held (hat : At F n s) (h : Warm F (n + 1) (n + 1) (n + 1) s)
    (hW : s.win.warmupWin = n + 1)
    (hst : Stock (evenSizes W) (n + 1) (n + 1) (n + 1) 0 s.hist) (hn : n + 1 ≤ W) {e : Nat}
    (he : e = wsub s.win.hWin 1) :
    Sat Event.Held False (initRTTOWDAsymFull { s with win := { s.win with historyEnd := e } })
      (fun s' => (At F n s' ∧ s'.win.warmupWin = n + 1 ∧ Ending F n s') ∧
        Started F W n s.win s') := by
  have hsw : 1 ≤ s.win.shiftWin := by
    have := h.win.shift
    omega
  -- the left end is the width back, or the first stamp
  have hend : initShiftEnd { s with win := { s.win with historyEnd := e } } =
      shiftStart s.win.shiftWin n :=
    initShiftEnd_eq (s := { s with win := { s.win with historyEnd := e } }) hat.si hsw hst.RTT hn
  obtain ⟨f, hf⟩ := hst.Df.holds
  obtain ⟨b, hb⟩ := hst.Db.holds
  refine ((initRTTOWDAsymFull_sat (s := { s with win := { s.win with historyEnd := e } }) hat.si
    hf hb h.rtts ?_ (hst.Df.okFrom (show n + 1 ≤ _ + W by omega))
    (hst.Db.okFrom (show n + 1 ≤ _ + W by omega))
    (hst.RTT.okFrom (show n + 1 ≤ _ + W by omega))).and_returns
    ((initRTTOWDAsymFull_keeps (accepts_any F n) hat h hW e).returns.and
      (initRTTOWDAsymFull_frame _))).mono ?_
  · rw [hend]
    unfold shiftStart
    split <;> omega
  · rintro s' ⟨hmin, hk, r, f, b, rfl⟩
    rw [hend] at hmin
    refine ⟨hk, ⟨⟨hst.stamp, hst.RTT, hst.Df, hst.Db, hst.thnaive, ?_⟩, hend, hend, hmin, rfl,
      rfl, rfl, rfl, he⟩⟩
    show Stocked W (n + 1) (fillHistory s.rtt.RTThat 0 (s.si + 1) s.hist.RTThat)
    -- filling adds as many items as the others have
    have hfill := hst.RTThat.fill s.rtt.RTThat (n + 1)
    rw [Nat.zero_add] at hfill
    rw [hat.si]
    exact hfill

/-- The start of the full phase looks up stamps of the warmup, which are all held. -/
theorem initFull_held (hat : At F n s) (h : Warm F (n + 1) (n + 1) (n + 1) s)
    (hW : s.win.warmupWin = n + 1)
    (hst : Stock (evenSizes W) (n + 1) (n + 1) (n + 1) 0 s.hist) (hn : n + 1 ≤ W) :
    Sat Event.Held False (initFull (F n) s) (fun s' => (At F n s' ∧
      Full F (n + 1) (n + 1) (n + 1) (n + 1) s' ∧ s'.win.warmupWin ≤ n + 1) ∧
        Started F W n s.win s') := by
  refine Sat.bind (initRTTOWDAsymFull_held hat h hW hst hn rfl) ?_
  rintro s1 ⟨⟨hat1, hw1, h1⟩, hs1⟩
  refine Sat.bind (((initPhatFull_sat h1.stamps h1.rtts
    (hs1.stock.stamp.okFrom (show n + 1 ≤ 0 + W by omega))
    (hs1.stock.RTT.okFrom (show n + 1 ≤ 0 + W by omega)) h1.pstampI h1.near h1.far).and_returns
    ((initPhatFull_keeps (accepts_any F n) hat1 h1).returns.and (initPhatFull_frame s1)))) ?_
  rintro s2 ⟨-, ⟨hat2, hw2, h2, hp2⟩, st, perr, rfl⟩
  refine Sat.bind (((initPlocalFull_sat hat2.si h2.win.ten_le_plocal h2.reach h2.rtts
    (hs1.stock.RTT.okFrom (show n + 1 ≤ _ + W by omega))).and_returns
    ((initPlocalFull_keeps (accepts_any F n) hat2 h2 hp2).returns.and
      (initPlocalFull_frame _)))) ?_
  rintro s3 ⟨-, ⟨hat3, hw3, h3⟩, e, ends, ploc, rfl⟩
  refine Sat.pure ⟨⟨⟨hat3.pos, hat3.idx, hat3.last⟩,
    ⟨⟨h3.stamps, h3.rtts, ⟨n, Nat.lt_succ_self n, rfl⟩⟩, h3.win, h3.reach, h3.ends, h3.pstamp,
      h3.next, h3.hats⟩, ?_⟩, ⟨hs1.stock, hs1.shift, hs1.shiftOWD, hs1.shiftMin, hs1.shiftWin,
      hs1.plocalWin, hs1.offsetWin, hs1.hWin, hs1.historyEnd⟩⟩
  exact Nat.le_of_eq hw1

/-- A call of the warmup phase looks up nothing that was dropped. -/
theorem warmupPhase_held (hat : At F n s) (h : Warm F (n + 1) (n + 1) n s)
    (hst : Stock (evenSizes s.win.warmupWin) (n + 1) n n 0 s.hist) (hW : n < s.win.warmupWin) :
    Sat Event.Held False (warmupPhase mp (F n) s) (fun s' => At F n s' ∧
      ((Warm F (n + 1) (n + 1) (n + 1) s' ∧ n + 1 < s'.win.warmupWin) ∧ s'.win = s.win ∧
          Stock (evenSizes s.win.warmupWin) (n + 1) (n + 1) (n + 1) 0 s'.hist ∨
        (Full F (n + 1) (n + 1) (n + 1) (n + 1) s' ∧ s'.win.warmupWin ≤ n + 1) ∧
          Started F (n + 1) n s.win s' ∧ s.win.warmupWin = n + 1)) := by
  refine Sat.bind (warmupAlgos_held hat h hst hW) ?_
  rintro s1 ⟨⟨hat1, hw1, h1⟩, hst1⟩
  have hpred : wsub s1.win.warmupWin 1 = s1.win.warmupWin - 1 := by
    rw [hw1]
    exact wsub_of_le (by omega)
  refine Sat.ite (fun hlast => ?_) fun hmore => ?_
  · rw [hat1.si, hpred, hw1] at hlast
    have hn : s.win.warmupWin = n + 1 := by omega
    rw [hn] at hst1
    refine (initFull_held hat1 h1 (hw1 ▸ hn) hst1 (Nat.le_refl _)).mono ?_
    rintro s2 ⟨⟨hat2, h2⟩, hs2⟩
    rw [hw1] at hs2
    exact ⟨hat2, Or.inr ⟨h2, hs2, hn⟩⟩
  · rw [hat1.si, hpred, hw1] at hmore
    exact Sat.pure ⟨hat1, Or.inl ⟨⟨h1, by rw [hw1]; omega⟩, hw1, hst1⟩⟩

end Warmup

/-! ## Full phase -/

/-- The sizes the windows of the full phase ask for. -/
structure Fits (z : HistSizes) (w : Windows) : Prop where
  stamp : plocalReach w.plocalWin < z.stamp
  RTT : plocalReach w.plocalWin < z.RTT
  shift : w.shiftWin < z.RTT
  RTThat : min w.offsetWin w.shiftWin ≤ z.RTThat
  thnaive : 0 < z.thnaive

/-- Whether the capacities fit is a matter of three windows. -/
theorem Fits.congr {z : HistSizes} {w w' : Windows} (h : Fits z w)
    (hp : w'.plocalWin = w.plocalWin) (hs : w'.shiftWin = w.shiftWin)
    (ho : w'.offsetWin = w.offsetWin) : Fits z w' :=
  ⟨hp ▸ h.stamp, hp ▸ h.RTT, hs ▸ h.shift, by rw [ho, hs]; exact h.RTThat, h.thnaive⟩

/-- Histories that fit, and shift windows that are full. -/
structure FullStock (z : HistSizes) (k m t r : Nat) (s : AlgoState D) : Prop where
  stock : Stock z k m t r s.hist
  fits : Fits z s.win
  shift : s.win.shiftEnd + s.win.shiftWin = r
  shiftOWD : s.win.shiftEndOWD + s.win.shiftWin = m

section FullPhase

variable {F : Nat → BidirStamp D} {n : Nat} {s : AlgoState D} {mp : Metaparam D} {z : HistSizes}

/-- The slide of the history window looks up half of it back, which is held. -/
theorem manageHistorywin_held (hat : At F n s) (h : Full F (n + 1) (n + 1) n n s)
    (hst : FullStock z (n + 1) n n n s) (RTT : VCounter) :
    Sat Event.Held False (manageHistorywin (F n) RTT s) (fun s' =>
      (At F n s' ∧ s'.win.warmupWin = s.win.warmupWin ∧ Full F (n + 1) (n + 1) n n s') ∧
        FullStock z (n + 1) n n n s') := by
  have hpos := hat.pos
  have hfit := hst.fits.shift
  refine ((manageHistorywin_sat hpos hat.si
    (hst.stock.Df.okFrom (show n ≤ n - 1 + z.RTT by omega) _ (Nat.le_refl _) (by omega))
    (hst.stock.Db.okFrom (show n ≤ n - 1 + z.RTT by omega) _ (Nat.le_refl _) (by omega))
    True.intro (fun _ => True.intro)).and_returns
    ((manageHistorywin_keeps (accepts_any F n) hat h RTT).returns.and
      (manageHistorywin_cases _ _ _))).mono ?_
  rintro s' ⟨-, hk, s1, hs1, hcase⟩
  refine ⟨hk, ?_⟩
  have hst1 : FullStock z (n + 1) n n n s1 := by
    by_cases hhalf : s.si = s.win.hWin / 2
    · rw [if_pos hhalf] at hs1
      subst hs1
      exact ⟨hst.stock, hst.fits.congr rfl rfl rfl, hst.shift, hst.shiftOWD⟩
    · rw [if_neg hhalf] at hs1
      subst hs1
      exact hst
  rcases hcase with ⟨-, Df, Db, rfl⟩ | ⟨-, rfl⟩
  · exact ⟨hst1.stock, hst1.fits.congr rfl rfl rfl, hst1.shift, hst1.shiftOWD⟩
  · exact hst1

omit [Arith D] in
/-- An upshift is corrected no further back than the RTThat history reaches. -/
theorem upshiftJmin_fits (hsi : s.si = n) (hw : WinOk s.win) (hfit : Fits z s.win)
    (hn : s.win.shiftWin ≤ n) : 1 ≤ upshiftJmin s ∧ n + 1 ≤ upshiftJmin s + z.RTThat := by
  have h1 := hw.offset
  have h2 := hfit.RTThat
  unfold upshiftJmin lastshift
  dsimp only
  rw [hsi, wsub_of_le (show s.win.shiftWin ≤ n + 1 by omega),
    wsub_of_le (show 1 ≤ s.win.offsetWin by omega)]
  split <;> omega

/-- So is the left end of the shift window, and what an upshift rewrites. -/
theorem processRTTFull_held (hat : At F n s) (h : Full F (n + 1) (n + 1) n n s)
    (hst : FullStock z (n + 1) n n n s) :
    Sat Event.Held False (processRTTFull (F n).RTT s) (fun s' =>
      (At F n s' ∧ s'.win.warmupWin = s.win.warmupWin ∧ Full F (n + 1) (n + 1) n (n + 1) s') ∧
        FullStock z (n + 1) n n (n + 1) s') := by
  have hsw := h.win.shift
  have hfit := hst.fits.shift
  have hend := hst.shift
  -- an upshift goes back half a shift window at most
  obtain ⟨hjmin, hback⟩ := upshiftJmin_fits hat.si h.win hst.fits (by omega)
  have hpred : wsub s.win.shiftWin 1 = s.win.shiftWin - 1 := wsub_of_le (by omega)
  obtain ⟨hats, hh⟩ := h.hats
  have hadd := hst.stock.RTThat.add (min s.rtt.RTThat (rttOf F n))
  refine ((processRTTFull_sat hat.pos hat.si h.rtts hh (by omega) hjmin
    (fun _ => hst.stock.RTT.okFrom (by omega)) (hadd.okFrom hback)).and_returns
    ((processRTTFull_keeps (accepts_any F n) hat h _).returns.and
      (processRTTFull_frame _ _))).mono ?_
  rintro s' ⟨⟨v, hsame, hshift, -, hhats⟩, hk, rtt, e, perr, nhat, h', stt, rfl⟩
  -- rewritten or not, the minima of the past are held
  have hh' : ∃ f : Nat → VCounter, Holds f (n + 1) h' := by
    rcases hhats with ⟨-, hh'⟩ | ⟨-, hh'⟩
    · exact ⟨_, hh'⟩
    · exact ⟨_, hh'⟩
  refine ⟨hk, ⟨⟨hst.stock.stamp, hst.stock.RTT, hst.stock.Df, hst.stock.Db, hst.stock.thnaive,
    hadd.congr hsame hh'⟩, ⟨hst.fits.stamp, hst.fits.RTT, hst.fits.shift, hst.fits.RTThat,
    hst.fits.thnaive⟩, ?_, hst.shiftOWD⟩⟩
  rw [hpred] at hshift
  change (n < s.win.shiftWin - 1 + s.win.shiftEnd ∧ e = s.win.shiftEnd ∨
    s.win.shiftWin - 1 + s.win.shiftEnd ≤ n ∧ e = s.win.shiftEnd + 1) at hshift
  show e + s.win.shiftWin = n + 1
  omega

/-- The one-way shift window is no longer than its histories. -/
theorem processOWDAsymFull_held (hat : At F n s) (h : Full F (n + 1) (n + 1) n (n + 1) s)
    (hst : FullStock z (n + 1) n n (n + 1) s) (st : BidirStamp D) :
    Sat Event.Held False (processOWDAsymFull st s) (fun s' =>
      (At F n s' ∧ s'.win.warmupWin = s.win.warmupWin ∧ Full F (n + 1) (n + 1) n (n + 1) s') ∧
        FullStock z (n + 1) (n + 1) n (n + 1) s') := by
  have hsw := h.win.shift
  have hfit := hst.fits.shift
  have hend := hst.shiftOWD
  have hpred : wsub s.win.shiftWin 1 = s.win.shiftWin - 1 := wsub_of_le (by omega)
  have hDf : Stocked z.RTT (n + 1) (historyAdd s.hist.Df s.si (rawOWD s st).1) := by
    rw [hat.si]
    exact hst.stock.Df.add _
  have hDb : Stocked z.RTT (n + 1) (historyAdd s.hist.Db s.si (rawOWD s st).2) := by
    rw [hat.si]
    exact hst.stock.Db.add _
  obtain ⟨f, hf⟩ := hDf.holds
  obtain ⟨b, hb⟩ := hDb.holds
  -- both one-way windows slide together
  have hmove : Sat Event.Held False (processOWDAsymFull st s) (fun s' =>
      s'.win.shiftEndOWD = s.win.shiftEndOWD + 1) := by
    refine Sat.bind (updateOWDShift_sat
      (s := updateOWDMinima (rawOWD s st) (recordOWD (rawOWD s st) s)) hat.pos hat.si hf hb
      (show s.win.shiftEndOWD < n by omega)
      (hDf.okFrom (show n + 1 ≤ s.win.shiftEndOWD + z.RTT by omega))
      (hDb.okFrom (show n + 1 ≤ s.win.shiftEndOWD + z.RTT by omega))) fun s1 h1 => Sat.pure ?_
    change n < wsub s.win.shiftWin 1 + s.win.shiftEndOWD ∧ s1.win.shiftEndOWD = s.win.shiftEndOWD ∨
      wsub s.win.shiftWin 1 + s.win.shiftEndOWD ≤ n ∧
        s1.win.shiftEndOWD = s.win.shiftEndOWD + 1 at h1
    show s1.win.shiftEndOWD = _
    omega
  refine (hmove.and_returns ((processOWDAsymFull_keeps (accepts_any F n) hat h st).returns.and
    (processOWDAsymFull_frame _ _))).mono ?_
  rintro s' ⟨hnext, hk, owd, e, Dfhat, Dbhat, Asymhat, rfl⟩
  refine ⟨hk, ⟨⟨hst.stock.stamp, hst.stock.RTT, hDf, hDb, hst.stock.thnaive, hst.stock.RTThat⟩,
    ⟨hst.fits.stamp, hst.fits.RTT, hst.fits.shift, hst.fits.RTThat, hst.fits.thnaive⟩, hst.shift,
    ?_⟩⟩
  change e = s.win.shiftEndOWD + 1 at hnext
  show e + s.win.shiftWin = n + 1
  omega

/-- A candidate for the next `pstamp` needs no lookup. -/
theorem updateNextPstamp_held (hat : At F n s) (h : Full F (n + 1) (n + 1) n (n + 1) s)
    (hst : FullStock z (n + 1) (n + 1) n (n + 1) s) (RTT : VCounter) :
    Sat Event.Held False (updateNextPstamp (F n) RTT s) (fun s' =>
      (At F n s' ∧ s'.win.warmupWin = s.win.warmupWin ∧ Full F (n + 1) (n + 1) n (n + 1) s') ∧
        FullStock z (n + 1) (n + 1) n (n + 1) s') := by
  refine ((updateNextPstamp_sat True.intro).and_returns
    ((updateNextPstamp_keeps (accepts_any F n) hat h RTT).returns.and
      (updateNextPstamp_cases _ _ _))).mono ?_
  rintro s' ⟨-, hk, c, rfl | ⟨-, -, perr, nhat, rfl⟩⟩
  · exact ⟨hk, ⟨hst.stock, hst.fits, hst.shift, hst.shiftOWD⟩⟩
  · exact ⟨hk, ⟨hst.stock, hst.fits, hst.shift, hst.shiftOWD⟩⟩

/-- Nor does the period. -/
theorem processPhatFull_held (hat : At F n s) (h : Full F (n + 1) (n + 1) n (n + 1) s)
    (hst : FullStock z (n + 1) (n + 1) n (n + 1) s) (RTT : VCounter) (q : Bool) :
    Sat Event.Held False (processPhatFull (F n) RTT q s) (fun s' =>
      (At F n s' ∧ s'.win.warmupWin = s.win.warmupWin ∧ Full F (n + 1) (n + 1) n (n + 1) s') ∧
        FullStock z (n + 1) (n + 1) n (n + 1) s') := by
  refine ((processPhatFull_sat True.intro True.intro True.intro).and_returns
    ((processPhatFull_keeps (accepts_any F n) hat h RTT q).returns.and
      (processPhatFull_frame _ _ _ _))).mono ?_
  rintro s' ⟨-, hk, K, phat, perr, c, stt, rfl⟩
  exact ⟨hk, ⟨hst.stock, hst.fits, hst.shift, hst.shiftOWD⟩⟩

/-- The subwindows of plocal are held. -/
theorem processPlocalFull_held (hat : At F n s) (h : Full F (n + 1) (n + 1) n (n + 1) s)
    (hst : FullStock z (n + 1) (n + 1) n (n + 1) s) (q : Bool) :
    Sat Event.Held False (processPlocalFull q s) (fun s' =>
      (At F n s' ∧ s'.win.warmupWin = s.win.warmupWin ∧
        Full F (n + 1) (n + 1) (n + 1) (n + 1) s') ∧
        FullStock z (n + 1) (n + 1) n (n + 1) s') := by
  have hreach := h.reach
  have h1 := hst.fits.stamp
  have h2 := hst.fits.RTT
  refine ((processPlocalFull_sat hat.si h.win.ten_le_plocal hreach h.ends h.stamps h.rtts
    (hst.stock.stamp.okFrom (by omega)) (hst.stock.RTT.okFrom (by omega))
    (diffOk_held F n)).and_returns
    ((processPlocalFull_keeps (accepts_any F n) hat h q).returns.and
      (processPlocalFull_frame _ _))).mono ?_
  rintro s' ⟨-, hk, en, ends, ploc, out, stt, rfl⟩
  exact ⟨hk, ⟨hst.stock, ⟨h1, h2, hst.fits.shift, hst.fits.RTThat, hst.fits.thnaive⟩, hst.shift,
    hst.shiftOWD⟩⟩

/-- The offset window reaches back as far as all four histories do. -/
theorem fullJmin_stock (hsi : s.si = n) (hst : FullStock z (n + 1) (n + 1) n (n + 1) s)
    (hz : 1 ≤ z.RTThat) (th : D) : fullJmin (recordTheta th s) =
      max (safeJmin (if 0 < s.poll.pollTransitionTh then 2 else 1) n (thetaWin s))
        (max (n + 1 - z.stamp) (max (n + 1 - z.RTT)
          (max (n + 1 - z.RTThat) (n + 1 - z.thnaive)))) := by
  have hth : Stocked z.thnaive (n + 1) (historyAdd s.hist.thnaive s.si th) := by
    rw [hsi]
    exact hst.stock.thnaive.add _
  rw [← hst.stock.stamp.old (Nat.succ_pos n) (Nat.zero_lt_of_lt hst.fits.stamp),
    ← hst.stock.RTT.old (Nat.succ_pos n) (Nat.zero_lt_of_lt hst.fits.RTT),
    ← hst.stock.RTThat.old (Nat.succ_pos n) hz, ← hth.old (Nat.succ_pos n) hst.fits.thnaive, ← hsi]
  rfl

/-- So is the offset window. -/
theorem processThetahatFull_held (hat : At F n s) (h : Full F (n + 1) (n + 1) (n + 1) (n + 1) s)
    (hst : FullStock z (n + 1) (n + 1) n (n + 1) s) (q : Bool) (E : D) :
    Sat Event.Held False (processThetahatFull mp (F n) q E s) (fun s' =>
      (At F n s' ∧ s'.win.warmupWin = s.win.warmupWin ∧
        Full F (n + 1) (n + 1) (n + 1) (n + 1) s') ∧
        FullStock z (n + 1) (n + 1) (n + 1) (n + 1) s') := by
  have hsi := hat.si
  have hn : 2 ≤ n := by
    have h1 := hst.shift
    have h2 := h.win.shift
    omega
  have hrtt : 1 ≤ z.RTThat := by
    have h1 := hst.fits.RTThat
    have h2 := h.win.offset
    have h3 := h.win.shift
    omega
  have hth : Stocked z.thnaive (n + 1) (thnaiveNext F n s) := by
    unfold thnaiveNext
    rw [hsi]
    exact hst.stock.thnaive.add _
  -- the window is cut at the oldest item of each history
  have hjmin := fullJmin_stock hsi hst hrtt (naiveTheta s (F n))
  generalize hj : fullJmin (recordTheta (naiveTheta s (F n)) s) = jmin at hjmin
  have hle : safeJmin (if 0 < s.poll.pollTransitionTh then 2 else 1) n (thetaWin s) ≤ n :=
    safeJmin_le (by split <;> omega)
  obtain ⟨hats, hh⟩ := h.hats
  have hz1 := hst.fits.stamp
  have hz2 := hst.fits.RTT
  have hz4 := hst.fits.thnaive
  refine ((processThetahatFull_sat hsi hat.pos hj h.stamps h.rtts hh
    (hst.stock.stamp.okFrom (by omega)) (hst.stock.RTT.okFrom (by omega))
    (hst.stock.RTThat.okFrom (by omega)) (hth.okFrom (by omega))
    (fun hlt => absurd hlt (by omega)) (diffOk_held F n) True.intro True.intro
    (fun _ _ _ => True.intro) (fun _ _ _ => True.intro)).and_returns
    ((processThetahatFull_keeps (accepts_any F n) hat h q E).returns.and
      (processThetahatFull_frame _ _ _ _ _))).mono ?_
  rintro s' ⟨-, hk, t, off, err, stt, out, rfl, -⟩
  exact ⟨hk, ⟨⟨hst.stock.stamp, hst.stock.RTT, hst.stock.Df, hst.stock.Db, hth,
    hst.stock.RTThat⟩, hst.fits, hst.shift, hst.shiftOWD⟩⟩

/-- A call of the full phase looks up nothing that was dropped. -/
theorem fullPhase_held (hat : At F n s) (h : Full F (n + 1) (n + 1) n n s)
    (hst : FullStock z (n + 1) n n n s) (inp : Input D) (hinp : inp.stamp = F n) :
    Sat Event.Held False (fullPhase mp inp s) (fun s' =>
      (At F n s' ∧ s'.win.warmupWin = s.win.warmupWin ∧
        Full F (n + 1) (n + 1) (n + 1) (n + 1) s') ∧
        FullStock z (n + 1) (n + 1) (n + 1) (n + 1) s') := by
  unfold fullPhase
  rw [hinp]
  refine Sat.bind (manageHistorywin_held hat h hst _) ?_
  rintro s1 ⟨⟨hat1, hw1, h1⟩, hst1⟩
  refine Sat.bind (processRTTFull_held hat1 h1 hst1) ?_
  rintro s2 ⟨⟨hat2, hw2, h2⟩, hst2⟩
  refine Sat.bind (processOWDAsymFull_held hat2 h2 hst2 _) ?_
  rintro s3 ⟨⟨hat3, hw3, h3⟩, hst3⟩
  refine Sat.bind (updateNextPstamp_held hat3 h3 hst3 _) ?_
  rintro s4 ⟨⟨hat4, hw4, h4⟩, hst4⟩
  refine Sat.bind (processPhatFull_held hat4 h4 hst4 _ _) ?_
  rintro s5 ⟨⟨hat5, hw5, h5⟩, hst5⟩
  refine Sat.bind (processPlocalFull_held hat5 h5 hst5 _) ?_
  rintro s6 ⟨⟨hat6, hw6, h6⟩, hst6⟩
  refine Sat.bind (processThetahatFull_held hat6 h6 hst6 _ _) ?_
  rintro s7 ⟨⟨hat7, hw7, h7⟩, hst7⟩
  refine ((updatePathpenaltyFull_sat True.intro).and_returns
    (updatePathpenaltyFull_frame _ _ _)).mono ?_
  rintro s8 ⟨-, pen, out, rfl⟩
  refine ⟨⟨⟨hat7.pos, hat7.idx, hat7.last⟩, ?_, ⟨⟨h7.stamps, h7.rtts, h7.theta⟩, h7.win, h7.reach,
    h7.ends, h7.pstamp, h7.next, h7.hats⟩⟩, ⟨hst7.stock, hst7.fits, hst7.shift, hst7.shiftOWD⟩⟩
  show s7.win.warmupWin = s.win.warmupWin
  rw [hw7, hw6, hw5, hw4, hw3, hw2, hw1]

end FullPhase

/-! ## Calls -/

section Call

variable {F : Nat → BidirStamp D} {n : Nat} {s : AlgoState D} {z : HistSizes} {w : Windows}

/-- Between calls in warmup, after `n` stamps, with the windows `w`. -/
structure InWarm (F : Nat → BidirStamp D) (w : Windows) (n : Nat) (s : AlgoState D) : Prop where
  inv : Inv F n s
  win : s.win = w
  more : n < w.warmupWin
  stock : Stock (evenSizes w.warmupWin) n n n 0 s.hist

/-- Between calls in the full phase, after `n` stamps. -/
structure InFull (F : Nat → BidirStamp D) (z : HistSizes) (n : Nat) (s : AlgoState D) : Prop where
  inv : Inv F n s
  full : s.win.warmupWin ≤ n
  stock : FullStock z n n n n s

/-- The last statements of a call leave histories, windows and RTT estimates alone. -/
theorem finish_held (mp : Metaparam D) (st : BidirStamp D) (s : AlgoState D) :
    Sat Event.Held False (do
      let s ← updateErrors mp st (copyStamp st s)
      pure (fillOutput st.RTT s)) (fun s' => s'.hist = s.hist ∧ s'.win = s.win ∧ s'.rtt =
        s.rtt) := by
  obtain ⟨stats, hcopy⟩ := copyStamp_frame st s
  rw [hcopy]
  refine Sat.bind ((updateErrors_sat fun _ => True.intro).and_returns (updateErrors_frame _ _ _)) ?_
  rintro s1 ⟨-, err, rfl⟩
  exact Sat.pure ⟨rfl, rfl, rfl⟩

/-- The number of the next stamp. -/
theorem Inv.next_at (h : Inv F n s) : At F n { s with stampI := s.stampI + 1 } := by
  have hidx := h.idx
  exact ⟨h.pos, show s.stampI + 1 = (n : Int) by omega, h.last⟩

/-- A call without update of the configuration, after the first stamp. -/
theorem RADalgoBidir_noUpdate (conf : Config D) (inp : Input D) (h : Inv F n s)
    (hupd : conf.algoUpdate = false) :
    RADalgoBidir conf inp s = (do
      let s ← phases conf inp (recordStamp inp.stamp { s with stampI := s.stampI + 1 })
      let s ← updateErrors conf.metaparam inp.stamp (copyStamp inp.stamp s)
      pure (fillOutput inp.stamp.RTT s)) := by
  have hidx := h.idx
  have hpos := h.pos
  have hnext : nextStamp conf s = { s with stampI := s.stampI + 1 } :=
    nextStamp_later conf (by omega)
  unfold RADalgoBidir reactToUpdate
  rw [hnext, hupd]
  rfl

/-- Before the end of the warmup a call is one of the warmup phase. -/
theorem phases_warm (conf : Config D) (inp : Input D) (hat : At F n s)
    (hW : n < s.win.warmupWin) :
    phases conf inp s = warmupPhase conf.metaparam inp.stamp s := by
  have hpos := hat.pos
  have hidx := hat.idx
  have hlt : s.si < s.win.warmupWin := by
    rw [hat.si]
    exact hW
  exact (if_neg (by omega)).trans (if_pos hlt)

/-- From then on it is one of the full phase. -/
theorem phases_full (conf : Config D) (inp : Input D) (hat : At F n s)
    (hW : s.win.warmupWin ≤ n) : phases conf inp s = fullPhase conf.metaparam inp s := by
  have hpos := hat.pos
  have hidx := hat.idx
  have hge : ¬ s.si < s.win.warmupWin := by
    rw [hat.si]
    exact Nat.not_lt.mpr hW
  exact (if_neg (by omega)).trans (if_neg hge)

omit [Arith D] in
/-- A recorded stamp is one item more in two histories. -/
theorem Stock.record {m t r : Nat} {h : Hists D} (hst : Stock z n m t r h) {st : BidirStamp D}
    (v : VCounter) : Stock z (n + 1) m t r
      { h with RTT := historyAdd h.RTT n v, stamp := historyAdd h.stamp n st } :=
  ⟨hst.stamp.add _, hst.RTT.add _, hst.Df, hst.Db, hst.thnaive, hst.RTThat⟩

/-- The next stamp of warmup, once it is recorded. -/
theorem InWarm.record (h : InWarm F w n s) :
    At F n (recordStamp (F n) { s with stampI := s.stampI + 1 }) ∧
      Warm F (n + 1) (n + 1) n (recordStamp (F n) { s with stampI := s.stampI + 1 }) ∧
      Stock (evenSizes w.warmupWin) (n + 1) n n 0
        (recordStamp (F n) { s with stampI := s.stampI + 1 }).hist := by
  have hat := h.inv.next_at
  have hwarm : Warm F n n n s := by
    rcases h.inv.phase with ⟨hw, -⟩ | ⟨-, hge⟩
    · exact hw
    · have hmore := h.more
      rw [← h.win] at hmore
      exact absurd hmore (Nat.not_lt.mpr hge)
  have hcore : Core F n n { s with stampI := s.stampI + 1 } :=
    ⟨hwarm.stamps, hwarm.rtts, hwarm.theta⟩
  refine ⟨⟨hat.pos, hat.idx, hat.last⟩, ⟨hcore.record hat, hwarm.win, hwarm.ends,
    Nat.lt_succ_of_lt hwarm.pstampI, hwarm.noHats, hwarm.fresh⟩, ?_⟩
  show Stock _ _ _ _ _ { s.hist with
    RTT := historyAdd s.hist.RTT (AlgoState.si { s with stampI := s.stampI + 1 }) (F n).RTT
    stamp := historyAdd s.hist.stamp (AlgoState.si { s with stampI := s.stampI + 1 }) (F n) }
  rw [hat.si]
  exact h.stock.record _

/-- A call in warmup: one more stamp of warmup, or the start of the full phase. -/
theorem RADalgoBidir_warm (conf : Config D) (inp : Input D) (hinp : inp.stamp = F n)
    (hupd : conf.algoUpdate = false) (h : InWarm F w n s) :
    Sat Event.Held False (RADalgoBidir conf inp s) (fun s' => InWarm F w (n + 1) s' ∨
      Inv F (n + 1) s' ∧ w.warmupWin = n + 1 ∧ s'.win.warmupWin ≤ n + 1 ∧
        Started F (n + 1) n w s') := by
  have hW : n < s.win.warmupWin := h.win ▸ h.more
  obtain ⟨hat, hwarm, hst⟩ := h.record
  rw [← h.win] at hst
  rw [RADalgoBidir_noUpdate conf inp h.inv hupd, hinp]
  refine Sat.bind (Q := fun s' => At F n s' ∧
      ((Warm F (n + 1) (n + 1) (n + 1) s' ∧ n + 1 < s'.win.warmupWin) ∧ s'.win = s.win ∧
          Stock (evenSizes s.win.warmupWin) (n + 1) (n + 1) (n + 1) 0 s'.hist ∨
        (Full F (n + 1) (n + 1) (n + 1) (n + 1) s' ∧ s'.win.warmupWin ≤ n + 1) ∧
          Started F (n + 1) n s.win s' ∧ s.win.warmupWin = n + 1)) ?_ ?_
  · rw [phases_warm conf inp hat hW, hinp]
    exact warmupPhase_held hat hwarm hst hW
  · rintro s1 ⟨hat1, hcase⟩
    have hphase := hcase.imp (·.1) (·.1)
    refine ((finish_held conf.metaparam (F n) s1).and_returns
      (finish_keeps (accepts_any F n) hat1.idx hphase).returns).mono ?_
    rintro s2 ⟨⟨hhist, hwin, hrtt⟩, hinv⟩
    -- still warming up, or the first stamp of the full phase
    rcases hcase with ⟨⟨-, hmore⟩, hw1, hst1⟩ | ⟨⟨-, hle⟩, hs1, hWn⟩
    · refine Or.inl ⟨hinv, (hwin.trans hw1).trans h.win, ?_, ?_⟩
      · rw [← h.win, ← hw1]
        exact hmore
      · rw [hhist, ← h.win]
        exact hst1
    · refine Or.inr ⟨hinv, h.win ▸ hWn, hwin ▸ hle, ?_⟩
      rw [h.win] at hs1
      exact ⟨hhist ▸ hs1.stock, hwin ▸ hs1.shift, hwin ▸ hs1.shiftOWD, hrtt ▸ hs1.shiftMin,
        hwin ▸ hs1.shiftWin, hwin ▸ hs1.plocalWin, hwin ▸ hs1.offsetWin, hwin ▸ hs1.hWin,
        hwin ▸ hs1.historyEnd⟩

/-- A change in the full phase that keeps the windows, to histories that are no larger and
still fit. -/
structure Refits (conf : Config D) (z z' : HistSizes) (w : Windows) : Prop where
  offset : baseOffsetWin conf.metaparam conf.pollPeriod = w.offsetWin
  shift : baseShiftWin conf.metaparam conf.pollPeriod = w.shiftWin
  sizes : z' = ⟨histSz (max (plocalSpan w) w.offsetWin),
    histSz (max (plocalSpan w) (max w.offsetWin w.shiftWin)), histSz w.offsetWin,
    histSz w.offsetWin⟩
  fits : Fits z' w
  stamp : z'.stamp ≤ z.stamp
  RTT : z'.RTT ≤ z.RTT
  RTThat : z'.RTThat ≤ z.RTThat
  thnaive : z'.thnaive ≤ z.thnaive

omit [Arith D] in
/-- The shift window restarts its width back. -/
theorem restartShiftEnd_eq (hat : At F n s) (hsw : 1 ≤ s.win.shiftWin)
    (hn : s.win.shiftWin ≤ n) (hst : Stocked z.RTT n s.hist.RTT) (hfit : s.win.shiftWin < z.RTT) :
    restartShiftEnd s + s.win.shiftWin = n := by
  have hpos := hat.pos
  unfold restartShiftEnd
  dsimp only
  rw [hat.si, hst.old hpos (by omega), wsub_of_le hsw, wsub_of_le hpos]
  split
  · rw [wsub_of_le (by omega)]
    omega
  · omega

omit [Arith D] in
/-- The window of the restart is held. -/
theorem restartShift_held (hat : At F n s) (hR : Holds (rttOf F) n s.hist.RTT)
    (hst : Stocked z.RTT n s.hist.RTT) (hsw : 1 ≤ s.win.shiftWin) (hn : s.win.shiftWin ≤ n)
    (hfit : s.win.shiftWin < z.RTT) :
    Sat Event.Held False (restartShift s) (fun s' => s'.win.shiftEnd + s.win.shiftWin = n) := by
  have hpos := hat.pos
  have hend := restartShiftEnd_eq hat hsw hn hst hfit
  have hok : OkFrom (D := D) Event.Held False s.hist.RTT (restartShiftEnd s) n :=
    hst.okFrom (by omega)
  refine Sat.bind (Q := fun k => restartShiftEnd s ≤ k ∧ k ≤ n - 1) ?_ ?_
  · show Sat _ _ (minScan ltVC s.hist.RTT (restartShiftEnd s) (wsub s.si 1)) _
    rw [hat.si, wsub_of_le hpos]
    refine (minScan_sat hR (by omega) (by omega) hok).mono fun k hk => ⟨hk.left, hk.right⟩
  · rintro k ⟨hk1, hk2⟩
    refine Sat.bind (historyGet_ok (hok k hk1 (by omega))) fun v _ => Sat.pure ?_
    exact hend

/-- A change of the parameters keeps what its new windows need, if the capacities refit. -/
theorem reactToUpdate_refit (conf : Config D) (hupd : conf.algoUpdate = true) (hat : At F n s)
    (h : Full F n n n n s) (hW : s.win.warmupWin ≤ n) (hst : FullStock z n n n n s)
    {z' : HistSizes} (hre : Refits conf z z' s.win) :
    Sat Event.Held False (reactToUpdate conf s) (fun s' => (At F n s' ∧ Full F n n n n s' ∧
      s'.win.warmupWin ≤ n) ∧ FullStock z' n n n n s' ∧
        SameWin { s.win with hWin := baseHWin conf.pollPeriod } s'.win) := by
  have hpw : basePlocalWin conf.metaparam conf.pollPeriod = s.win.plocalWin := by
    rw [h.win.plocal, ← hre.offset]
    rfl
  have hsw := h.win.shift
  have hshift := hst.shift
  obtain ⟨poll, -, hset⟩ := newParams_frame conf.metaparam conf.pollPeriod s
  -- the new shift window starts its width back, where the old histories still reach
  have hmove : Sat Event.Held False (reactToUpdate conf s) (fun s' =>
      s'.win.shiftEnd + s.win.shiftWin = n) := by
    unfold reactToUpdate updateState
    rw [if_pos hupd, hset]
    refine Sat.bind (Q := fun s1 => s1.win.shiftEnd + s.win.shiftWin = n) ?_
      fun s1 h1 => Sat.pure h1
    refine Sat.ite (fun hlt => ?_) fun _ => ?_
    · change s.si < s.win.warmupWin at hlt
      rw [hat.si] at hlt
      omega
    · rw [← hre.shift]
      refine restartShift_held ⟨hat.pos, hat.idx, hat.last⟩ h.rtts hst.stock.RTT ?_ ?_ ?_
      · show 1 ≤ baseShiftWin _ _
        rw [hre.shift]
        omega
      · show baseShiftWin _ _ ≤ n
        rw [hre.shift]
        omega
      · show baseShiftWin _ _ < z.RTT
        rw [hre.shift]
        exact hst.fits.shift
  refine (hmove.and_returns ((reactToUpdate_full (accepts_any F n) conf hat h hW
    fun _ => hpw).returns.and (Returns.ite (fun _ => updateState_cases _ _ _)
      fun hno => absurd hupd hno))).mono ?_
  rintro s' ⟨hend, hk, poll', -, ⟨hlt, -⟩ | ⟨-, v, e, rfl⟩⟩
  · rw [hat.si] at hlt
    omega
  · -- the capacities that are asked for, once the warmup is over
    have hsizes : histSizes s.si { newWindows conf.metaparam conf.pollPeriod s.win with
        shiftEnd := e } = z' := by
      have hfull : ¬ s.si < s.win.warmupWin := by
        rw [hat.si]
        exact Nat.not_lt.mpr hW
      have hspan : plocalSpan { newWindows conf.metaparam conf.pollPeriod s.win with
          shiftEnd := e } = plocalSpan s.win := by
        show basePlocalWin _ _ + basePlocalWin _ _ / _ = _
        rw [hpw]
        rfl
      refine (if_neg hfull).trans ?_
      rw [hspan, hre.sizes, ← hre.offset, ← hre.shift]
      rfl
    have hfits : Fits z' { newWindows conf.metaparam conf.pollPeriod s.win with shiftEnd := e } :=
      hre.fits.congr hpw hre.shift hre.offset
    refine ⟨hk, ⟨?_, hfits, ?_, ?_⟩, ⟨rfl, rfl, rfl, hre.shift, hpw, hre.offset, rfl⟩⟩
    · show Stock z' n n n n (resizeHists (histSizes s.si _) s.hist)
      rw [hsizes]
      exact ⟨hst.stock.stamp.resize (Or.inl hre.stamp), hst.stock.RTT.resize (Or.inl hre.RTT),
        hst.stock.Df.resize (Or.inl hre.RTT), hst.stock.Db.resize (Or.inl hre.RTT),
        hst.stock.thnaive.resize (Or.inl hre.thnaive),
        hst.stock.RTThat.resize (Or.inl hre.RTThat)⟩
    · show e + baseShiftWin _ _ = n
      rw [hre.shift]
      exact hend
    · show s.win.shiftEndOWD + baseShiftWin _ _ = n
      rw [hre.shift]
      exact hst.shiftOWD

/-- What a call makes of a state of the full phase in which stamp `n` is being processed. -/
theorem fullCall_held (conf : Config D) (inp : Input D) (hinp : inp.stamp = F n)
    (hat : At F n s) (h : Full F n n n n s) (hW : s.win.warmupWin ≤ n)
    (hst : FullStock z n n n n s) :
    Sat Event.Held False (do
      let s ← phases conf inp (recordStamp inp.stamp s)
      let s ← updateErrors conf.metaparam inp.stamp (copyStamp inp.stamp s)
      pure (fillOutput inp.stamp.RTT s)) (InFull F z (n + 1)) := by
  have hat' : At F n (recordStamp (F n) s) := ⟨hat.pos, hat.idx, hat.last⟩
  have hst' : FullStock z (n + 1) n n n (recordStamp (F n) s) := by
    refine ⟨?_, hst.fits, hst.shift, hst.shiftOWD⟩
    show Stock _ _ _ _ _ { s.hist with
      RTT := historyAdd s.hist.RTT s.si (F n).RTT
      stamp := historyAdd s.hist.stamp s.si (F n) }
    rw [hat.si]
    exact hst.stock.record _
  rw [hinp, phases_full conf inp hat' hW]
  refine Sat.bind (fullPhase_held hat' ⟨h.toCore.record hat, h.win, h.reach, h.ends,
    h.pstamp.mono (Nat.le_succ n), h.next.mono (Nat.le_succ n), h.hats⟩ hst' inp hinp) ?_
  rintro s1 ⟨⟨hat1, hw1, h1⟩, hst1⟩
  have hle : s1.win.warmupWin ≤ n + 1 := by
    rw [hw1]
    exact Nat.le_succ_of_le hW
  refine ((finish_held conf.metaparam (F n) s1).and_returns
    (finish_keeps (accepts_any F n) hat1.idx (Or.inr ⟨h1, hle⟩)).returns).mono ?_
  rintro s2 ⟨⟨hhist, hwin, -⟩, hinv⟩
  exact ⟨hinv, hwin ▸ hle, ⟨hhist ▸ hst1.stock, hwin ▸ hst1.fits, hwin ▸ hst1.shift,
    hwin ▸ hst1.shiftOWD⟩⟩

/-- Stamp `n` of the full phase, about to be processed. -/
theorem InFull.next (h : InFull F z n s) : At F n { s with stampI := s.stampI + 1 } ∧
    Full F n n n n { s with stampI := s.stampI + 1 } ∧
      FullStock z n n n n { s with stampI := s.stampI + 1 } := by
  have hfull : Full F n n n n s := by
    rcases h.inv.phase with ⟨-, hlt⟩ | ⟨hf, -⟩
    · exact absurd h.full (Nat.not_le.mpr hlt)
    · exact hf
  exact ⟨h.inv.next_at, ⟨⟨hfull.stamps, hfull.rtts, hfull.theta⟩, hfull.win, hfull.reach,
    hfull.ends, hfull.pstamp, hfull.next, hfull.hats⟩, h.stock.stock, h.stock.fits, h.stock.shift,
    h.stock.shiftOWD⟩

/-- A call in the full phase. -/
theorem RADalgoBidir_full (conf : Config D) (inp : Input D) (hinp : inp.stamp = F n)
    (hupd : conf.algoUpdate = false) (h : InFull F z n s) :
    Sat Event.Held False (RADalgoBidir conf inp s) (InFull F z (n + 1)) := by
  obtain ⟨hat, hfull, hst⟩ := h.next
  rw [RADalgoBidir_noUpdate conf inp h.inv hupd]
  exact fullCall_held (s := { s with stampI := s.stampI + 1 }) conf inp hinp hat hfull h.full hst

/-- Warmup windows leave the shift windows room when they are longer by two. -/
theorem Started.full (hinv : Inv F (n + 1) s) (hs : Started F (n + 1) n w s)
    (hle : s.win.warmupWin ≤ n + 1) (hw : WarmWin w) (hW : w.warmupWin = n + 1)
    (hroom : w.shiftWin + 2 ≤ w.warmupWin) : InFull F (evenSizes (n + 1)) (n + 1) s := by
  have hreach := hw.reach_lt
  have hoff := hw.offset_le
  have hsw := hw.shift
  -- the warmup is longer than the shift window, so it starts its width back
  have hstart : shiftStart w.shiftWin n + w.shiftWin = n + 1 := by
    unfold shiftStart
    rw [if_pos (by omega)]
    omega
  refine ⟨hinv, hle, ⟨hs.stock, ⟨?_, ?_, ?_, ?_, ?_⟩, ?_, ?_⟩⟩
  · show plocalReach s.win.plocalWin < n + 1
    rw [hs.plocalWin]
    omega
  · show plocalReach s.win.plocalWin < n + 1
    rw [hs.plocalWin]
    omega
  · show s.win.shiftWin < n + 1
    rw [hs.shiftWin]
    omega
  · show min s.win.offsetWin s.win.shiftWin ≤ n + 1
    rw [hs.shiftWin]
    omega
  · exact Nat.succ_pos n
  · rw [hs.shift, hs.shiftWin]
    exact hstart
  · rw [hs.shiftOWD, hs.shiftWin]
    exact hstart

/-! ## Runs without updates -/

/-- The windows a configuration starts with. -/
def startWindows (conf : Config D) : Windows := firstWindows conf.metaparam conf.pollPeriod

/-- The windows of the start are long enough for a warmup. -/
theorem startWindows_ok (conf : Config D) : WarmWin (startWindows conf) :=
  have hok := newWindows_ok conf.metaparam conf.pollPeriod ⟨0, 0, 0, 0, 0, 0, 0, 0, 0, 0⟩
  warmWindows_ok conf.minPoll ⟨hok.offset, hok.plocal, hok.shift⟩ fun _ => Nat.le_refl 100

/-- The first stamp. -/
theorem RADalgoBidir_first (conf : Config D) (inp : Input D) (hinp : inp.stamp = F 0)
    (hupd : conf.algoUpdate = false) (hsz : (startWindows conf).warmupWin < 2 ^ 32) :
    Sat Event.Held False (RADalgoBidir conf inp AlgoState.zero)
      (InWarm F (startWindows conf) 1) := by
  generalize hs : initPhase conf inp.stamp (recordStamp inp.stamp
    (nextStamp conf (AlgoState.zero : AlgoState D))) = s1
  have hcall : RADalgoBidir conf inp AlgoState.zero = (do
      let s ← updateErrors conf.metaparam inp.stamp (copyStamp inp.stamp s1)
      pure (fillOutput inp.stamp.RTT s)) := by
    unfold RADalgoBidir reactToUpdate
    rw [hupd, ← hs]
    rfl
  have hwin : s1.win = startWindows conf := by
    rw [← hs]
    rfl
  -- one item in each history, of the capacity of the warmup
  have hstock : Stock (evenSizes (startWindows conf).warmupWin) 1 1 1 0 s1.hist := by
    have hmod : histSz (startWindows conf).warmupWin = (startWindows conf).warmupWin :=
      Nat.mod_eq_of_lt hsz
    have hempty {α : Type} [Zero α] (name : HistName) : Stocked (startWindows conf).warmupWin 0
        (historyInit name (histSz (startWindows conf).warmupWin) : History α) := by
      rw [hmod]
      exact stocked_init _ _
    rw [← hs]
    exact ⟨(hempty _).add _, (hempty _).add _, (hempty _).add _, (hempty _).add _,
      (hempty _).add _, hempty _⟩
  refine Sat.mono (Q := fun s' => (s'.hist = s1.hist ∧ s'.win = s1.win ∧ s'.rtt = s1.rtt) ∧
    Inv F 1 s') (Sat.and_returns (hcall ▸ finish_held _ _ _)
    (inv_init (accepts_any F 0) conf inp hinp).returns) ?_
  rintro s2 ⟨⟨hhist, hw, -⟩, hinv⟩
  have hW := (startWindows_ok conf).hundred
  exact ⟨hinv, hw.trans hwin, by omega, hhist ▸ hstock⟩

end Call

section Run

variable {F : Nat → BidirStamp D} {w : Windows} {conf : Config D}

/-- After `n` stamps: in warmup, or in the full phase with the histories of warmup. -/
def InRun (F : Nat → BidirStamp D) (w : Windows) (n : Nat) (s : AlgoState D) : Prop :=
  InWarm F w n s ∨ InFull F (evenSizes w.warmupWin) n s

/-- The calls of a run under one configuration. -/
def under (conf : Config D) (inps : List (Input D)) : List (Call D) := inps.map fun i => ⟨conf, i⟩

/-- One call without an update keeps the stock of the run. -/
theorem RADalgoBidir_inRun {n : Nat} {s : AlgoState D} (hw : WarmWin w)
    (hroom : w.shiftWin + 2 ≤ w.warmupWin) (hupd : conf.algoUpdate = false) (inp : Input D)
    (hinp : inp.stamp = F n) (h : InRun F w n s) :
    Sat Event.Held False (RADalgoBidir conf inp s) (InRun F w (n + 1)) := by
  rcases h with h | h
  · refine (RADalgoBidir_warm conf inp hinp hupd h).mono ?_
    rintro s' (h' | ⟨hinv, hW, hle, hs⟩)
    · exact Or.inl h'
    · refine Or.inr ?_
      rw [hW]
      exact hs.full hinv hle hw hW hroom
  · exact (RADalgoBidir_full conf inp hinp hupd h).mono fun s' h' => Or.inr h'

/-- A run without updates looks up nothing that was dropped. -/
theorem runFrom_held (hw : WarmWin w) (hroom : w.shiftWin + 2 ≤ w.warmupWin)
    (hupd : conf.algoUpdate = false) (inps : List (Input D)) (n : Nat) (s : AlgoState D)
    (h : InRun F w n s) (hf : Follows F n (under conf inps)) :
    Sat Event.Held False (runFrom (under conf inps) s) (InRun F w (n + inps.length)) := by
  have hrun := runFrom_sat (I := InRun F w) (under conf inps) n s h fun k c s' hk h' => by
    obtain ⟨inp, -, rfl⟩ := List.mem_map.mp (List.mem_of_getElem? hk)
    exact RADalgoBidir_inRun hw hroom hupd inp (hf k _ hk) h'
  rw [under, List.length_map] at hrun
  exact hrun

/-- With a warmup window longer than the shift window by two, a run under one configuration
goes through, and all its lookups are held. -/
theorem run_held (hupd : conf.algoUpdate = false)
    (hsz : (startWindows conf).warmupWin < 2 ^ 32)
    (hroom : (startWindows conf).shiftWin + 2 ≤ (startWindows conf).warmupWin) (inp : Input D)
    (inps : List (Input D)) (hf : Follows F 0 (under conf (inp :: inps))) :
    Sat Event.Held False (run (under conf (inp :: inps)))
      (InRun F (startWindows conf) (1 + inps.length)) :=
  Sat.bind (RADalgoBidir_first conf inp hf.head hupd hsz) fun s' h' =>
    runFrom_held (startWindows_ok conf) hroom hupd inps 1 s' (Or.inl h') hf.tail

end Run

end RADclock
