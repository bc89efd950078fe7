import RADclock.Sync.Held

/-!
# Histories and stamp numbers

`history_add` writes to the slot of the index it is given, but advances `newest_i` by one on
its own. The two agree for a history that has been added to for every stamp from the first on.

- `Finds h j`: a lookup of index `j` finds the item that was added for it.
- `Touched h`: something has been added to the history, and `Indexed i h`: after stamp `i`, it is
  indexed by stamp number.
- `Kept z n h`: `n` items have been added in order; with `z = some W`, the history has `W`
  slots and has lost no item it had a slot for.
- `Lagging d h`: `d` items have been added, if not for the first `d` indices.
- `OfRun F n h`: what was added to the stamp and RTT histories are the stamps of the run.
- `Spares sz h h'`: from `h` to `h'` no item has been lost that one of `sz` slots has room for.
- `HistInv`: the nine histories between calls. The OWD estimates and the asymmetry are added
  from the first stamp after warmup on, so their `newest_i` lags behind by the warmup window.
-/

namespace RADclock

open Lib Lib.Exec

section Histories

variable {α : Type}

/-- A lookup of index `j` finds the item that was added for it. -/
def Finds (h : History α) (j : Nat) : Prop :=
  ∃ item, h.added j = some item ∧
    (historyFind h j : Algo Unit (Option α)).res = some (some item)

/-- The history has been added to. -/
def Touched (h : History α) : Prop := ∃ j, h.added j ≠ none

/-- The history ends with the item of stamp `i`, and every index it holds leads to the value added
for that stamp. -/
def Indexed (i : Nat) (h : History α) : Prop :=
  h.newestI = i ∧ (h.oldestI : Int) = i - h.itemCount + 1 ∧
    ∀ j, h.oldestI ≤ j → j ≤ i → Finds h j

/-- `n` items have been added, in order, and no others. -/
def Kept (z : Option Nat) (n : Nat) (h : History α) : Prop :=
  (∃ f, Holds f n h ∧ ∀ j, h.added j = if j < n then some (f j) else none) ∧
    ∀ W ∈ z, h.bufferSz = W ∧ Dense n h

/-- `d` items have been added, for whatever indices. -/
def Lagging (d : Nat) (h : History α) : Prop := h.newestI + 1 = d ∧ (Touched h ↔ 0 < d)

/-- The items of `h` that are among the newest `sz` are there in `h'`. -/
def Spares (sz : Nat) (h h' : History α) : Prop :=
  ∀ j : Nat, h.oldestI ≤ j → h.newestI < j + sz → h'.oldestI ≤ j

/-- What is held is found. -/
theorem Holds.finds {f : Nat → α} {n j : Nat} {h : History α} (hh : Holds f n h)
    (hadded : ∀ j, h.added j = if j < n then some (f j) else none) (hold : h.oldestI ≤ j)
    (hj : j < n) : Finds h j := by
  refine ⟨f j, (hadded j).trans (if_pos hj), ?_⟩
  rw [historyFind_res, if_neg (Nat.not_lt.mpr hold)]
  exact congrArg (fun item => some (some item)) (hh.slot j hold hj)

variable [Zero α] {z : Option Nat} {n : Nat} {h : History α}

/-- A new history keeps nothing. -/
theorem kept_init (name : HistName) (sz : Nat) :
    Kept (some sz) 0 (historyInit name sz : History α) := by
  refine ⟨⟨fun _ => 0, holds_init _ _ _, fun j => (if_neg (Nat.not_lt_zero j)).symm⟩, ?_⟩
  intro W hW
  cases hW
  exact ⟨rfl, dense_init _ _⟩

omit [Zero α] in
/-- One more item, for the next index. -/
theorem Kept.add (hk : Kept z n h) (item : α) : Kept z (n + 1) (historyAdd h n item) := by
  obtain ⟨⟨f, hholds, hf⟩, hz⟩ := hk
  have hnew : (n : Int) ≠ h.newestI := by
    rw [hholds.newest]
    omega
  have hholds' : Holds (Function.update f n item) n h := by
    refine ⟨hholds.newest, hholds.range, hholds.fits, fun j h1 h2 => ?_⟩
    rw [Function.update_of_ne (by omega)]
    exact hholds.slot j h1 h2
  refine ⟨⟨_, hholds'.add (Function.update_self _ _ _), fun j => ?_⟩, ?_⟩
  · rw [historyAdd_added hnew]
    by_cases hjn : j = n
    · subst hjn
      simp
    · rw [Function.update_of_ne hjn, Function.update_of_ne hjn, hf j]
      simp only [show j < n + 1 ↔ j < n by omega]
  · intro W hW
    obtain ⟨hsz, hdense⟩ := hz W hW
    exact ⟨(historyAdd_bufferSz _ _ _).trans hsz, hdense.add hholds item⟩

/-- A resize of a history that has lost nothing, to `W` slots. -/
theorem Kept.resize (hk : Kept z n h) (sz : Nat) {z' : Option Nat}
    (hz' : ∀ W ∈ z', sz = W ∧ ∃ W₀ ∈ z, n ≤ W₀) : Kept z' n (historyResize h sz) := by
  obtain ⟨⟨f, hholds, hf⟩, hz⟩ := hk
  refine ⟨⟨f, hholds.resize sz, fun j => ?_⟩, fun W hW => ?_⟩
  · rw [historyResize_added]
    exact hf j
  · obtain ⟨hsz, W₀, hW₀, hle⟩ := hz' W hW
    obtain ⟨hsz₀, hdense⟩ := hz W₀ hW₀
    refine ⟨(historyResize_bufferSz _ _).trans hsz, hdense.resize (Or.inr ?_)⟩
    rw [hsz₀]
    exact hle

section Facts

omit [Zero α]

/-- Without its capacity. -/
theorem Kept.loose (hk : Kept z n h) : Kept none n h := ⟨hk.1, by simp⟩

/-- The newest index. -/
theorem Kept.newest (hk : Kept z n h) : h.newestI = (n : Int) - 1 := by
  obtain ⟨⟨f, hholds, -⟩, -⟩ := hk
  exact hholds.newest

/-- A history kept in order is indexed by stamp number. -/
theorem Kept.indexed {i : Nat} (hk : Kept z (i + 1) h) : Indexed i h := by
  obtain ⟨⟨f, hholds, hf⟩, -⟩ := hk
  have hrange := hholds.range
  exact ⟨by rw [hholds.newest]; omega, by omega, fun j h1 h2 =>
    hholds.finds hf h1 (by omega)⟩

/-- Nothing has been added so far. -/
theorem Kept.untouched (hk : Kept z 0 h) : ¬ Touched h := by
  obtain ⟨⟨f, -, hf⟩, -⟩ := hk
  rintro ⟨j, hj⟩
  exact hj ((hf j).trans (if_neg (Nat.not_lt_zero j)))

/-- With a slot for each item, everything from index `0` on is there. -/
theorem Kept.oldest {W : Nat} (hk : Kept (some W) n h) (hn : n ≤ W) : h.oldestI = 0 := by
  obtain ⟨⟨f, hholds, -⟩, hz⟩ := hk
  obtain ⟨hsz, hdense⟩ := hz W rfl
  have := hdense.oldest hholds
  omega

end Facts

end Histories

/-- Filling adds so many items. -/
theorem Kept.fill {h : History VCounter} {n : Nat} (hk : Kept none n h) (v : VCounter) (m : Nat) :
    Kept none (n + m) (fillHistory v n m h) := by
  induction m generalizing n h with
  | zero => exact hk
  | succ m ih =>
    have hrest := ih (hk.add v)
    rw [show n + 1 + m = n + (m + 1) by omega] at hrest
    exact hrest

section Late

variable {α : Type} {h : History α} {d : Nat}

/-- A new history. -/
theorem lagging_init [Zero α] (name : HistName) (sz : Nat) :
    Lagging 0 (historyInit name sz : History α) := by
  refine ⟨rfl, ?_⟩
  simp [Touched, historyInit]

/-- One more item for an index that is not the newest. -/
theorem Lagging.add (hl : Lagging d h) {i : Nat} (hi : d ≤ i) (item : α) :
    Lagging (d + 1) (historyAdd h i item) := by
  have hnew := hl.1
  have hne : (i : Int) ≠ h.newestI := by omega
  constructor
  · unfold historyAdd
    rw [if_neg hne]
    show h.newestI + 1 + 1 = _
    omega
  · refine iff_of_true ⟨i, ?_⟩ (Nat.succ_pos d)
    rw [historyAdd_added hne, Function.update_self]
    exact Option.some_ne_none item

/-- A resize adds nothing. -/
theorem Lagging.resize [Zero α] (hl : Lagging d h) (sz : Nat) :
    Lagging d (historyResize h sz) := by
  obtain ⟨hnew, htouched⟩ := hl
  refine ⟨by rw [historyResize_newestI]; exact hnew, ?_⟩
  unfold Touched
  rw [historyResize_added]
  exact htouched

/-- A resize drops the oldest items only, and no more than it must. -/
theorem spares_resize [Zero α] (h : History α) (sz : Nat) : Spares sz h (historyResize h sz) := by
  intro j hold hnew
  unfold historyResize
  split_ifs
  · exact hold
  · exact hold
  · show resizeOldest h sz ≤ j
    unfold resizeOldest
    split_ifs
    · omega
    · exact hold

end Late

variable {D : Type} [Arith D]

/-! ## The nine histories -/

/-- The first `n` items that were added to the stamp and RTT histories are those of the run. -/
def OfRun (F : Nat → BidirStamp D) (n : Nat) (h : Hists D) : Prop :=
  ∀ j, j < n → h.stamp.added j = some (F j) ∧ h.RTT.added j = some (F j).RTT

/-- The histories that are added to for every stamp. -/
structure Series (F : Nat → BidirStamp D) (z : Option Nat) (k m t : Nat) (h : Hists D) :
    Prop where
  stamp : Kept z k h.stamp
  RTT : Kept z k h.RTT
  Df : Kept z m h.Df
  Db : Kept z m h.Db
  thnaive : Kept z t h.thnaive
  ofRun : OfRun F k h

/-- The histories that are added to in the full phase only, after `d` stamps of it. -/
structure Late (d : Nat) (h : Hists D) : Prop where
  Dfhat : Lagging d h.Dfhat
  Dbhat : Lagging d h.Dbhat
  Asymhat : Lagging d h.Asymhat

omit [Arith D] in
/-- Without the capacities. -/
theorem Series.loose {F : Nat → BidirStamp D} {z : Option Nat} {k m t : Nat} {h : Hists D}
    (hs : Series F z k m t h) :
    Series F none k m t h :=
  ⟨hs.stamp.loose, hs.RTT.loose, hs.Df.loose, hs.Db.loose, hs.thnaive.loose, hs.ofRun⟩

section Phases

variable {F : Nat → BidirStamp D} {z : Option Nat} {n d : Nat} {s : AlgoState D}
  {mp : Metaparam D}

/-- The warmup sub-algorithms add to the OWD and thnaive histories. -/
theorem warmupAlgos_series (hsi : s.si = n) (st : BidirStamp D)
    (hs : Series F z (n + 1) n n s.hist) :
    Returns (warmupAlgos mp st s) fun s' => s'.stampI = s.stampI ∧ s'.win = s.win ∧
      Series F z (n + 1) (n + 1) (n + 1) s'.hist ∧ s'.hist.RTThat = s.hist.RTThat ∧
      s'.hist.Dfhat = s.hist.Dfhat ∧ s'.hist.Dbhat = s.hist.Dbhat ∧
      s'.hist.Asymhat = s.hist.Asymhat := by
  refine (warmupAlgos_frame _ _ _).mono ?_
  rintro s1 ⟨i, owd, Df, Db, th, ends, phat, perr, t, off, bound, stt, out, rfl⟩
  refine ⟨rfl, rfl, ⟨hs.stamp, hs.RTT, ?_, ?_, ?_, hs.ofRun⟩, rfl, rfl, rfl, rfl⟩
  · show Kept z (n + 1) (historyAdd s.hist.Df s.si Df)
    rw [hsi]
    exact hs.Df.add Df
  · show Kept z (n + 1) (historyAdd s.hist.Db s.si Db)
    rw [hsi]
    exact hs.Db.add Db
  · show Kept z (n + 1) (historyAdd s.hist.thnaive s.si _)
    rw [hsi]
    exact hs.thnaive.add _

/-- A stamp of warmup; the last one fills the RTThat history. -/
theorem warmupPhase_series (hsi : s.si = n) (hW : n < s.win.warmupWin) (st : BidirStamp D)
    (hs : Series F z (n + 1) n n s.hist) (hr : Kept none 0 s.hist.RTThat) (hl : Late d s.hist) :
    Returns (warmupPhase mp st s) fun s' => s'.stampI = s.stampI ∧
      s'.win.warmupWin = s.win.warmupWin ∧ s'.win.shiftWin = s.win.shiftWin ∧
      s'.win.hWin = s.win.hWin ∧ Series F z (n + 1) (n + 1) (n + 1) s'.hist ∧
      (n + 1 < s.win.warmupWin → Kept none 0 s'.hist.RTThat) ∧
      (n + 1 = s.win.warmupWin → Kept none (n + 1) s'.hist.RTThat) ∧ Late d s'.hist := by
  refine Returns.bind (warmupAlgos_series hsi st hs) ?_
  rintro s1 ⟨hidx, hwin, hs1, hr1, hf1, hb1, ha1⟩
  -- the warmup algorithms add no full-phase item, so these histories stay as they were
  have hl1 : Late d s1.hist := ⟨hf1 ▸ hl.Dfhat, hb1 ▸ hl.Dbhat, ha1 ▸ hl.Asymhat⟩
  have hsi1 : s1.si = n := by
    unfold AlgoState.si
    rw [hidx]
    exact hsi
  have hpred : wsub s1.win.warmupWin 1 = s.win.warmupWin - 1 := by
    rw [hwin]
    exact wsub_of_le (by omega)
  have hwins : s1.win.warmupWin = s.win.warmupWin ∧ s1.win.shiftWin = s.win.shiftWin ∧
      s1.win.hWin = s.win.hWin := by
    rw [hwin]
    exact ⟨rfl, rfl, rfl⟩
  obtain ⟨hww, hws, hwh⟩ := hwins
  rw [← hr1] at hr
  -- the last warmup stamp also fills what the full phase looks up first
  refine Returns.ite (fun hlast => ?_) fun hmore => ?_
  · rw [hsi1, hpred] at hlast
    refine Returns.bind (initRTTOWDAsymFull_frame _) ?_
    rintro s2 ⟨r, f, b, rfl⟩
    refine Returns.bind (initPhatFull_frame _) ?_
    rintro s3 ⟨pst, perr, rfl⟩
    refine Returns.bind (initPlocalFull_frame _) ?_
    rintro s4 ⟨e, ends, ploc, rfl⟩
    refine Returns.pure ⟨hidx, hww, hws, hwh,
      ⟨hs1.stamp, hs1.RTT, hs1.Df, hs1.Db, hs1.thnaive, hs1.ofRun⟩, fun h => absurd h (by omega),
        fun _ => ?_,
      ⟨hl1.Dfhat, hl1.Dbhat, hl1.Asymhat⟩⟩
    show Kept none (n + 1) (fillHistory s1.rtt.RTThat 0 (s1.si + 1) s1.hist.RTThat)
    have hfill := hr.fill s1.rtt.RTThat (n + 1)
    rw [Nat.zero_add] at hfill
    rw [hsi1]
    exact hfill
  · -- before it nothing else is added
    rw [hsi1, hpred] at hmore
    refine Returns.pure ⟨hidx, hww, hws, hwh, hs1, fun _ => hr,
      fun h => absurd h (by omega), hl1⟩

/-- Inside the call for stamp `n` of the full phase. -/
structure Going (F : Nat → BidirStamp D) (z : Option Nat) (n W m t d : Nat) (s : AlgoState D) :
    Prop where
  idx : s.stampI = n
  win : s.win.warmupWin = W
  series : Series F z (n + 1) m t s.hist
  late : Late d s.hist

omit [Arith D] in
/-- The stamp counter as an unsigned index. -/
theorem Going.si {W m t : Nat} (h : Going F z n W m t d s) : s.si = n := by
  have := h.idx
  unfold AlgoState.si
  omega

variable {W : Nat}

/-- The history window touches no history. -/
theorem manageHistorywin_going {m t : Nat} (h : Going F z n W m t d s) (st : BidirStamp D)
    (RTT : VCounter) : Returns (manageHistorywin st RTT s) (Going F z n W m t d) := by
  refine (manageHistorywin_cases _ _ _).mono ?_
  rintro s' ⟨s1, hs1, hcase⟩
  have h1 : Going F z n W m t d s1 := by
    rw [hs1]
    split
    · exact ⟨h.idx, h.win, h.series, h.late⟩
    · exact h
  rcases hcase with ⟨-, Df, Db, rfl⟩ | ⟨-, rfl⟩
  · exact ⟨h1.idx, h1.win, h1.series, h1.late⟩
  · exact h1

/-- The one-way histories get one item each. -/
theorem processOWDAsymFull_going {t : Nat} (hd : d ≤ n) (h : Going F z n W n t d s)
    (st : BidirStamp D) :
    Returns (processOWDAsymFull st s) (Going F z n W (n + 1) t (d + 1)) := by
  refine (processOWDAsymFull_frame _ _).mono ?_
  rintro s' ⟨owd, e, Dfhat, Dbhat, Asymhat, rfl⟩
  have hs := h.series
  have hl := h.late
  rw [h.si]
  exact ⟨h.idx, h.win, ⟨hs.stamp, hs.RTT, hs.Df.add _, hs.Db.add _, hs.thnaive, hs.ofRun⟩,
    ⟨hl.Dfhat.add hd _, hl.Dbhat.add hd _, hl.Asymhat.add hd _⟩⟩

/-- A stamp of the full phase adds to all histories. -/
theorem fullPhase_going (hd : d ≤ n) (inp : Input D) (h : Going F z n W n n d s) :
    Returns (fullPhase mp inp s) (Going F z n W (n + 1) (n + 1) (d + 1)) := by
  refine Returns.bind (manageHistorywin_going h _ _) fun s1 h1 => ?_
  -- RTThat is added to first, the asymmetry next
  refine Returns.bind (Q := Going F z n W n n d) ?_ fun s2 h2 => ?_
  · refine (processRTTFull_frame _ _).mono ?_
    rintro s2 ⟨rtt, e, perr, nhat, h', stt, rfl⟩
    have hs := h1.series
    exact ⟨h1.idx, h1.win, ⟨hs.stamp, hs.RTT, hs.Df, hs.Db, hs.thnaive, hs.ofRun⟩,
      ⟨h1.late.Dfhat, h1.late.Dbhat, h1.late.Asymhat⟩⟩
  refine Returns.bind (processOWDAsymFull_going hd h2 _) fun s3 h3 => ?_
  -- pDf and pDb: neither branch of the update touches a history
  refine Returns.bind (Q := Going F z n W (n + 1) n (d + 1)) ?_ fun s4 h4 => ?_
  · refine (updateNextPstamp_cases _ _ _).mono ?_
    rintro s4 ⟨c, rfl | ⟨-, -, perr, nhat, rfl⟩⟩
    · exact ⟨h3.idx, h3.win, h3.series, h3.late⟩
    · exact ⟨h3.idx, h3.win, h3.series, h3.late⟩
  -- what follows reads the histories, and the penalty adds the last series
  refine Returns.bind (processPhatFull_frame _ _ _ _) ?_
  rintro s5 ⟨K, phat, perr, c, stt, rfl⟩
  refine Returns.bind (processPlocalFull_frame _ _) ?_
  rintro s6 ⟨en, ends, ploc, out, stt, rfl⟩
  refine Returns.bind (processThetahatFull_frame _ _ _ _ _) ?_
  rintro s7 ⟨t, off, bound, stt, out, rfl, -⟩
  refine (updatePathpenaltyFull_frame _ _ _).mono ?_
  rintro s8 ⟨pen, out, rfl⟩
  have hs := h4.series
  have hsi := h4.si
  refine ⟨h4.idx, h4.win, ⟨hs.stamp, hs.RTT, hs.Df, hs.Db, ?_, hs.ofRun⟩,
    ⟨h4.late.Dfhat, h4.late.Dbhat, h4.late.Asymhat⟩⟩
  show Kept z (n + 1) (historyAdd s4.hist.thnaive s4.si _)
  rw [hsi]
  exact hs.thnaive.add _

end Phases

/-! ## The invariant -/

/-- The number of slots of the histories in warmup, where it is known (`sized`). -/
def warmSlots (sized : Bool) (W : Nat) : Option Nat := if sized then some W else none

/-- In warmup, before stamp `n` is recorded; with `sized`, the warmup window fits the size of a
history. -/
structure Warming (F : Nat → BidirStamp D) (sized : Bool) (n : Nat) (s : AlgoState D) : Prop where
  idx : s.stampI = n
  more : n < s.win.warmupWin
  hundred : 100 ≤ s.win.warmupWin
  half : s.win.warmupWin + s.win.shiftWin ≤ s.win.hWin / 2
  small : sized = true → s.win.warmupWin < 2 ^ 32
  series : Series F (warmSlots sized s.win.warmupWin) n n n s.hist
  noHats : Kept none 0 s.hist.RTThat
  late : Late 0 s.hist

/-- The invariant between calls, after `n` stamps. -/
structure HistInv (F : Nat → BidirStamp D) (sized : Bool) (n : Nat) (s : AlgoState D) : Prop where
  pos : 0 < n
  idx : s.stampI + 1 = n
  hundred : 100 ≤ s.win.warmupWin
  series : Series F none n n n s.hist
  late : Late (n - s.win.warmupWin) s.hist
  noHats : n < s.win.warmupWin → Kept none 0 s.hist.RTThat
  hats : n = s.win.warmupWin → Kept none n s.hist.RTThat
  /-- In warmup, the last stamp of which is stamp `warmup_win - 1`. -/
  warm : n ≤ s.win.warmupWin → s.win.warmupWin + s.win.shiftWin ≤ s.win.hWin / 2 ∧
    (sized = true → s.win.warmupWin < 2 ^ 32) ∧
    Series F (warmSlots sized s.win.warmupWin) n n n s.hist

/-- The warmup window a configuration asks for, at the first stamp. -/
def requiredWarmup (conf : Config D) : Nat :=
  neededWarmup (newWindows conf.metaparam conf.pollPeriod ⟨0, 0, 0, 0, 0, 0, 0, 0, 0, 0⟩)

/-- The warmup window that the first stamp, or a configuration change in warmup, leads to fits
an `unsigned int`. -/
def WarmupFits (conf : Config D) (s : AlgoState D) : Prop :=
  s.stampI = -1 ∨ conf.algoUpdate = true ∧ s.stampI + 1 < s.win.warmupWin →
    requiredWarmup conf + (s.stampI + 1).toNat < 2 ^ 32

/-- The warmup after an update: at the first stamp the longer one, later the new one from here
on. -/
theorem adjustedWarmup_new (i : Nat) (conf : Config D) (w : Windows) :
    adjustedWarmup i conf.pollPeriod (newWindows conf.metaparam conf.pollPeriod w) =
      if i = 0 then max w.warmupWin (requiredWarmup conf) else requiredWarmup conf + i := by
  by_cases hi : i = 0
  · rw [if_pos hi, hi, adjustedWarmup_zero]
    rfl
  · rw [if_neg hi, adjustedWarmup_pos hi conf.minPoll]
    rfl

/-- A history that starts late does so after a resize. -/
theorem Late.resize {d : Nat} {h : Hists D} (hl : Late d h) (sz : HistSizes) :
    Late d (resizeHists sz h) :=
  ⟨hl.Dfhat.resize _, hl.Dbhat.resize _, hl.Asymhat.resize _⟩

section Calls

variable {F : Nat → BidirStamp D} {sized : Bool} {n : Nat} {s : AlgoState D}

/-- Items of the run stay items of the run. -/
theorem OfRun.resize {k : Nat} {h : Hists D} (ho : OfRun F k h) (sz : HistSizes) :
    OfRun F k (resizeHists sz h) := by
  intro j hj
  obtain ⟨hst, hr⟩ := ho j hj
  constructor
  · show (historyResize h.stamp sz.stamp).added j = _
    rw [historyResize_added]
    exact hst
  · show (historyResize h.RTT sz.RTT).added j = _
    rw [historyResize_added]
    exact hr

/-- The histories of every phase, in other sizes. -/
theorem Series.resize {k m t : Nat} {h : Hists D} (hs : Series F none k m t h) (sz : HistSizes) :
    Series F none k m t (resizeHists sz h) :=
  ⟨hs.stamp.resize _ (by simp), hs.RTT.resize _ (by simp), hs.Df.resize _ (by simp),
    hs.Db.resize _ (by simp), hs.thnaive.resize _ (by simp), hs.ofRun.resize sz⟩

omit [Arith D] in
/-- The stamp counter as an unsigned index. -/
theorem si_of_idx (h : s.stampI = n) : s.si = n := by
  unfold AlgoState.si
  omega

/-- A configuration change in warmup. All items survive: the new warmup window is longer than
what has been recorded. -/
theorem reactToUpdate_warming (conf : Config D) (h : Warming F sized n s)
    (hfit : sized = true → conf.algoUpdate = true → requiredWarmup conf + n < 2 ^ 32) :
    Returns (reactToUpdate conf s) (Warming F sized n) := by
  -- without an update nothing is resized
  refine Returns.ite (fun hupd => ?_) fun _ => Returns.pure h
  have hsi := si_of_idx h.idx
  have hmore := h.more
  refine (updateState_cases _ _ _).mono ?_
  rintro s' ⟨poll, -, ⟨-, rfl⟩ | ⟨hge, -⟩⟩
  · have hok := newWindows_ok conf.metaparam conf.pollPeriod s.win
    have hwarm : WarmWin (warmWindows s.si conf.pollPeriod
        (newWindows conf.metaparam conf.pollPeriod s.win)) :=
      warmWindows_ok conf.minPoll hok fun _ => h.hundred
    have hW : (warmWindows s.si conf.pollPeriod
        (newWindows conf.metaparam conf.pollPeriod s.win)).warmupWin =
        if n = 0 then max s.win.warmupWin (requiredWarmup conf) else requiredWarmup conf + n := by
      rw [← hsi]
      exact adjustedWarmup_new s.si conf s.win
    generalize hw' : warmWindows s.si conf.pollPeriod
      (newWindows conf.metaparam conf.pollPeriod s.win) = w' at hwarm hW
    -- the warmup left after the change is at least one shift window
    have hreq : 100 ≤ requiredWarmup conf := by
      have hshift : 100 ≤ baseShiftWin conf.metaparam conf.pollPeriod := Nat.le_max_right _ _
      have : baseShiftWin conf.metaparam conf.pollPeriod ≤ requiredWarmup conf :=
        Nat.le_trans (Nat.le_max_left _ _) (Nat.le_max_right _ _)
      omega
    have hlt : n < w'.warmupWin := by
      rw [hW]
      split <;> omega
    have hsmall : sized = true → w'.warmupWin < 2 ^ 32 := by
      intro hb
      have h1 := hfit hb hupd
      have h2 := h.small hb
      rw [hW]
      split <;> omega
    -- during warmup every history gets the size of the new warmup
    have hsizes : histSizes s.si w' = ⟨histSz w'.warmupWin, histSz w'.warmupWin,
        histSz w'.warmupWin, histSz w'.warmupWin⟩ := by
      unfold histSizes
      rw [hsi, if_pos hlt]
    -- the slots are exact only where the size still fits 32 bits
    have hslots : ∀ W ∈ warmSlots sized w'.warmupWin, histSz w'.warmupWin = W ∧
        ∃ W₀ ∈ warmSlots sized s.win.warmupWin, n ≤ W₀ := by
      intro W hmem
      cases hb : sized with
      | false =>
        rw [hb] at hmem
        cases hmem
      | true =>
        rw [hb] at hmem
        cases hmem
        exact ⟨Nat.mod_eq_of_lt (hsmall hb), _, rfl, Nat.le_of_lt hmore⟩
    have hs := h.series
    refine ⟨h.idx, hlt, hwarm.hundred, hwarm.half, hsmall, ?_, ?_, ?_⟩
    · show Series F _ n n n (resizeHists (histSizes s.si w') s.hist)
      rw [hsizes]
      exact ⟨hs.stamp.resize _ hslots, hs.RTT.resize _ hslots, hs.Df.resize _ hslots,
        hs.Db.resize _ hslots, hs.thnaive.resize _ hslots, hs.ofRun.resize _⟩
    · exact h.noHats.resize _ (by simp)
    · exact h.late.resize _
  · omega

/-- A configuration change in the full phase. -/
theorem reactToUpdate_going (conf : Config D) {W d : Nat} (hidx : s.stampI = n)
    (hwin : s.win.warmupWin = W) (hW : W ≤ n) (hs : Series F none n n n s.hist)
    (hl : Late d s.hist) :
    Returns (reactToUpdate conf s) fun s' => s'.stampI = n ∧ s'.win.warmupWin = W ∧
      Series F none n n n s'.hist ∧ Late d s'.hist := by
  refine Returns.ite (fun _ => ?_) fun _ => Returns.pure ⟨hidx, hwin, hs, hl⟩
  have hsi := si_of_idx hidx
  refine (updateState_cases _ _ _).mono ?_
  rintro s' ⟨poll, -, ⟨hlt, -⟩ | ⟨-, v, e, rfl⟩⟩
  · omega
  · exact ⟨hidx, hwin, hs.resize _, hl.resize _⟩

/-- The last statements of a call leave the histories alone. -/
theorem finish_hist (mp : Metaparam D) (st : BidirStamp D) (s : AlgoState D) :
    Returns (do
      let s ← updateErrors mp st (copyStamp st s)
      pure (fillOutput st.RTT s)) (fun s' => s'.stampI = s.stampI ∧ s'.win = s.win ∧
        s'.hist = s.hist) := by
  obtain ⟨stats, hcopy⟩ := copyStamp_frame st s
  rw [hcopy]
  refine Returns.bind (updateErrors_frame _ _ _) ?_
  rintro s1 ⟨err, rfl⟩
  exact Returns.pure ⟨rfl, rfl, rfl⟩

omit [Arith D] in
/-- The invariant is a matter of the index, the windows and the histories. -/
theorem HistInv.congr {s' : AlgoState D} (h : HistInv F sized n s) (hidx : s'.stampI = s.stampI)
    (hwin : s'.win = s.win) (hhist : s'.hist = s.hist) : HistInv F sized n s' := by
  constructor
  · exact h.pos
  · rw [hidx]
    exact h.idx
  · rw [hwin]
    exact h.hundred
  · rw [hhist]
    exact h.series
  · rw [hwin, hhist]
    exact h.late
  · rw [hwin, hhist]
    exact h.noHats
  · rw [hwin, hhist]
    exact h.hats
  · rw [hwin, hhist]
    exact h.warm

omit [Arith D] in
/-- The stamp and its RTT are recorded. -/
theorem Series.record {z : Option Nat} (hidx : s.stampI = n) (hs : Series F z n n n s.hist) :
    Series F z (n + 1) n n (recordStamp (F n) s).hist := by
  have hsi := si_of_idx hidx
  refine ⟨?_, ?_, hs.Df, hs.Db, hs.thnaive, fun j hj => ?_⟩
  · show Kept _ (n + 1) (historyAdd s.hist.stamp s.si _)
    rw [hsi]
    exact hs.stamp.add _
  · show Kept _ (n + 1) (historyAdd s.hist.RTT s.si _)
    rw [hsi]
    exact hs.RTT.add _
  · have hst := hs.stamp.newest
    have hr := hs.RTT.newest
    show (historyAdd s.hist.stamp s.si (F n)).added j = _ ∧
      (historyAdd s.hist.RTT s.si (F n).RTT).added j = _
    rw [hsi, historyAdd_added (by omega), historyAdd_added (by omega)]
    rcases Nat.lt_succ_iff_lt_or_eq.mp hj with hlt | rfl
    · rw [Function.update_of_ne (by omega), Function.update_of_ne (by omega)]
      exact hs.ofRun j hlt
    · rw [Function.update_self, Function.update_self]
      exact ⟨rfl, rfl⟩

/-- The phase of a stamp in warmup, other than the first. -/
theorem phases_warming (conf : Config D) (inp : Input D) (hinp : inp.stamp = F n) (hn : 0 < n)
    (h : Warming F sized n s) :
    Returns (phases conf inp (recordStamp inp.stamp s)) (HistInv F sized (n + 1)) := by
  have hsi := si_of_idx h.idx
  have hrec := hinp ▸ h.series.record h.idx
  have hidx := h.idx
  have hmore := h.more
  unfold phases
  -- the stamp is past the first and before the end of warmup
  refine Returns.ite (fun hz => absurd (h.idx.symm.trans hz) (by omega)) fun _ => ?_
  refine Returns.ite (fun _ => ?_) fun hge => absurd (show s.si < s.win.warmupWin by omega) hge
  have hlate := h.late
  refine (warmupPhase_series (s := recordStamp inp.stamp s) hsi h.more inp.stamp hrec h.noHats
    ⟨hlate.Dfhat, hlate.Dbhat, hlate.Asymhat⟩).mono ?_
  rintro s' ⟨hidx', hww, hws, hwh, hs', hr', hf', hl'⟩
  have hidx'' : s'.stampI = n := hidx'.trans hidx
  change s'.win.warmupWin = s.win.warmupWin at hww
  change s'.win.shiftWin = s.win.shiftWin at hws
  change s'.win.hWin = s.win.hWin at hwh
  refine ⟨by omega, by omega, hww ▸ h.hundred, hs'.loose, ?_, ?_, ?_, fun _ => ?_⟩
  · rw [hww, Nat.sub_eq_zero_of_le (by omega)]
    exact hl'
  · rw [hww]
    exact hr'
  · rw [hww]
    exact hf'
  · rw [hww, hws, hwh]
    exact ⟨h.half, h.small, hs'⟩

/-- The phase of a stamp after warmup. -/
theorem phases_going (conf : Config D) (inp : Input D) (hinp : inp.stamp = F n) {W : Nat}
    (hW : 100 ≤ W) (hn : W ≤ n) (hidx : s.stampI = n) (hwin : s.win.warmupWin = W)
    (hs : Series F none n n n s.hist) (hl : Late (n - W) s.hist) :
    Returns (phases conf inp (recordStamp inp.stamp s)) (HistInv F sized (n + 1)) := by
  have hsi := si_of_idx hidx
  have hgo : Going F none n W n n (n - W) (recordStamp inp.stamp s) :=
    ⟨hidx, hwin, hinp ▸ hs.record hidx, ⟨hl.Dfhat, hl.Dbhat, hl.Asymhat⟩⟩
  unfold phases
  refine Returns.ite (fun hz => absurd (hidx.symm.trans hz) (by omega)) fun _ => ?_
  refine Returns.ite (fun hlt =>
    absurd (show s.si < s.win.warmupWin from hlt) (by omega)) fun _ => ?_
  refine (fullPhase_going (by omega) inp hgo).mono ?_
  intro s' h'
  have hidx' := h'.idx
  have hwin' := h'.win
  refine ⟨by omega, by omega, by omega, h'.series, ?_, fun h => absurd h (by omega),
    fun h => absurd h (by omega), fun h => absurd h (by omega)⟩
  rw [hwin', show n + 1 - W = n - W + 1 by omega]
  exact h'.late

/-- One call, with or without an update. -/
theorem RADalgoBidir_hist (conf : Config D) (inp : Input D) (hinp : inp.stamp = F n)
    (h : HistInv F sized n s) (hfit : sized = true → WarmupFits conf s) :
    Returns (RADalgoBidir conf inp s) (HistInv F sized (n + 1)) := by
  have hn := h.pos
  have hidx := h.idx
  have hnext : nextStamp conf s = { s with stampI := s.stampI + 1 } :=
    nextStamp_later conf (by omega)
  have hphases : Returns (do
      let s ← reactToUpdate conf { s with stampI := s.stampI + 1 }
      phases conf inp (recordStamp inp.stamp s)) (HistInv F sized (n + 1)) := by
    -- the phase is the one of the state before, since an update never ends a warmup
    by_cases hW : n < s.win.warmupWin
    · obtain ⟨hhalf, hsmall, hseries⟩ := h.warm (Nat.le_of_lt hW)
      have hlate := h.late
      rw [Nat.sub_eq_zero_of_le (Nat.le_of_lt hW)] at hlate
      have hw : Warming F sized n { s with stampI := s.stampI + 1 } :=
        ⟨hidx, hW, h.hundred, hhalf, hsmall, hseries, h.noHats hW, hlate⟩
      refine Returns.bind (reactToUpdate_warming conf hw fun hb hupd => ?_) fun s1 h1 =>
        phases_warming conf inp hinp hn h1
      have hfits := hfit hb (Or.inr ⟨hupd, by omega⟩)
      rw [hidx] at hfits
      exact hfits
    · refine Returns.bind (reactToUpdate_going (s := { s with stampI := s.stampI + 1 }) conf hidx
        rfl (Nat.not_lt.mp hW) h.series h.late) ?_
      rintro s1 ⟨hidx1, hwin1, hs1, hl1⟩
      exact phases_going conf inp hinp h.hundred (Nat.not_lt.mp hW) hidx1 hwin1 hs1 hl1
  unfold RADalgoBidir
  rw [hnext]
  intro s3 hres
  obtain ⟨s1, hr1, hres⟩ := bind_res_some.mp hres
  obtain ⟨s2, hr2, hres⟩ := bind_res_some.mp hres
  -- what the call does after the phases leaves the histories alone
  have h2 := hphases s2 (bind_res_some.mpr ⟨s1, hr1, hr2⟩)
  obtain ⟨hidx3, hwin3, hhist3⟩ := finish_hist conf.metaparam inp.stamp s2 s3 hres
  exact h2.congr hidx3 hwin3 hhist3

/-- The histories of the first call. -/
theorem kept_initHists (sz : Nat) : Series F (some sz) 0 0 0 (initHists sz : Hists D) ∧
    Kept none 0 (initHists sz : Hists D).RTThat ∧ Late 0 (initHists sz : Hists D) :=
  ⟨⟨kept_init _ _, kept_init _ _, kept_init _ _, kept_init _ _, kept_init _ _,
      fun j hj => absurd hj (Nat.not_lt_zero j)⟩,
    (kept_init _ _).loose, ⟨lagging_init _ _, lagging_init _ _, lagging_init _ _⟩⟩

/-- The set-up of the first stamp. -/
theorem warming_first (conf : Config D)
    (hfit : sized = true → WarmupFits conf (AlgoState.zero : AlgoState D)) :
    Warming F sized 0 (nextStamp conf (AlgoState.zero : AlgoState D)) := by
  have hok := newWindows_ok conf.metaparam conf.pollPeriod (AlgoState.zero : AlgoState D).win
  have hwarm : WarmWin (nextStamp conf (AlgoState.zero : AlgoState D)).win :=
    warmWindows_ok conf.minPoll ⟨hok.offset, hok.plocal, hok.shift⟩ fun _ => Nat.le_refl 100
  have hW : (nextStamp conf (AlgoState.zero : AlgoState D)).win.warmupWin =
      max 100 (requiredWarmup conf) := adjustedWarmup_zero conf.pollPeriod _
  have hhist : (nextStamp conf (AlgoState.zero : AlgoState D)).hist = initHists
    (histSz (nextStamp conf (AlgoState.zero : AlgoState D)).win.warmupWin) := rfl
  have hidx : (nextStamp conf (AlgoState.zero : AlgoState D)).stampI = ((0 : Nat) : Int) := rfl
  generalize nextStamp conf (AlgoState.zero : AlgoState D) = s0 at hwarm hW hhist hidx ⊢
  obtain ⟨hseries, hr, hl⟩ := kept_initHists (F := F) (histSz s0.win.warmupWin)
  rw [← hhist] at hseries hr hl
  have hsmall : sized = true → s0.win.warmupWin < 2 ^ 32 := by
    intro hb
    have hfits : requiredWarmup conf + 0 < 2 ^ 32 := hfit hb (Or.inl rfl)
    omega
  -- with nothing added yet the initial sizes hold trivially
  have hslots : Series F (warmSlots sized s0.win.warmupWin) 0 0 0 s0.hist := by
    cases hb : sized with
    | false => exact hseries.loose
    | true =>
      have hsz : histSz s0.win.warmupWin = s0.win.warmupWin := Nat.mod_eq_of_lt (hsmall hb)
      rw [hsz] at hseries
      exact hseries
  have hundred := hwarm.hundred
  exact ⟨hidx, by omega, hundred, hwarm.half, hsmall, hslots, hr, hl⟩

/-- The first stamp. -/
theorem RADalgoBidir_hist_first (conf : Config D) (inp : Input D) (hinp : inp.stamp = F 0)
    (hfit : sized = true → WarmupFits conf (AlgoState.zero : AlgoState D)) :
    Returns (RADalgoBidir conf inp AlgoState.zero) (HistInv F sized 1) := by
  -- the state before the first stamp is a warming one with no items
  have hw0 := warming_first (F := F) conf hfit
  have hfits : sized = true → requiredWarmup conf + 0 < 2 ^ 32 := fun hb => hfit hb (Or.inl rfl)
  unfold RADalgoBidir
  refine Returns.bind (reactToUpdate_warming conf hw0 fun hb _ => hfits hb) fun s1 h1 => ?_
  have hsi := si_of_idx h1.idx
  have hs := h1.series
  have hmore := h1.hundred
  have hphase : phases conf inp (recordStamp inp.stamp s1) =
      pure (initPhase conf inp.stamp (recordStamp inp.stamp s1)) := if_pos h1.idx
  rw [hphase]
  have hrec := hinp ▸ hs.record h1.idx
  -- the first call adds one item to each warmup series
  have hseries1 : Series F (warmSlots sized s1.win.warmupWin) 1 1 1
      (initPhase conf inp.stamp (recordStamp inp.stamp s1)).hist := by
    refine ⟨hrec.stamp, hrec.RTT, ?_, ?_, ?_, hrec.ofRun⟩
    · show Kept _ 1 (historyAdd s1.hist.Df s1.si _)
      rw [hsi]
      exact hs.Df.add _
    · show Kept _ 1 (historyAdd s1.hist.Db s1.si _)
      rw [hsi]
      exact hs.Db.add _
    · show Kept _ 1 (historyAdd s1.hist.thnaive s1.si _)
      rw [hsi]
      exact hs.thnaive.add _
  have hidx1 : s1.stampI + 1 = ((1 : Nat) : Int) := by
    have := h1.idx
    omega
  have hinv : HistInv F sized 1 (initPhase conf inp.stamp (recordStamp inp.stamp s1)) := by
    refine ⟨Nat.one_pos, hidx1, hmore, hseries1.loose, ?_, fun _ => h1.noHats, fun h => ?_,
      fun _ => ⟨h1.half, h1.small, hseries1⟩⟩
    · have hlate := h1.late
      have hzero : 1 - (initPhase conf inp.stamp (recordStamp inp.stamp s1)).win.warmupWin = 0 :=
        Nat.sub_eq_zero_of_le (show 1 ≤ s1.win.warmupWin by omega)
      rw [hzero]
      exact ⟨hlate.Dfhat, hlate.Dbhat, hlate.Asymhat⟩
    · change 1 = s1.win.warmupWin at h
      omega
  -- the rest of the call changes no history
  refine (finish_hist conf.metaparam inp.stamp _).mono ?_
  rintro s2 ⟨hidx2, hwin2, hhist2⟩
  exact hinv.congr hidx2 hwin2 hhist2

end Calls

/-! ## Runs -/

/-- Any number of calls. -/
theorem runFrom_hist {F : Nat → BidirStamp D} {sized : Bool} (cs : List (Call D)) :
    ∀ (n : Nat) (s : AlgoState D), HistInv F sized n s → Follows F n cs →
      (sized = true → RunMeets (fun c s => WarmupFits c.conf s) cs s) →
      Returns (runFrom cs s) (HistInv F sized (n + cs.length)) := by
  induction cs with
  | nil => exact fun n s h _ _ => Returns.pure h
  | cons c cs ih =>
    intro n s h hf hm s'' hres
    obtain ⟨s', hcall, hrest⟩ := bind_res_some.mp hres
    have h' := RADalgoBidir_hist c.conf c.inp hf.head h (fun hb => (hm hb).1) s' hcall
    have hlast := ih (n + 1) s' h' hf.tail (fun hb => (hm hb).2 s' hcall) s'' hrest
    rw [List.length_cons, show n + (cs.length + 1) = n + 1 + cs.length by omega]
    exact hlast

/-- A run from its first stamp. -/
theorem run_hist (sized : Bool) {F : Nat → BidirStamp D} {cs : List (Call D)} (hne : cs ≠ [])
    (hf : Follows F 0 cs)
    (hm : sized = true → RunMeets (fun c s => WarmupFits c.conf s) cs AlgoState.zero) :
    Returns (run cs) (HistInv F sized cs.length) := by
  cases cs with
  | nil => exact absurd rfl hne
  | cons c cs =>
    intro s' hres
    obtain ⟨s, hcall, hrest⟩ := bind_res_some.mp hres
    have h := RADalgoBidir_hist_first c.conf c.inp hf.head (fun hb => (hm hb).1) s hcall
    have hlast := runFrom_hist cs 1 s h hf.tail (fun hb => (hm hb).2 s hcall) s' hrest
    rw [Nat.add_comm] at hlast
    exact hlast

/-- Every history that has been added to is indexed by stamp number, after stamp `i`. -/
structure AllIndexed (i : Nat) (h : Hists D) : Prop where
  stamp : Touched h.stamp → Indexed i h.stamp
  Df : Touched h.Df → Indexed i h.Df
  Db : Touched h.Db → Indexed i h.Db
  Dfhat : Touched h.Dfhat → Indexed i h.Dfhat
  Dbhat : Touched h.Dbhat → Indexed i h.Dbhat
  Asymhat : Touched h.Asymhat → Indexed i h.Asymhat
  RTT : Touched h.RTT → Indexed i h.RTT
  RTThat : Touched h.RTThat → Indexed i h.RTThat
  thnaive : Touched h.thnaive → Indexed i h.thnaive

/-- No history has lost an item that it has room for in the sizes `sz`. -/
structure AllSpared (sz : HistSizes) (h h' : Hists D) : Prop where
  stamp : Spares sz.stamp h.stamp h'.stamp
  Df : Spares sz.RTT h.Df h'.Df
  Db : Spares sz.RTT h.Db h'.Db
  Dfhat : Spares sz.RTT h.Dfhat h'.Dfhat
  Dbhat : Spares sz.RTT h.Dbhat h'.Dbhat
  Asymhat : Spares sz.RTT h.Asymhat h'.Asymhat
  RTT : Spares sz.RTT h.RTT h'.RTT
  RTThat : Spares sz.RTThat h.RTThat h'.RTThat
  thnaive : Spares sz.thnaive h.thnaive h'.thnaive

/-- A resize of all histories. -/
theorem allSpared_resize (sz : HistSizes) (h : Hists D) :
    AllSpared sz h (resizeHists sz h) where
  stamp := spares_resize _ _
  Df := spares_resize _ _
  Db := spares_resize _ _
  Dfhat := spares_resize _ _
  Dbhat := spares_resize _ _
  Asymhat := spares_resize _ _
  RTT := spares_resize _ _
  RTThat := spares_resize _ _
  thnaive := spares_resize _ _

omit [Arith D] in
/-- After `i + 1` stamps: all histories are indexed by stamp number as long as the late ones have
not been added to. -/
theorem allIndexed_iff_lt {F : Nat → BidirStamp D} {i W : Nat} {h : Hists D} (hundred : 100 ≤ W)
    (hs : Series F none (i + 1) (i + 1) (i + 1) h) (hlate : Late (i + 1 - W) h)
    (hnone : i + 1 < W → Kept none 0 h.RTThat) (hfilled : i + 1 = W → Kept none (i + 1) h.RTThat) :
    AllIndexed i h ↔ i < W := by
  constructor
  · intro hall
    by_contra hge
    -- the forward delay estimates have been added to, but not from stamp `0` on
    obtain ⟨hnew, htouched⟩ := hlate.Dfhat
    have hidx := (hall.Dfhat (htouched.mpr (by omega))).1
    omega
  · intro hlt
    -- the full-phase histories have not been added to
    rw [Nat.sub_eq_zero_of_le hlt] at hlate
    have hlag : ∀ h' : History D, Lagging 0 h' → Touched h' → Indexed i h' :=
      fun h' hl ht => absurd (hl.2.mp ht) (Nat.lt_irrefl 0)
    refine ⟨fun _ => hs.stamp.indexed, fun _ => hs.Df.indexed, fun _ => hs.Db.indexed,
      hlag _ hlate.Dfhat, hlag _ hlate.Dbhat, hlag _ hlate.Asymhat, fun _ => hs.RTT.indexed, ?_,
      fun _ => hs.thnaive.indexed⟩
    by_cases hlast : i + 1 = W
    · exact fun _ => (hfilled hlast).indexed
    · exact fun ht => absurd ht (hnone (by omega)).untouched

section Inv

variable {F : Nat → BidirStamp D} {sized : Bool} {i n : Nat} {s : AlgoState D}

omit [Arith D] in
/-- Indices agree in all histories exactly while the warmup lasts. -/
theorem HistInv.allIndexed_iff (h : HistInv F sized (i + 1) s) :
    AllIndexed i s.hist ↔ i < s.win.warmupWin :=
  allIndexed_iff_lt h.hundred h.series h.late h.noHats h.hats

/-- The same once `update_state` has resized the histories. -/
theorem HistInv.allIndexed_resized_iff (h : HistInv F sized (i + 1) s) (sz : HistSizes) :
    AllIndexed i (resizeHists sz s.hist) ↔ i < s.win.warmupWin :=
  allIndexed_iff_lt h.hundred (h.series.resize sz) (h.late.resize sz)
    (fun hlt => (h.noHats hlt).resize _ (by simp)) fun hlast => (h.hats hlast).resize _ (by simp)

end Inv

/-- The history holds every index from `0` to `i`, each with the item that was added for it. -/
def HoldsAll {α : Type} (i : Nat) (h : History α) : Prop :=
  h.oldestI = 0 ∧ h.newestI = i ∧ h.itemCount = i + 1 ∧ ∀ j, j ≤ i → Finds h j

/-- Within the capacity everything added is held. -/
theorem Kept.holdsAll {α : Type} {W i : Nat} {h : History α} (hk : Kept (some W) (i + 1) h)
    (hi : i < W) : HoldsAll i h := by
  have hold := hk.oldest hi
  have hnew := hk.newest
  obtain ⟨⟨f, hholds, hf⟩, -⟩ := hk
  have hrange := hholds.range
  exact ⟨hold, by omega, by omega, fun j hj =>
    hholds.finds hf (by omega) (by omega)⟩

/-- After stamp `i` of warmup, no item has been lost, and warmup and shift windows fit into
half the history window. -/
structure WarmupWhole (i : Nat) (s : AlgoState D) : Prop where
  stamp : HoldsAll i s.hist.stamp
  RTT : HoldsAll i s.hist.RTT
  Df : HoldsAll i s.hist.Df
  Db : HoldsAll i s.hist.Db
  thnaive : HoldsAll i s.hist.thnaive
  half : s.win.warmupWin + s.win.shiftWin ≤ s.win.hWin / 2

/-- A call up to the record of its stamp, which is what its sub-algorithms look up. -/
def beginCall (c : Call D) (s : AlgoState D) : Algo D (AlgoState D) := do
  let s ← reactToUpdate c.conf (nextStamp c.conf s)
  pure (recordStamp c.inp.stamp s)

/-- Before stamp `n`, be it the first or a later one of warmup. -/
theorem beginCall_warming {F : Nat → BidirStamp D} {sized : Bool} {n : Nat} {s : AlgoState D}
    (c : Call D) (hc : c.inp.stamp = F n) (h : Warming F sized n (nextStamp c.conf s))
    (hfit : sized = true → c.conf.algoUpdate = true → requiredWarmup c.conf + n < 2 ^ 32) :
    Returns (beginCall c s) fun s' =>
      Series F (warmSlots sized s'.win.warmupWin) (n + 1) n n s'.hist := by
  refine Returns.bind (reactToUpdate_warming c.conf h hfit) fun s1 h1 => Returns.pure ?_
  exact hc ▸ h1.series.record h1.idx

/-- The items of a call in warmup, right after its stamp has been recorded. -/
theorem beginCall_whole {F : Nat → BidirStamp D} {n : Nat} {s : AlgoState D} (c : Call D)
    (hc : c.inp.stamp = F n) (h : HistInv F true n s)
    (hfit : WarmupFits c.conf s) :
    Returns (beginCall c s) fun s' => n < s'.win.warmupWin →
      Series F (some s'.win.warmupWin) (n + 1) n n s'.hist := by
  have hidx := h.idx
  have hpos := h.pos
  have hnext : nextStamp c.conf s = { s with stampI := s.stampI + 1 } :=
    nextStamp_later c.conf (by omega)
  -- still warming, or past it, where the claim about warmup items is void
  by_cases hW : n < s.win.warmupWin
  · obtain ⟨hhalf, hsmall, hseries⟩ := h.warm (Nat.le_of_lt hW)
    have hlate := h.late
    rw [Nat.sub_eq_zero_of_le (Nat.le_of_lt hW)] at hlate
    have hw : Warming F true n (nextStamp c.conf s) := by
      rw [hnext]
      exact ⟨hidx, hW, h.hundred, hhalf, hsmall, hseries, h.noHats hW, hlate⟩
    refine (beginCall_warming c hc hw fun _ hupd => ?_).mono fun s' h' _ => h'
    have hfits := hfit (Or.inr ⟨hupd, by omega⟩)
    rw [hidx] at hfits
    exact hfits
  · unfold beginCall
    rw [hnext]
    refine Returns.bind (reactToUpdate_going (s := { s with stampI := s.stampI + 1 }) c.conf hidx
      rfl (Nat.not_lt.mp hW) h.series h.late) ?_
    rintro s1 ⟨-, hwin1, -, -⟩
    refine Returns.pure fun hlt => ?_
    change n < s1.win.warmupWin at hlt
    change s1.win.warmupWin = s.win.warmupWin at hwin1
    omega

end RADclock
