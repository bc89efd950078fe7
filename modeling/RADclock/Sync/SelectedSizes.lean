import RADclock.Sync.Availability
import RADclock.Sync.Divisors
import RADclock.Sync.ShiftWindows

/-!
# The history sizes of the full phase

`update_state` gives each history the size that the windows ask for. The windows in force can ask
for more: a full shift window takes one slot more than its length to slide, the window of the OWDs
is not restarted, and the end windows of the local period keep the width that an earlier local
period window has given them.

- `OfSizes`, `Refilled`: the sizes of the histories that are looked up, with all slots taken.
- `Suffices`, `SizesFit`: what the sizes are to be enough for, and what it takes.
- `sizes_suffice_iff`: one is equivalent to the other, in any run with no change since
  `update_state`.
-/

namespace RADclock

open Lib Lib.Exec

variable {D : Type}

/-! ## Sizes -/

/-- The histories have the sizes `z`. -/
structure OfSizes (z : HistSizes) (h : Hists D) : Prop where
  stamp : h.stamp.bufferSz = z.stamp
  RTT : h.RTT.bufferSz = z.RTT
  Df : h.Df.bufferSz = z.RTT
  Db : h.Db.bufferSz = z.RTT
  RTThat : h.RTThat.bufferSz = z.RTThat
  thnaive : h.thnaive.bufferSz = z.thnaive

/-- The sizes that `update_state` selects in the full phase. -/
def fullSizes (w : Windows) : HistSizes where
  stamp := histSz (max (plocalSpan w) w.offsetWin)
  RTT := histSz (max (plocalSpan w) (max w.offsetWin w.shiftWin))
  RTThat := histSz w.offsetWin
  thnaive := histSz w.offsetWin

theorem histSizes_of_warm {si : Nat} {w : Windows} (h : w.warmupWin ≤ si) :
    histSizes si w = fullSizes w := if_neg (Nat.not_lt.mpr h)

/-! ## Statement -/

/-- All slots of the histories that are looked up are taken. -/
structure Refilled (h : Hists D) : Prop where
  someStamp : 0 < h.stamp.bufferSz
  someRTT : 0 < h.RTT.bufferSz
  stamp : h.stamp.itemCount = h.stamp.bufferSz
  RTT : h.RTT.itemCount = h.RTT.bufferSz
  Df : h.Df.itemCount = h.Df.bufferSz
  Db : h.Db.itemCount = h.Db.bufferSz
  RTThat : h.RTThat.itemCount = h.RTThat.bufferSz
  thnaive : h.thnaive.itemCount = h.thnaive.bufferSz

/-- How far back the availability test of `process_plocal_full` looks. -/
def plocalNeed (s : AlgoState D) : Nat := s.win.plocalWin + s.ends.wwidth + s.ends.wwidth / 2

/-- What the histories are to be enough for in the call for a stamp that has been recorded. -/
structure Suffices [Arith D] (inp : Input D) (s : AlgoState D) : Prop where
  /-- The shift windows that slide find their exiting entry. -/
  shift : wsub s.win.shiftWin 1 + s.win.shiftEnd ≤ s.si → s.hist.RTT.Has s.win.shiftEnd
  shiftOWD : wsub s.win.shiftWin 1 + s.win.shiftEndOWD ≤ s.si → ∀ Df Db,
    (historyAdd s.hist.Df s.si Df).Has s.win.shiftEndOWD ∧
      (historyAdd s.hist.Db s.si Db).Has s.win.shiftEndOWD
  /-- The offset window is held. -/
  room : s.win.offsetWin ≤ s.si + 1
  offset : ∀ k ≤ s.si, s.si + 1 ≤ k + s.win.offsetWin →
    s.hist.stamp.Has k ∧ s.hist.RTT.Has k ∧ ∀ hat theta,
      (historyAdd s.hist.RTThat s.si hat).Has k ∧ (historyAdd s.hist.thnaive s.si theta).Has k
  /-- After enough stamps since the polling period has changed, the test succeeds. -/
  plocal : s.poll.pollChangedI + plocalNeed s ≤ s.si + 1 →
    PastTest s ∧ Returns (toPlocal inp s) PastTest

/-- The windows in force fit the histories. -/
structure SizesFit (s : AlgoState D) : Prop where
  shift : wsub s.win.shiftWin 1 + s.win.shiftEnd ≤ s.si →
    s.si + 1 ≤ s.win.shiftEnd + (fullSizes s.win).RTT
  shiftOWD : wsub s.win.shiftWin 1 + s.win.shiftEndOWD ≤ s.si →
    s.si + 1 ≤ s.win.shiftEndOWD + (fullSizes s.win).RTT
  offset : s.win.offsetWin ≤ (fullSizes s.win).stamp ∧ s.win.offsetWin ≤ (fullSizes s.win).RTT ∧
    s.win.offsetWin ≤ (fullSizes s.win).RTThat
  plocal : s.poll.pollChangedI + plocalNeed s ≤ s.si + 1 →
    plocalNeed s ≤ (fullSizes s.win).stamp ∧ plocalNeed s ≤ (fullSizes s.win).RTT

section Full

variable {α : Type} {f : Nat → α} {n k : Nat} {h : History α}

/-- A history without a free slot holds as many of the last items as it has slots. -/
theorem Holds.has_iff (hh : Holds f n h) (hfull : h.itemCount = h.bufferSz) :
    h.Has k ↔ n ≤ k + h.bufferSz ∧ k < n := by
  have hnew := hh.newest
  have hrange := hh.range
  unfold History.Has
  omega

theorem Holds.has_add_iff (hh : Holds f n h) (hfull : h.itemCount = h.bufferSz) (item : α) :
    (historyAdd h n item).Has k ↔ n + 1 ≤ k + h.bufferSz ∧ k ≤ n := by
  have hnew := hh.newest
  have hfull' : (historyAdd h n item).itemCount = (historyAdd h n item).bufferSz := by
    rw [historyAdd_bufferSz]
    unfold historyAdd
    rw [if_neg (by omega)]
    show (if h.itemCount < h.bufferSz then h.itemCount + 1 else h.itemCount) = _
    rw [if_neg (by omega), hfull]
  rw [(hh.snoc item).has_iff hfull', historyAdd_bufferSz, Nat.lt_succ_iff]

theorem Kept.exists_holds [Zero α] {z : Option Nat} (hk : Kept z n h) : ∃ f, Holds f n h := by
  obtain ⟨⟨f, hholds, -⟩, -⟩ := hk
  exact ⟨f, hholds⟩

end Full

section Calls

variable [Arith D] {z : HistSizes} {s : AlgoState D} {h : Hists D} {mp : Metaparam D} {n W : Nat}

theorem ofSizes_resize (z : HistSizes) (h : Hists D) : OfSizes z (resizeHists z h) where
  stamp := historyResize_bufferSz _ _
  RTT := historyResize_bufferSz _ _
  Df := historyResize_bufferSz _ _
  Db := historyResize_bufferSz _ _
  RTThat := historyResize_bufferSz _ _
  thnaive := historyResize_bufferSz _ _

omit [Arith D] in
/-- Additions leave the sizes alone. -/
theorem OfSizes.record (hs : OfSizes z s.hist) (st : BidirStamp D) :
    OfSizes z (recordStamp st s).hist :=
  { hs with
    stamp := (historyAdd_bufferSz _ _ _).trans hs.stamp
    RTT := (historyAdd_bufferSz _ _ _).trans hs.RTT }

theorem processRTTFull_ofSizes (hs : OfSizes z s.hist) (RTT : VCounter) :
    Returns (processRTTFull RTT s) fun s' => OfSizes z s'.hist := by
  have hadd : OfSizes z (updateRTTMinima RTT s).hist :=
    { hs with RTThat := (historyAdd_bufferSz _ _ _).trans hs.RTThat }
  refine Returns.bind (updateRTTShift_frame RTT (updateRTTMinima RTT s)) ?_
  rintro s1 ⟨v, e, rfl⟩
  refine Returns.ite (fun _ => ?_) fun _ => Returns.pure hadd
  dsimp only
  obtain ⟨perr, nhat, heq⟩ := recalcNextPstamp_frame (adoptShift
    { updateRTTMinima RTT s with
      rtt := { (updateRTTMinima RTT s).rtt with RTThatShift := v }
      win := { (updateRTTMinima RTT s).win with shiftEnd := e } })
  rw [heq]
  refine Returns.bind (rewriteBack_bufferSz _ _ _ _) fun h' hh' => Returns.pure ?_
  exact { hadd with RTThat := hh'.trans hadd.RTThat }

theorem fullPhase_ofSizes (hs : OfSizes z s.hist) (inp : Input D) :
    Returns (fullPhase mp inp s) fun s' => OfSizes z s'.hist := by
  refine Returns.bind (manageHistorywin_series _ _) ?_
  rintro s1 ⟨-, hhist1, -, -⟩
  refine Returns.bind (processRTTFull_ofSizes (hhist1 ▸ hs) _) fun s2 h2 => ?_
  refine Returns.bind (processOWDAsymFull_frame _ _) ?_
  rintro s3 ⟨owd, e, Dfhat, Dbhat, Asymhat, rfl⟩
  refine Returns.bind (updateNextPstamp_series _ _) ?_
  rintro s4 ⟨-, hhist4, -⟩
  refine Returns.bind (processPhatFull_frame _ _ _ _) ?_
  rintro s5 ⟨K, phat, perr, c, stt, rfl⟩
  refine Returns.bind (processPlocalFull_frame _ _) ?_
  rintro s6 ⟨en, ends, ploc, out, stt, rfl⟩
  refine Returns.bind (processThetahatFull_frame _ _ _ _ _) ?_
  rintro s7 ⟨t, off, bound, stt, out, rfl, -⟩
  refine (updatePathpenaltyFull_frame _ _ _).mono ?_
  rintro s8 ⟨pen, out, rfl⟩
  have h4 : OfSizes z s4.hist := by
    rw [hhist4]
    exact { h2 with
      Df := (historyAdd_bufferSz _ _ _).trans h2.Df
      Db := (historyAdd_bufferSz _ _ _).trans h2.Db }
  exact { h4 with thnaive := (historyAdd_bufferSz _ _ _).trans h4.thnaive }

/-- The sizes of the full phase, with the warmup window `W` behind, inside the call for a stamp or
between calls. -/
structure Selected (W : Nat) (s : AlgoState D) : Prop where
  warm : s.win.warmupWin = W
  sizes : OfSizes (fullSizes s.win) s.hist

omit [Arith D] in
theorem fullSizes_congr {w w' : Windows} (hs : w'.shiftWin = w.shiftWin)
    (hp : w'.plocalWin = w.plocalWin) (ho : w'.offsetWin = w.offsetWin) :
    fullSizes w' = fullSizes w := by
  unfold fullSizes plocalSpan
  rw [hs, hp, ho]

/-- The rest of a call of the full phase. -/
theorem Selected.finish (h : Selected W s) (hidx : s.stampI = n) (hpos : 0 < n) (hW : W ≤ n)
    (c : Call D) :
    Returns (phases c.conf c.inp s >>= endCall c.conf.metaparam c.inp.stamp) fun s' =>
      Selected W s' ∧ s'.stampI = n := by
  have hsi := si_of_idx hidx
  have hfull : phases c.conf c.inp s = fullPhase c.conf.metaparam c.inp s := by
    unfold phases
    rw [if_neg (by omega), if_neg (by rw [h.warm]; omega)]
  have hseries := phases_series (s := s) c.conf c.inp (by omega)
  rw [hfull] at hseries ⊢
  refine Returns.bind (hseries.and (fullPhase_ofSizes h.sizes c.inp)) ?_
  rintro s1 ⟨⟨hsame, -⟩, hsizes⟩
  refine ((endCall_series _).and (finish_hist _ _ _)).mono ?_
  rintro s2 ⟨⟨hsame2, -⟩, -, hwin2, hhist2⟩
  refine ⟨⟨?_, ?_⟩, hsame2.idx.trans (hsame.idx.trans hidx)⟩
  · rw [hsame2.warmupWin, hsame.warmupWin, h.warm]
  · rw [hhist2, fullSizes_congr (hsame2.shiftWin.trans hsame.shiftWin)
      (hsame2.plocalWin.trans hsame.plocalWin) (hsame2.offsetWin.trans hsame.offsetWin)]
    exact hsizes

/-- `update_state` in the full phase selects the sizes. -/
theorem beginCall_selects {c : Call D} (hupd : c.conf.algoUpdate = true) (hidx : s.stampI + 1 = n)
    (hpos : 0 < n) (hW : s.win.warmupWin ≤ n) :
    Returns (beginCall c s) fun s' => Selected s.win.warmupWin s' ∧ s'.stampI = n := by
  have hnext : nextStamp c.conf s = { s with stampI := s.stampI + 1 } :=
    nextStamp_later c.conf (by omega)
  have hsi : ({ s with stampI := s.stampI + 1 } : AlgoState D).si = n := si_of_idx hidx
  unfold beginCall
  rw [hnext]
  refine Returns.bind (Q := fun s' => Selected s.win.warmupWin s' ∧ s'.stampI = n) ?_ ?_
  · refine Returns.ite (fun _ => ?_) fun hno => absurd hupd hno
    refine (updateState_cases _ _ _).mono ?_
    rintro s1 ⟨poll, -, ⟨hlt, -⟩ | ⟨hge, v, e, rfl⟩⟩
    · exact absurd hlt (by rw [hsi]; exact Nat.not_lt.mpr hW)
    · refine ⟨⟨rfl, ?_⟩, hidx⟩
      have hsizes := ofSizes_resize
        (fullSizes (newWindows c.conf.metaparam c.conf.pollPeriod s.win)) s.hist
      unfold resizeAll
      rw [histSizes_of_warm (by exact hge)]
      exact hsizes
  · rintro s1 ⟨h1, hidx1⟩
    exact Returns.pure ⟨⟨h1.warm, h1.sizes.record _⟩, hidx1⟩

/-- A call without a change leaves them. -/
theorem Selected.begin (h : Selected W s) {c : Call D} (hupd : c.conf.algoUpdate = false)
    (hidx : s.stampI + 1 = n) (hpos : 0 < n) :
    Returns (beginCall c s) fun s' => Selected W s' ∧ s'.stampI = n := by
  rw [beginCall_idle c hupd (by omega)]
  have hsizes : OfSizes (fullSizes s.win) ({ s with stampI := s.stampI + 1 } : AlgoState D).hist :=
    h.sizes
  exact Returns.pure ⟨⟨h.warm, hsizes.record c.inp.stamp⟩, hidx⟩

theorem Selected.runFrom (h : Selected W s) (hpos : 0 < n) (hW : W ≤ n) {ds : List (Call D)}
    (hds : ∀ d ∈ ds, d.conf.algoUpdate = false) (hidx : s.stampI + 1 = n) :
    Returns (runFrom ds s) fun s' => Selected W s' ∧ s'.stampI + 1 = n + ds.length := by
  induction ds generalizing n s with
  | nil => exact Returns.pure ⟨h, hidx⟩
  | cons d ds ih =>
    obtain ⟨hd, hds⟩ := List.forall_mem_cons.mp hds
    refine Returns.bind (Q := fun s' => Selected W s' ∧ s'.stampI = n) ?_ ?_
    · rw [RADalgoBidir_eq, bind_assoc]
      refine Returns.bind (h.begin hd hidx hpos) ?_
      rintro s1 ⟨h1, hidx1⟩
      exact h1.finish hidx1 hpos hW d
    · rintro s1 ⟨h1, hidx1⟩
      refine (ih h1 (Nat.succ_pos n) (Nat.le_succ_of_le hW) hds (by omega)).mono ?_
      rintro s2 ⟨h2, hidx2⟩
      rw [List.length_cons]
      exact ⟨h2, by omega⟩

/-- From the update to the call for any later stamp. -/
theorem selected_since {c e : Call D} {init ds : List (Call D)} (hlast : c :: ds = init ++ [e])
    (hupd : c.conf.algoUpdate = true) (hds : ∀ d ∈ ds, d.conf.algoUpdate = false)
    (hidx : s.stampI + 1 = n) (hpos : 0 < n) (hW : s.win.warmupWin ≤ n) :
    Returns (runFrom init s) fun s1 => s1.win.warmupWin = s.win.warmupWin ∧
      Returns (beginCall e s1) (Selected s.win.warmupWin) := by
  cases init with
  | nil =>
    obtain ⟨rfl, rfl⟩ := List.cons.inj hlast
    exact Returns.pure ⟨rfl, (beginCall_selects hupd hidx hpos hW).mono fun s' h' => h'.1⟩
  | cons c' init =>
    obtain ⟨rfl, rfl⟩ := List.cons.inj hlast
    obtain ⟨hinit, he⟩ := List.forall_mem_append.mp hds
    refine Returns.bind (Q := fun s' => Selected s.win.warmupWin s' ∧ s'.stampI = n) ?_ ?_
    · rw [RADalgoBidir_eq, bind_assoc]
      refine Returns.bind (beginCall_selects hupd hidx hpos hW) ?_
      rintro s1 ⟨h1, hidx1⟩
      exact h1.finish hidx1 hpos hW c
    · rintro s1 ⟨h1, hidx1⟩
      refine (h1.runFrom (Nat.succ_pos n) (Nat.le_succ_of_le hW) hinit (by omega)).mono ?_
      rintro s2 ⟨h2, hidx2⟩
      refine ⟨h2.warm, ?_⟩
      exact (h2.begin (he e List.mem_cons_self) hidx2 (by omega)).mono fun s' h' => h'.1

/-! ## In a call -/

variable {F : Nat → BidirStamp D}

/-- Inside the call for stamp `n`, before the one-way delays and the naive offset are added. -/
structure Looking (F : Nat → BidirStamp D) (n : Nat) (s : AlgoState D) : Prop where
  within : Within F n n s
  series : Series F none (n + 1) n n s.hist
  sizes : OfSizes (fullSizes s.win) s.hist
  full : Refilled s.hist

theorem Looking.oldest (h : Looking F n s) :
    s.hist.stamp.oldestI + (fullSizes s.win).stamp = n + 1 ∧
      s.hist.RTT.oldestI + (fullSizes s.win).RTT = n + 1 := by
  have hstamp := h.within.stamps.range
  have hrtt := h.within.rtts.range
  rw [h.full.stamp, h.sizes.stamp] at hstamp
  rw [h.full.RTT, h.sizes.RTT] at hrtt
  exact ⟨hstamp, hrtt⟩

theorem Looking.shift_iff (h : Looking F n s)
    (hslide : wsub s.win.shiftWin 1 + s.win.shiftEnd ≤ n) :
    s.hist.RTT.Has s.win.shiftEnd ↔ n + 1 ≤ s.win.shiftEnd + (fullSizes s.win).RTT := by
  rw [h.within.rtts.has_iff h.full.RTT, h.sizes.RTT]
  omega

theorem Looking.shiftOWD_iff (h : Looking F n s)
    (hslide : wsub s.win.shiftWin 1 + s.win.shiftEndOWD ≤ n) (Df Db : D) :
    (historyAdd s.hist.Df n Df).Has s.win.shiftEndOWD ∧
      (historyAdd s.hist.Db n Db).Has s.win.shiftEndOWD ↔
      n + 1 ≤ s.win.shiftEndOWD + (fullSizes s.win).RTT := by
  obtain ⟨f, hf⟩ := h.series.Df.exists_holds
  obtain ⟨b, hb⟩ := h.series.Db.exists_holds
  rw [hf.has_add_iff h.full.Df, hb.has_add_iff h.full.Db, h.sizes.Df, h.sizes.Db]
  omega

/-- What holds stamp `k`, in terms of the sizes. -/
theorem Looking.offset_iff (h : Looking F n s) (k : Nat) (hk : k ≤ n) :
    (s.hist.stamp.Has k ∧ s.hist.RTT.Has k ∧ ∀ hat theta,
      (historyAdd s.hist.RTThat n hat).Has k ∧ (historyAdd s.hist.thnaive n theta).Has k) ↔
      n + 1 ≤ k + (fullSizes s.win).stamp ∧ n + 1 ≤ k + (fullSizes s.win).RTT ∧
        n + 1 ≤ k + (fullSizes s.win).RTThat := by
  obtain ⟨hats, hhats⟩ := h.within.hats
  obtain ⟨t, ht⟩ := h.series.thnaive.exists_holds
  have hthnaive : (fullSizes s.win).thnaive = (fullSizes s.win).RTThat := rfl
  have hadd (hat : VCounter) (theta : D) :
      (historyAdd s.hist.RTThat n hat).Has k ∧ (historyAdd s.hist.thnaive n theta).Has k ↔
        n + 1 ≤ k + (fullSizes s.win).RTThat := by
    rw [hhats.has_add_iff h.full.RTThat, ht.has_add_iff h.full.thnaive, h.sizes.RTThat,
      h.sizes.thnaive, hthnaive]
    omega
  rw [h.within.stamps.has_iff h.full.stamp, h.within.rtts.has_iff h.full.RTT, h.sizes.stamp,
    h.sizes.RTT]
  constructor
  · rintro ⟨⟨hstamp, -⟩, ⟨hrtt, -⟩, hhat⟩
    exact ⟨hstamp, hrtt, (hadd 0 0).mp (hhat 0 0)⟩
  · rintro ⟨hstamp, hrtt, hhat⟩
    exact ⟨⟨hstamp, by omega⟩, ⟨hrtt, by omega⟩, fun hat theta => (hadd hat theta).mpr hhat⟩

/-- Nothing before `process_plocal_full` has a part in its test. -/
theorem toPlocal_pastTest (h : Within F n n s) (inp : Input D) (hpast : PastTest s) :
    Returns (toPlocal inp s) PastTest := by
  refine (toPlocal_within h inp).mono ?_
  rintro s' ⟨hsame, -, hends, -⟩
  have hsi : s'.si = s.si := by
    unfold AlgoState.si
    rw [hsame.idx]
  unfold PastTest availableEnd requiredEnd at hpast ⊢
  rw [hsame.pollChangedI, hsame.stamp, hsame.RTT, hsi, hsame.plocalWin, hends]
  exact hpast

/-- The test, when the window does not reach back before the first stamp. -/
theorem Looking.pastTest_iff (h : Looking F n s)
    (hlong : s.poll.pollChangedI + plocalNeed s ≤ n + 1) :
    PastTest s ↔
      plocalNeed s ≤ (fullSizes s.win).stamp ∧ plocalNeed s ≤ (fullSizes s.win).RTT := by
  obtain ⟨hstamp, hrtt⟩ := h.oldest
  have hcount : s.hist.stamp.itemCount = (fullSizes s.win).stamp :=
    h.full.stamp.trans h.sizes.stamp
  have hcount' : s.hist.RTT.itemCount = (fullSizes s.win).RTT := h.full.RTT.trans h.sizes.RTT
  have hreq : requiredEnd s = n + 1 - plocalNeed s := by
    unfold requiredEnd
    rw [h.within.si]
    exact wsub_of_le (by unfold plocalNeed at hlong; omega)
  have hsome := h.full.someStamp
  have hsome' := h.full.someRTT
  rw [h.sizes.stamp] at hsome
  rw [h.sizes.RTT] at hsome'
  unfold PastTest availableEnd
  rw [hreq, historyOld_eq (by omega), historyOld_eq (by omega)]
  omega

theorem Looking.suffices_iff (h : Looking F n s) (inp : Input D) :
    Suffices inp s ↔ SizesFit s := by
  have hsi := h.within.si
  have hok := h.within.win.ok
  have htwo := hok.offset
  obtain ⟨hstamp, hrtt⟩ := h.oldest
  constructor
  · rintro ⟨hshift, hshiftOWD, hroom, hoffset, hplocal⟩
    rw [hsi] at hshift hshiftOWD hroom hoffset hplocal
    refine ⟨fun hs => ?_, fun hs => ?_, ?_, fun hlong => ?_⟩ <;> try rw [hsi] at *
    · exact (h.shift_iff hs).mp (hshift hs)
    · exact (h.shiftOWD_iff hs 0 0).mp (hshiftOWD hs 0 0)
    · -- the first stamp of the window
      have hfirst := hoffset (n + 1 - s.win.offsetWin) (by omega) (by omega)
      obtain ⟨h1, h2, h3⟩ := (h.offset_iff _ (by omega)).mp hfirst
      exact ⟨by omega, by omega, by omega⟩
    · exact (h.pastTest_iff hlong).mp (hplocal hlong).1
  · rintro ⟨hshift, hshiftOWD, ⟨ho1, ho2, ho3⟩, hplocal⟩
    rw [hsi] at hshift hshiftOWD hplocal
    refine ⟨fun hs => ?_, fun hs Df Db => ?_, ?_, fun k hk hwin => ?_, fun hlong => ?_⟩ <;>
      rw [hsi] at *
    · exact (h.shift_iff hs).mpr (hshift hs)
    · exact (h.shiftOWD_iff hs Df Db).mpr (hshiftOWD hs)
    · omega
    · exact (h.offset_iff k hk).mpr ⟨by omega, by omega, by omega⟩
    · have hpast := (h.pastTest_iff hlong).mpr (hplocal hlong)
      exact ⟨hpast, toPlocal_pastTest h.within inp hpast⟩

/-! ## Runs -/

theorem Returns.of_bind {ε α β : Type} {m : Exec ε α} {f : α → Exec ε β} {Q : β → Prop}
    (h : Returns (m >>= f) Q) : Returns m fun a => Returns (f a) Q :=
  fun _ ha _ hb => h _ (bind_res_some.mpr ⟨_, ha, hb⟩)

theorem beginCall_series {c : Call D} (hinp : c.inp.stamp = F n) (h : HistInv F false n s)
    (hW : s.win.warmupWin ≤ n) :
    Returns (beginCall c s) fun s' => Series F none (n + 1) n n s'.hist := by
  have hpos := h.pos
  have hidx := h.idx
  have hnext : nextStamp c.conf s = { s with stampI := s.stampI + 1 } :=
    nextStamp_later c.conf (by omega)
  unfold beginCall
  rw [hnext]
  refine Returns.bind (reactToUpdate_going (s := { s with stampI := s.stampI + 1 }) c.conf hidx
    rfl hW h.series h.late) ?_
  rintro s1 ⟨hidx1, -, hs1, -⟩
  exact Returns.pure (hinp ▸ hs1.record hidx1)

/-- In a call of the full phase, with no change of the configuration since `update_state` has run
in the full phase, the histories that are full are enough exactly if the windows in force fit. -/
theorem sizes_suffice_iff (c₀ : Call D) (cs : List (Call D)) {c e : Call D}
    {init ds : List (Call D)} (hlast : c :: ds = init ++ [e]) (hupd : c.conf.algoUpdate = true)
    (hds : ∀ d ∈ ds, d.conf.algoUpdate = false) :
    Returns (run (c₀ :: cs)) fun s₀ => s₀.win.warmupWin ≤ cs.length + 1 →
      Returns (runFrom init s₀ >>= beginCall e) fun s => Refilled s.hist →
        (Suffices e.inp s ↔ SizesFit s) := by
  have hcall : Returns (run (c₀ :: cs)) fun s₀ => Returns (runFrom init s₀ >>= beginCall e)
      fun s => s.si = (c₀ :: cs ++ init).length ∧ (s.win.warmupWin ≤ s.si →
        Within (stampsOf (c₀ :: cs ++ init ++ [e])) (c₀ :: cs ++ init).length
          (c₀ :: cs ++ init).length s) := by
    -- the whole run is the run up to the change followed by the calls after it
    have hrun := run_beginCall (c₀ :: cs ++ init) e (follows_stampsOf _)
    have happ : run (c₀ :: cs ++ init) = run (c₀ :: cs) >>= runFrom init := runFrom_append _ _ _
    rw [happ, bind_assoc] at hrun
    refine Returns.of_bind (hrun.mono ?_)
    rintro s ⟨hsi, -, -, hfull⟩
    exact ⟨hsi, hfull⟩
  have hf : Follows (stampsOf (c₀ :: cs ++ init ++ [e])) 0 ((c₀ :: cs ++ init) ++ [e]) :=
    follows_stampsOf _
  have hinit := hf.left.right
  have hinv := run_hist false (List.cons_ne_nil c₀ cs) hf.left.left fun h => (nomatch h)
  refine (hinv.and hcall).mono ?_
  rintro s₀ ⟨hinv, hcall⟩ hW
  -- no update since, so the sizes are still those chosen at the change
  have hsince := selected_since hlast hupd hds hinv.idx hinv.pos hW
  -- what is held when the next call has taken its stamp
  have hlook : Returns (runFrom init s₀ >>= beginCall e) fun s =>
      Series (stampsOf (c₀ :: cs ++ init ++ [e])) none ((c₀ :: cs ++ init).length + 1)
        (c₀ :: cs ++ init).length (c₀ :: cs ++ init).length s.hist ∧
        Selected s₀.win.warmupWin s := by
    refine Returns.bind ((runFrom_hist init _ _ hinv (by simpa using hinit)
      fun h => (nomatch h)).and hsince) ?_
    rintro s1 ⟨h1, hwarm, hbegin⟩
    rw [← List.length_append] at h1
    refine (beginCall_series (by simpa using hf.right.head) h1 ?_).and hbegin
    rw [hwarm, List.length_append]
    exact Nat.le_trans hW (Nat.le_add_right _ _)
  refine (hcall.and hlook).mono ?_
  rintro s ⟨⟨hsi, hwithin⟩, hseries, hsel⟩ hfull
  refine Looking.suffices_iff ⟨hwithin ?_, hseries, hsel.sizes, hfull⟩ e.inp
  rw [hsel.warm, hsi, List.length_append]
  exact Nat.le_trans hW (Nat.le_add_right _ _)

end Calls

end RADclock
