import RADclock.Daemon.Capacity
import RADclock.Sync.SelectedSizes

/-!
# An update at the end of warmup

At the long polling periods, both the warmup window and the shift window have their minimum of 100
stamps, so that the shift windows still start at stamp `0` when warmup ends. A change of the
polling period at the next stamp keeps 100 slots for the one-way delays, and does not restart
their shift window: it slides over stamp `0`, which that stamp has pushed out.
-/

namespace RADclock

open Lib Lib.Exec

section Short

variable {D : Type} [Arith D] {F : Nat → BidirStamp D} {n : Nat} {s : AlgoState D} {w : Windows}
  {conf : Config D}

/-- A history that has been given all its items is full. -/
theorem Stocked.full {α : Type} {sz n : Nat} {h : History α} (hs : Stocked sz n h) (hle : sz ≤ n) :
    h.itemCount = h.bufferSz := by
  have hdense := hs.dense
  unfold Dense at hdense
  rw [hdense, hs.size, Nat.min_eq_right hle]

/-- Warmup goes through, and starts the full algorithms with its last stamp. -/
theorem run_started (hupd : conf.algoUpdate = false)
    (hsz : (startWindows conf).warmupWin < 2 ^ 32) (inp : Input D) (inps : List (Input D))
    (hlen : (startWindows conf).warmupWin = inps.length + 1)
    (hf : Follows F 0 (under conf (inp :: inps))) :
    Sat Event.Held False (run (under conf (inp :: inps))) fun s =>
      Inv F (inps.length + 1) s ∧ s.win.warmupWin ≤ inps.length + 1 ∧
        Started F (inps.length + 1) inps.length (startWindows conf) s := by
  refine Sat.bind (RADalgoBidir_first conf inp hf.head hupd hsz) fun s₁ h₁ => ?_
  -- step by step; the last call is the one that ends the warmup
  have hrest := runFrom_sat (P := Event.Held) (H := False)
    (I := fun k s => InWarm F (startWindows conf) k s ∨
      k = inps.length + 1 ∧ Inv F k s ∧ s.win.warmupWin ≤ k ∧
        Started F k inps.length (startWindows conf) s)
    (under conf inps) 1 s₁ (Or.inl h₁) fun k c s hk h => by
      obtain ⟨inp', -, rfl⟩ := List.mem_map.mp (List.mem_of_getElem? hk)
      have hlt : k < inps.length := by
        have hidx := (List.getElem?_eq_some_iff.mp hk).1
        rw [under, List.length_map] at hidx
        exact hidx
      rcases h with h | ⟨hend, -⟩
      · refine (RADalgoBidir_warm conf inp' (hf.tail k _ hk) hupd h).mono ?_
        rintro s' (h' | ⟨hinv, hW, hle, hs⟩)
        · exact Or.inl h'
        · have hk' : 0 + 1 + k = inps.length := by omega
          rw [hk'] at hinv hle hs
          rw [show 1 + k = inps.length by omega]
          exact Or.inr ⟨rfl, hinv, hle, hs⟩
      · omega
  refine hrest.mono ?_
  rintro s (h | ⟨hk, hinv, hle, hs⟩)
  · have hmore := h.more
    rw [under, List.length_map] at hmore
    omega
  · rw [hk] at hinv hle hs
    exact ⟨hinv, hle, hs⟩

omit [Arith D] in
/-- The restart of the shift window looks up no stamp that has been pushed out. -/
theorem restartShift_started (hat : At F n s) (hR : Holds (rttOf F) n s.hist.RTT)
    (hst : Stocked n n s.hist.RTT) : Sat Event.Held False (restartShift s) fun _ => True := by
  have hpos := hat.pos
  have hok : OkFrom (D := D) Event.Held False s.hist.RTT (restartShiftEnd s) n :=
    hst.okFrom (by omega)
  have hend : restartShiftEnd s ≤ n - 1 := by
    unfold restartShiftEnd
    rw [hat.si, hst.old hpos hpos, wsub_of_le hpos]
    dsimp only
    split
    · rw [wsub_of_le (by omega)]
      omega
    · omega
  refine Sat.bind (Q := fun k => restartShiftEnd s ≤ k ∧ k ≤ n - 1) ?_ ?_
  · show Sat _ _ (minScan ltVC s.hist.RTT (restartShiftEnd s) (wsub s.si 1)) _
    rw [hat.si, wsub_of_le hpos]
    exact (minScan_sat hR hend (by omega) hok).mono fun k hk => ⟨hk.left, hk.right⟩
  · rintro k ⟨hk1, hk2⟩
    exact Sat.bind (historyGet_ok (hok k hk1 (by omega))) fun v _ => Sat.pure True.intro

theorem resizeAll_full (h : s.win.warmupWin ≤ s.si) :
    (resizeAll s).hist = resizeHists (fullSizes s.win) s.hist :=
  congrArg (resizeHists · s.hist) (histSizes_of_warm h)

theorem Stock.resize {z z' : HistSizes} {k m t r : Nat} {h : Hists D} (hst : Stock z k m t r h)
    (hstamp : z'.stamp ≤ z.stamp) (hRTT : z'.RTT ≤ z.RTT) (hhat : z'.RTThat ≤ z.RTThat)
    (hthnaive : z'.thnaive ≤ z.thnaive) : Stock z' k m t r (resizeHists z' h) :=
  ⟨hst.stamp.resize (Or.inl hstamp), hst.RTT.resize (Or.inl hRTT), hst.Df.resize (Or.inl hRTT),
    hst.Db.resize (Or.inl hRTT), hst.thnaive.resize (Or.inl hthnaive),
    hst.RTThat.resize (Or.inl hhat)⟩

/-- The first stamp of the full phase brings a change, with shift windows as long as warmup. -/
theorem beginCall_started {c : Call D} (hupd : c.conf.algoUpdate = true) (hinv : Inv F (n + 1) s)
    (hle : s.win.warmupWin ≤ n + 1) (hs : Started F (n + 1) n w s) (hw : w.shiftWin = n + 1)
    {z : HistSizes} (hz : fullSizes (startWindows c.conf) = z) (hstamp : z.stamp ≤ n + 1)
    (hRTT : z.RTT ≤ n + 1) (hhat : z.RTThat ≤ n + 1) :
    Sat Event.Held False (beginCall c s) fun s' => s'.si = n + 1 ∧ s'.win.shiftEndOWD = 0 ∧
      s'.win.shiftWin = (startWindows c.conf).shiftWin ∧
        Stock z (n + 2) (n + 1) (n + 1) (n + 1) s'.hist := by
  have hat := hinv.next_at
  -- the warmup is over
  have hfull : Full F (n + 1) (n + 1) (n + 1) (n + 1) s := by
    rcases hinv.phase with ⟨-, hlt⟩ | ⟨hf, -⟩
    · exact absurd hlt (Nat.not_lt.mpr hle)
    · exact hf
  have hnext : nextStamp c.conf s = { s with stampI := s.stampI + 1 } := by
    have hidx := hinv.idx
    exact nextStamp_later c.conf (by omega)
  have hthnaive : z.thnaive = z.RTThat := by
    rw [← hz]
    rfl
  -- nothing has slid yet
  have hend : s.win.shiftEndOWD = 0 := by
    rw [hs.shiftOWD]
    unfold shiftStart
    rw [if_neg (by omega)]
  -- the update looks up only what is held
  have hupdate : Sat Event.Held False
      (reactToUpdate c.conf { s with stampI := s.stampI + 1 }) fun _ => True := by
    obtain ⟨poll, -, hset⟩ := newParams_frame c.conf.metaparam c.conf.pollPeriod
      { s with stampI := s.stampI + 1 }
    unfold reactToUpdate updateState
    rw [if_pos hupd, hset]
    refine Sat.bind (Q := fun _ => True) (Sat.ite (fun _ => Sat.pure True.intro) fun _ => ?_)
      fun s1 _ => Sat.pure True.intro
    exact restartShift_started ⟨hat.pos, hat.idx, hat.last⟩ hfull.rtts hs.stock.RTT
  unfold beginCall
  rw [hnext]
  refine Sat.bind (Q := fun s1 => s1.si = n + 1 ∧ s1.win.shiftEndOWD = 0 ∧
    s1.win.shiftWin = (startWindows c.conf).shiftWin ∧
      Stock z (n + 1) (n + 1) (n + 1) (n + 1) s1.hist) ?_ ?_
  · refine (hupdate.and_returns (Returns.ite (fun _ => updateState_cases _ _ _)
      fun hno => absurd hupd hno)).mono ?_
    rintro s1 ⟨-, poll, -, ⟨hlt, -⟩ | ⟨hge, v, e, rfl⟩⟩
    · rw [hat.si] at hlt
      exact absurd hlt (Nat.not_lt.mpr hle)
    · -- it resizes the histories for the new windows
      have hz' : fullSizes { newWindows c.conf.metaparam c.conf.pollPeriod s.win with
          shiftEnd := e } = z := (fullSizes_congr rfl rfl rfl).trans hz
      refine ⟨hat.si, hend, rfl, ?_⟩
      rw [resizeAll_full (by exact hge)]
      show Stock z _ _ _ _ (resizeHists (fullSizes
        { newWindows c.conf.metaparam c.conf.pollPeriod s.win with shiftEnd := e }) s.hist)
      rw [hz']
      exact hs.stock.resize hstamp hRTT hhat (by rw [hthnaive]; exact hhat)
  · rintro s1 ⟨hsi, hend1, hshift1, hst⟩
    refine Sat.pure ⟨hsi, hend1, hshift1, ?_⟩
    unfold recordStamp
    rw [hsi]
    exact hst.record _

omit [Arith D] in
/-- A stock that is larger than the sizes fills them. -/
theorem Stock.refilled {z : HistSizes} {k m t r : Nat} {h : Hists D} (hst : Stock z k m t r h)
    (hstamp : 0 < z.stamp ∧ z.stamp ≤ k) (hRTT : 0 < z.RTT ∧ z.RTT ≤ k ∧ z.RTT ≤ m)
    (hhat : z.RTThat ≤ r) (hthnaive : z.thnaive ≤ t) : Refilled h where
  someStamp := by rw [hst.stamp.size]; exact hstamp.1
  someRTT := by rw [hst.RTT.size]; exact hRTT.1
  stamp := hst.stamp.full hstamp.2
  RTT := hst.RTT.full hRTT.2.1
  Df := hst.Df.full hRTT.2.2
  Db := hst.Db.full hRTT.2.2
  RTThat := hst.RTThat.full hhat
  thnaive := hst.thnaive.full hthnaive

/-- The window of the one-way delays slides over stamp `0`, which is not held any more. -/
theorem not_suffices_started {inp : Input D} {z : HistSizes} {t r : Nat} (hsi : s.si = n + 1)
    (hend : s.win.shiftEndOWD = 0) (hshift : s.win.shiftWin = n + 1) (hRTT : z.RTT = n + 1)
    (hst : Stock z (n + 2) (n + 1) t r s.hist) : ¬ Suffices inp s := by
  intro hsuff
  have hslide : wsub s.win.shiftWin 1 + s.win.shiftEndOWD ≤ s.si := by
    rw [hend, hshift, hsi, wsub_of_le (Nat.le_add_left 1 n)]
    omega
  have hDf := (hsuff.shiftOWD hslide 0 0).1.1
  rw [hend, hsi, (hst.Df.add 0).oldest, hRTT] at hDf
  omega

end Short

/-! ## From 1024 to 512 seconds -/

/-- The polling period is halved, which changes no window. -/
def halvedConf : Config Float := pollSet 9

def halved : Call Float := ⟨halvedConf, ⟨steady 100, false, 0⟩⟩

theorem halved_selects :
    (startWindows slowest).warmupWin = 100 ∧ (startWindows slowest).shiftWin = 100 ∧
      (startWindows halvedConf).shiftWin = 100 ∧
        (fullSizes (startWindows halvedConf)).stamp = 15 ∧
          (fullSizes (startWindows halvedConf)).RTT = 100 ∧
            (fullSizes (startWindows halvedConf)).RTThat = 2 := by
  decide +kernel

/-- Stamp 100 after 100 stamps of warmup: the histories are full, and do not suffice. -/
theorem halved_short (inp : Input Float) (inps : List (Input Float)) (hlen : inps.length = 99) :
    ∃ s₀, (run (under slowest (inp :: inps))).res = some s₀ ∧ s₀.win.warmupWin ≤ 100 ∧
      ∃ s, (beginCall halved s₀).res = some s ∧ Refilled s.hist ∧ ¬ Suffices halved.inp s := by
  obtain ⟨hW, hsw, hsw', hstamp, hRTT, hhat⟩ := halved_selects
  have hthnaive : (fullSizes (startWindows halvedConf)).thnaive = 2 := hhat
  have hupd : slowest.algoUpdate = false := by decide
  obtain ⟨s₀, hres, hinv, hle, hs⟩ := (run_started hupd (by rw [hW]; decide) inp inps
    (by rw [hW, hlen]) (follows_stampsOf _)).exists_res
  rw [hlen] at hinv hle hs
  obtain ⟨s, hcall, hsi, hend, hshift, hst⟩ := (beginCall_started (c := halved) rfl hinv hle hs
    hsw rfl (by show (fullSizes (startWindows halvedConf)).stamp ≤ _; omega)
    (by show (fullSizes (startWindows halvedConf)).RTT ≤ _; omega)
    (by show (fullSizes (startWindows halvedConf)).RTThat ≤ _; omega)).exists_res
  change Stock (fullSizes (startWindows halvedConf)) _ _ _ _ _ at hst
  exact ⟨s₀, hres, hle, s, hcall, hst.refilled (by omega) (by omega) (by omega) (by omega),
    not_suffices_started hsi hend (hshift.trans hsw') hRTT hst⟩

theorem sizes_suffice_iff_halved : ∃ s₀ s,
    (run (under slowest (⟨steady 0, false, 0⟩ :: inputsOf (fun k => steady (k + 1)) 99))).res =
      some s₀ ∧ (beginCall halved s₀).res = some s ∧ Refilled s.hist ∧ ¬ SizesFit s := by
  obtain ⟨s₀, hres, hle, s, hcall, hfull, hnot⟩ :=
    halved_short ⟨steady 0, false, 0⟩ (inputsOf (fun k => steady (k + 1)) 99) (by simp [inputsOf])
  have hlen : (under slowest (inputsOf (fun k => steady (k + 1)) 99)).length = 99 := by
    simp [under, inputsOf]
  refine ⟨s₀, s, hres, hcall, hfull, fun hfit => hnot ?_⟩
  have hlast : [halved] = [] ++ [halved] := rfl
  exact (sizes_suffice_iff _ (under slowest _) hlast rfl (by simp) s₀ hres
    (by rw [hlen]; exact hle) s hcall hfull).mpr hfit

end RADclock
