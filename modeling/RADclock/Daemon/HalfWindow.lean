import RADclock.Daemon.Capacity
import RADclock.Sync.Slides

/-!
# A change of polling period that skips the half window

A run that polls every 70 seconds and, before its half window at stamp 4320, changes to 73
seconds: the half window of the new period, 4142, already lies behind. The end of the window
stays where it was, at stamp 8639, and the slide there adopts a `pstamp` that was never
prepared.

- `Coasts`: the full phase between the marks of `manage_historywin`, with `h_win` and
  `history_end` known.
- `slides_retimed_fails`: the run in question.
-/

namespace RADclock

open Lib Lib.Exec

/-- Not a half-window initialisation. -/
def Event.NotHalf {D : Type} : Event D → Prop
  | .halfWindow _ => False
  | _ => True

variable {D : Type}

theorem Event.Silent.notHalf {e : Event D} (h : e.Silent) : e.NotHalf := by
  cases e with
  | halfWindow => exact h
  | slide => exact True.intro
  | find => exact True.intro
  | diff => exact True.intro
  | pointErr => exact True.intro

variable [Arith D] {F : Nat → BidirStamp D} {n : Nat} {s : AlgoState D} {w : Windows}
  {conf : Config D} {z z' : HistSizes}

/-! ## Calls away from the half window -/

theorem manageHistorywin_notHalf (st : BidirStamp D) (RTT : VCounter)
    (h : s.si ≠ s.win.hWin / 2) : Emits Event.NotHalf (manageHistorywin st RTT s) := by
  have hhalf : manageHistorywin st RTT s = reachEnd st RTT s := by
    unfold manageHistorywin reachHalf
    rw [if_neg h]
    rfl
  have hget (h : History D) : Emits Event.NotHalf (historyGet h (wsub s.si 1) : Algo D D) :=
    historyGet_emits (fun _ _ _ _ => True.intro) _ _
  rw [hhalf]
  refine Emits.ite ?_ Emits.pure
  exact Emits.bind (hget _) fun _ => Emits.bind (hget _) fun _ =>
    Emits.bind (Emits.emit True.intro) fun _ => Emits.pure

theorem finish_notHalf (mp : Metaparam D) (st : BidirStamp D) (s : AlgoState D) :
    Emits Event.NotHalf (do
      let s ← updateErrors mp st (copyStamp st s)
      pure (fillOutput st.RTT s)) :=
  Emits.bind (updateErrors_emits (fun _ _ => True.intro) _ _ _) fun _ => Emits.pure

/-- The rest of a call of the full phase, away from the half window. -/
theorem fullCall_notHalf (inp : Input D) (hat : At F n s) (hW : s.win.warmupWin ≤ n)
    (hhalf : n ≠ s.win.hWin / 2) :
    Emits Event.NotHalf (do
      let s ← phases conf inp (recordStamp inp.stamp s)
      let s ← updateErrors conf.metaparam inp.stamp (copyStamp inp.stamp s)
      pure (fillOutput inp.stamp.RTT s)) := by
  have hat' : At F n (recordStamp inp.stamp s) := ⟨hat.pos, hat.idx, hat.last⟩
  have hne : (recordStamp inp.stamp s).si ≠ (recordStamp inp.stamp s).win.hWin / 2 := by
    rw [hat'.si]
    exact hhalf
  rw [phases_full conf inp hat' hW]
  refine Emits.bind ?_ fun s' => finish_notHalf _ _ _
  exact Emits.bind (manageHistorywin_notHalf _ _ hne) fun s1 =>
    (afterManage_silent conf.metaparam inp s1).mono fun _ => Event.Silent.notHalf

/-- Away from both marks the history window stays as it is. -/
theorem fullCall_window (inp : Input D) (hat : At F n s) (hW : s.win.warmupWin ≤ n)
    (hhalf : n ≠ s.win.hWin / 2) (hend : n ≠ s.win.historyEnd) :
    Returns (do
      let s ← phases conf inp (recordStamp inp.stamp s)
      let s ← updateErrors conf.metaparam inp.stamp (copyStamp inp.stamp s)
      pure (fillOutput inp.stamp.RTT s)) (fun s' => SameWin s.win s'.win) := by
  have hat' : At F n (recordStamp inp.stamp s) := ⟨hat.pos, hat.idx, hat.last⟩
  rw [phases_full conf inp hat' hW]
  refine Returns.bind (Q := Carries inp.stamp s.osc.phat (recordStamp inp.stamp s)) ?_
    fun s1 h1 => ?_
  · refine Returns.bind (manageHistorywin_cases _ _ _) ?_
    rintro s1 ⟨s0, hs0, hcase⟩
    rw [hat'.si, if_neg (show ¬ n = (recordStamp inp.stamp s).win.hWin / 2 from hhalf)] at hs0
    subst hs0
    rcases hcase with ⟨hslide, -⟩ | ⟨-, rfl⟩
    · rw [hat'.si] at hslide
      exact absurd hslide hend
    · exact afterManage_carries conf.metaparam inp
  · refine (finish_frame _).mono ?_
    rintro s2 ⟨-, hwin, -⟩
    rw [hwin]
    exact h1.toSameWin

/-- The full phase after `n` stamps, with the windows `w` up to the end of the history window,
which is `e`. -/
structure Coasts (F : Nat → BidirStamp D) (z : HistSizes) (w : Windows) (e n : Nat)
    (s : AlgoState D) : Prop extends InFull F z n s where
  hWin : s.win.hWin = w.hWin
  historyEnd : s.win.historyEnd = e
  shiftWin : s.win.shiftWin = w.shiftWin
  plocalWin : s.win.plocalWin = w.plocalWin
  offsetWin : s.win.offsetWin = w.offsetWin

/-- A call without update, away from both marks. -/
theorem RADalgoBidir_coasts {e : Nat} (inp : Input D) (hinp : inp.stamp = F n)
    (hupd : conf.algoUpdate = false) (h : Coasts F z w e n s) (hhalf : n ≠ w.hWin / 2)
    (hend : n ≠ e) :
    Sat Event.NotHalf False (RADalgoBidir conf inp s) (Coasts F z w e (n + 1)) := by
  obtain ⟨hat, hfull, hst⟩ := h.toInFull.next
  have hh : n ≠ s.win.hWin / 2 := h.hWin.symm ▸ hhalf
  have he : n ≠ s.win.historyEnd := h.historyEnd.symm ▸ hend
  rw [RADalgoBidir_noUpdate conf inp h.inv hupd]
  refine (((fullCall_held (s := { s with stampI := s.stampI + 1 }) conf inp hinp hat hfull h.full
    hst).with_emits (fullCall_notHalf inp hat h.full hh)).and_returns
    (fullCall_window inp hat h.full hh he)).mono ?_
  rintro s' ⟨hin, hsame⟩
  exact ⟨hin, hsame.hWin.trans h.hWin, hsame.historyEnd.trans h.historyEnd,
    hsame.shiftWin.trans h.shiftWin, hsame.plocalWin.trans h.plocalWin,
    hsame.offsetWin.trans h.offsetWin⟩

/-- The change itself. -/
theorem RADalgoBidir_refit {e : Nat} (inp : Input D) (hinp : inp.stamp = F n)
    (hupd : conf.algoUpdate = true) (h : Coasts F z w e n s) (hre : Refits conf z z' w)
    (hhalf : n ≠ baseHWin conf.pollPeriod / 2) (hend : n ≠ e) :
    Sat Event.NotHalf False (RADalgoBidir conf inp s)
      (Coasts F z' { w with hWin := baseHWin conf.pollPeriod } e (n + 1)) := by
  obtain ⟨hat, hfull, hst⟩ := h.toInFull.next
  have hpos := h.inv.pos
  have hidx := h.inv.idx
  have hnext : nextStamp conf s = { s with stampI := s.stampI + 1 } :=
    nextStamp_later conf (by omega)
  have hre' : Refits conf z z' s.win :=
    ⟨hre.offset.trans h.offsetWin.symm, hre.shift.trans h.shiftWin.symm,
      by rw [hre.sizes, h.offsetWin, h.shiftWin, plocalSpan, plocalSpan, h.plocalWin],
      hre.fits.congr h.plocalWin h.shiftWin h.offsetWin, hre.stamp, hre.RTT, hre.RTThat,
      hre.thnaive⟩
  unfold RADalgoBidir
  rw [hnext]
  refine Sat.bind ((reactToUpdate_refit conf hupd hat hfull h.full hst hre').with_emits
    (reactToUpdate_emits (fun _ _ _ _ => True.intro) _ _)) ?_
  rintro s1 ⟨⟨hat1, hfull1, hW1⟩, hst1, hsame1⟩
  have hh : n ≠ s1.win.hWin / 2 := hsame1.hWin.symm ▸ hhalf
  have he : n ≠ s1.win.historyEnd := by
    rw [hsame1.historyEnd]
    exact h.historyEnd.symm ▸ hend
  refine (((fullCall_held conf inp hinp hat1 hfull1 hW1 hst1).with_emits
    (fullCall_notHalf inp hat1 hW1 hh)).and_returns (fullCall_window inp hat1 hW1 hh he)).mono ?_
  rintro s' ⟨hin, hsame⟩
  have hall := hsame1.trans hsame
  exact ⟨hin, hall.hWin, hall.historyEnd.trans h.historyEnd, hall.shiftWin.trans h.shiftWin,
    hall.plocalWin.trans h.plocalWin, hall.offsetWin.trans h.offsetWin⟩

/-- A call at the end of the window slides it. -/
theorem RADalgoBidir_slides (inp : Input D) (hupd : conf.algoUpdate = false)
    (h : Coasts F z w n n s) (hhalf : n ≠ w.hWin / 2) :
    Emits Event.NotHalf (RADalgoBidir conf inp s) ∧
      ∃ r, Event.slide n r ∈ (RADalgoBidir conf inp s).log := by
  obtain ⟨hat, hfull, hst⟩ := h.toInFull.next
  have hh : n ≠ s.win.hWin / 2 := h.hWin.symm ▸ hhalf
  have hpos := hat.pos
  have hfit := hst.fits.shift
  rw [RADalgoBidir_noUpdate conf inp h.inv hupd]
  refine ⟨fullCall_notHalf inp hat h.full hh, ?_⟩
  generalize hs0 : recordStamp inp.stamp { s with stampI := s.stampI + 1 } = s0
  have hat0 : At F n s0 := hs0 ▸ ⟨hat.pos, hat.idx, hat.last⟩
  have hwin : s0.win = s.win := hs0 ▸ rfl
  have hDf : OkFrom (D := D) Event.Held False s0.hist.Df (n - 1) n := by
    rw [← hs0]
    exact hst.stock.Df.okFrom (by omega)
  have hDb : OkFrom (D := D) Event.Held False s0.hist.Db (n - 1) n := by
    rw [← hs0]
    exact hst.stock.Db.okFrom (by omega)
  have hpred : wsub s0.si 1 = n - 1 := by
    rw [hat0.si]
    exact wsub_of_le hpos
  -- not at half a window, so the first branch is skipped
  have hmanage : manageHistorywin inp.stamp inp.stamp.RTT s0 =
      reachEnd inp.stamp inp.stamp.RTT s0 := by
    unfold manageHistorywin reachHalf
    rw [if_neg (by rw [hat0.si, hwin]; exact hh)]
    rfl
  refine ⟨s0.past.next, ?_⟩
  rw [phases_full conf inp hat0 (hwin ▸ h.full)]
  -- at the end of one the slide comes after the lookups of the two delays
  refine mem_bind_log_left (mem_bind_log_left ?_)
  rw [hmanage]
  unfold reachEnd
  rw [if_pos (by rw [hat0.si, hwin]; exact h.historyEnd.symm), hpred]
  refine mem_bind_log_right (historyGet_ok (hDf _ (Nat.le_refl _) (by omega))) fun Df _ => ?_
  refine mem_bind_log_right (historyGet_ok (hDb _ (Nat.le_refl _) (by omega))) fun Db _ => ?_
  refine mem_bind_log_left (List.mem_singleton.mpr ?_)
  show Event.slide n s0.past.next = .slide s0.si s0.past.next
  rw [hat0.si]

/-! ## From the first stamp -/

/-- Warmup, or the full phase with the window as warmup has left it. -/
def Begins (F : Nat → BidirStamp D) (w : Windows) (n : Nat) (s : AlgoState D) : Prop :=
  InWarm F w n s ∨ Coasts F (evenSizes w.warmupWin) w (wsub w.hWin 1) n s

theorem RADalgoBidir_begins (inp : Input D) (hinp : inp.stamp = F n)
    (hupd : conf.algoUpdate = false) (hw : WarmWin w) (hroom : w.shiftWin + 2 ≤ w.warmupWin)
    (h : Begins F w n s) (hhalf : n < w.hWin / 2) :
    Sat Event.NotHalf False (RADalgoBidir conf inp s) (Begins F w (n + 1)) := by
  rcases h with h | h
  · have hquiet : Emits Event.NotHalf (RADalgoBidir conf inp s) := by
      have hat := h.inv.next_at
      have hat' : At F n (recordStamp inp.stamp { s with stampI := s.stampI + 1 }) :=
        ⟨hat.pos, hat.idx, hat.last⟩
      rw [RADalgoBidir_noUpdate conf inp h.inv hupd, phases_warm conf inp hat' (h.win ▸ h.more)]
      exact Emits.bind (warmupPhase_emits (fun _ _ _ _ => True.intro) (fun _ _ => True.intro) _ _ _)
        fun _ => finish_notHalf _ _ _
    refine ((RADalgoBidir_warm conf inp hinp hupd h).with_emits hquiet).mono ?_
    rintro s' (h' | ⟨hinv, hW, hle, hs⟩)
    · exact Or.inl h'
    · refine Or.inr ⟨?_, hs.hWin, hs.historyEnd, hs.shiftWin, hs.plocalWin, hs.offsetWin⟩
      rw [hW]
      exact hs.full hinv hle hw hW hroom
  · refine (RADalgoBidir_coasts inp hinp hupd h (by omega) ?_).mono fun s' h' => Or.inr h'
    rw [wsub_of_le (by omega)]
    omega

theorem run_begins (hupd : conf.algoUpdate = false)
    (hsz : (startWindows conf).warmupWin < 2 ^ 32)
    (hroom : (startWindows conf).shiftWin + 2 ≤ (startWindows conf).warmupWin) (inp : Input D)
    (inps : List (Input D)) (hf : Follows F 0 (under conf (inp :: inps)))
    (hhalf : inps.length < (startWindows conf).hWin / 2) :
    Sat Event.NotHalf False (run (under conf (inp :: inps)))
      (Begins F (startWindows conf) (1 + inps.length)) := by
  have hfirst : Emits Event.NotHalf (RADalgoBidir conf inp AlgoState.zero) := by
    have hcall : RADalgoBidir conf inp AlgoState.zero = (do
        let s ← updateErrors conf.metaparam inp.stamp (copyStamp inp.stamp (initPhase conf inp.stamp
          (recordStamp inp.stamp (nextStamp conf AlgoState.zero))))
        pure (fillOutput inp.stamp.RTT s)) := by
      unfold RADalgoBidir reactToUpdate
      rw [hupd]
      rfl
    rw [hcall]
    exact finish_notHalf _ _ _
  refine Sat.bind ((RADalgoBidir_first conf inp hf.head hupd hsz).with_emits hfirst) fun s' h' => ?_
  have hrun := runFrom_sat (I := Begins F (startWindows conf)) (under conf inps) 1 s' (Or.inl h')
    fun k c s1 hk h1 => by
      obtain ⟨hlt, -⟩ := List.getElem?_eq_some_iff.mp hk
      rw [under, List.length_map] at hlt
      obtain ⟨inp', -, rfl⟩ := List.mem_map.mp (List.mem_of_getElem? hk)
      exact RADalgoBidir_begins inp' (hf.tail k _ hk) hupd (startWindows_ok conf) hroom h1
        (by omega)
  rw [under, List.length_map] at hrun
  exact hrun

theorem runFrom_coasts {e : Nat} (hupd : conf.algoUpdate = false) (inps : List (Input D))
    (h : Coasts F z w e n s) (hf : Follows F n (under conf inps)) (hhalf : w.hWin / 2 < n)
    (hend : n + inps.length ≤ e) :
    Sat Event.NotHalf False (runFrom (under conf inps) s) (Coasts F z w e (n + inps.length)) := by
  have hrun := runFrom_sat (I := Coasts F z w e) (under conf inps) n s h fun k c s1 hk h1 => by
    obtain ⟨hlt, -⟩ := List.getElem?_eq_some_iff.mp hk
    rw [under, List.length_map] at hlt
    obtain ⟨inp', -, rfl⟩ := List.mem_map.mp (List.mem_of_getElem? hk)
    exact RADalgoBidir_coasts inp' (hf k _ hk) hupd h1 (by omega) (by omega)
  rw [under, List.length_map] at hrun
  exact hrun

/-! ## The run -/

/-- Polls of the steady server: stamps `k` to `k + m - 1`. -/
def polls (conf : Config D) (k m : Nat) : List (Call D) :=
  under conf ((List.range' k m).map fun i => ⟨steady i, false, 0⟩)

theorem polls_length (conf : Config D) (k m : Nat) : (polls conf k m).length = m := by
  simp [polls, under]

/-- A run of `n + m` polls with a change of configuration at stamp `n`, up to the end of its
history window. -/
def changed (conf conf' conf'' : Config D) (n m : Nat) : List (Call D) :=
  polls conf 0 n ++ (polls conf' n 1 ++ (polls conf'' (n + 1) m ++ polls conf'' (n + 1 + m) 1))

/-- A change that keeps the windows but puts the half window behind the stamp: the window
slides at its end without the successor of `pstamp` ever having been prepared. -/
theorem slides_changed_fails {conf conf' conf'' : Config D} {m : Nat}
    (hupd : conf.algoUpdate = false) (hupd' : conf'.algoUpdate = true)
    (hupd'' : conf''.algoUpdate = false) (hsz : (startWindows conf).warmupWin < 2 ^ 32)
    (hroom : (startWindows conf).shiftWin + 2 ≤ (startWindows conf).warmupWin)
    (hre : Refits conf' (evenSizes (startWindows conf).warmupWin) z' (startWindows conf))
    (hfull : (startWindows conf).warmupWin ≤ n) (hbefore : n ≤ (startWindows conf).hWin / 2)
    (hbehind : baseHWin conf'.pollPeriod / 2 < n) (hlast : n + 1 + m + 1 =
        (startWindows conf).hWin) :
    ¬ SlidesOk (changed conf conf' conf'' n m) := by
  have hend : wsub (startWindows conf).hWin 1 = n + 1 + m := by
    rw [← hlast, wsub_of_le (by omega), Nat.add_sub_cancel]
  have hf := follows_stampsOf (changed conf conf' conf'' n m)
  unfold SlidesOk
  generalize stampsOf (changed conf conf' conf'' n m) = F at hf ⊢
  have hf1 := hf.right
  have hf2 := hf1.right
  have hf3 := hf2.right
  simp only [polls_length, Nat.zero_add] at hf1 hf2 hf3
  -- up to the change: warmup, then the full phase
  have hbegin : Sat Event.NotHalf False (run (polls conf 0 n))
      (Coasts F (evenSizes (startWindows conf).warmupWin) (startWindows conf) (n + 1 + m) n) := by
    obtain ⟨k, rfl⟩ : ∃ k, n = k + 1 := ⟨n - 1, by omega⟩
    refine (run_begins hupd hsz hroom _ _ hf.left (by simp; omega)).mono ?_
    simp only [List.length_map, List.length_range']
    rintro s (h | h)
    · have := h.more
      omega
    · rw [hend, Nat.add_comm 1 k] at h
      exact h
  have hchange (s : AlgoState D) (h : Coasts F (evenSizes (startWindows conf).warmupWin)
      (startWindows conf) (n + 1 + m) n s) : Sat Event.NotHalf False (runFrom (polls conf' n 1) s)
      (Coasts F z' { startWindows conf with hWin := baseHWin conf'.pollPeriod } (n + 1 + m)
        (n + 1)) := by
    have hcall : Sat Event.NotHalf False (RADalgoBidir conf' ⟨steady n, false, 0⟩ s) _ :=
      RADalgoBidir_refit _ hf1.head hupd' h hre (by omega) (by omega)
    exact Sat.bind hcall fun _ => Sat.pure
  have hcoast (s : AlgoState D) (h : Coasts F z'
      { startWindows conf with hWin := baseHWin conf'.pollPeriod } (n + 1 + m) (n + 1) s) :
      Sat Event.NotHalf False (runFrom (polls conf'' (n + 1) m) s) (Coasts F z'
        { startWindows conf with hWin := baseHWin conf'.pollPeriod } (n + 1 + m) (n + 1 + m)) := by
    have hrun := runFrom_coasts hupd'' _ h hf2.left
      (show baseHWin conf'.pollPeriod / 2 < _ by omega)
      (by simp)
    simp only [List.length_map, List.length_range'] at hrun
    exact hrun
  have hslide (s : AlgoState D) (h : Coasts F z'
      { startWindows conf with hWin := baseHWin conf'.pollPeriod } (n + 1 + m) (n + 1 + m) s) :
      Emits Event.NotHalf (runFrom (polls conf'' (n + 1 + m) 1) s) ∧
        ∃ r, Event.slide (n + 1 + m) r ∈ (runFrom (polls conf'' (n + 1 + m) 1) s).log := by
    obtain ⟨hquiet, r, hmem⟩ := RADalgoBidir_slides ⟨steady (n + 1 + m), false, 0⟩ hupd'' h
      (show n + 1 + m ≠ baseHWin conf'.pollPeriod / 2 by omega)
    exact ⟨Emits.bind hquiet fun _ => Emits.pure, r, mem_bind_log_left hmem⟩
  have hrun : run (changed conf conf' conf'' n m) = run (polls conf 0 n) >>= fun s =>
      runFrom (polls conf' n 1) s >>= fun s =>
        runFrom (polls conf'' (n + 1) m) s >>= runFrom (polls conf'' (n + 1 + m) 1) := by
    unfold run changed
    rw [runFrom_append, funext (runFrom_append _ _), funext (runFrom_append _ _)]
  have hquiet : Emits Event.NotHalf (run (changed conf conf' conf'' n m)) := by
    rw [hrun]
    refine hbegin.bind_emits fun s1 h1 => ?_
    refine (hchange s1 h1).bind_emits fun s2 h2 => ?_
    exact (hcoast s2 h2).bind_emits fun s3 h3 => (hslide s3 h3).1
  have hmem : ∃ r, Event.slide (n + 1 + m) r ∈ (run (changed conf conf' conf'' n m)).log := by
    obtain ⟨s1, hr1, h1⟩ := hbegin.exists_res
    obtain ⟨s2, hr2, h2⟩ := (hchange s1 h1).exists_res
    obtain ⟨s3, hr3, h3⟩ := (hcoast s2 h2).exists_res
    obtain ⟨-, r, hmem⟩ := hslide s3 h3
    refine ⟨r, ?_⟩
    rw [hrun, bind_log_of_some hr1, bind_log_of_some hr2, bind_log_of_some hr3]
    exact List.mem_append_right _ (List.mem_append_right _ (List.mem_append_right _ hmem))
  obtain ⟨r, hmem⟩ := hmem
  rintro ⟨hok, -⟩
  obtain ⟨k, hk⟩ := exists_half_of_slide hok hmem
  exact hquiet _ hk

/-- A poll every 70 seconds. -/
def every70 : Config Float := configInit 70 (by decide) (by decide)

/-- A poll every 73 seconds. -/
def every73 : Config Float := configInit 73 (by decide) (by decide)

/-- The polling period has just been changed to 73 seconds. -/
def change73 : Config Float := { every73 with mask := UPDMASK_POLLPERIOD }

/-- The polling period changes before stamp 4200. -/
def retimed : List (Call Float) := changed every70 change73 every73 4200 4438

/-- Runs that change the configuration before the first stamp only. -/
theorem halfSafe_polls (inp : Input D) {conf' : Config D} (hupd : conf'.algoUpdate = false)
    (k m : Nat) : RunMeets (fun c s => HalfSafe c.conf s) (⟨conf, inp⟩ :: polls conf' k m)
      AlgoState.zero := by
  refine ⟨fun _ hfull => absurd hfull.1 (Int.negSucc_not_nonneg 0).mp, fun s' _ => ?_⟩
  refine RunMeets.of_forall (fun c hc s hupd' => ?_) s'
  obtain ⟨inp', -, rfl⟩ := List.mem_map.mp hc
  rw [hupd] at hupd'
  cases hupd'

/-- The polling period changes before the first stamp. -/
def retimedFirst : List (Call Float) :=
  ⟨change73, ⟨steady 0, false, 0⟩⟩ :: polls every73 1 9000

theorem slides_retimedFirst : SlidesOk retimedFirst := by
  have hm : RunMeets (fun c s => HalfSafe c.conf s) retimedFirst AlgoState.zero := by
    unfold retimedFirst
    apply halfSafe_polls
    decide
  -- the run itself is not to be evaluated
  generalize retimedFirst = cs at hm ⊢
  exact slides_of_halfSafe cs hm

theorem startWindows_every70 :
    (startWindows every70).hWin = 8640 ∧ (startWindows every70).warmupWin = 105 ∧
      (startWindows every70).shiftWin = 100 ∧ (startWindows every70).plocalWin = 70 ∧
        (startWindows every70).offsetWin = 14 := by
  decide +kernel

theorem refits_change73 :
    Refits change73 (evenSizes 105) ⟨105, 105, 14, 14⟩ (startWindows every70) := by
  obtain ⟨-, -, hsw, hpw, how⟩ := startWindows_every70
  have hfits : Fits ⟨105, 105, 14, 14⟩ (startWindows every70) := by
    refine ⟨?_, ?_, ?_, ?_, by decide⟩
    · rw [hpw]
      decide
    · rw [hpw]
      decide
    · rw [hsw]
      decide
    · rw [how, hsw]
      decide
  refine ⟨?_, ?_, ?_, hfits, by decide, by decide, by decide, by decide⟩
  · rw [how]
    decide
  · rw [hsw]
    decide +kernel
  · rw [plocalSpan, how, hsw, hpw]
    rfl

/-- The run slides its history window at stamp 8639, and has never initialised the successor
of `pstamp`. -/
theorem slides_retimed_fails : ¬ SlidesOk retimed := by
  obtain ⟨hh, hW, hsw, -, -⟩ := startWindows_every70
  refine slides_changed_fails (by decide) (by decide)
    (by decide) ?_ ?_ (hW ▸ refits_change73) ?_ ?_ ?_ ?_
  · rw [hW]
    decide
  · rw [hW, hsw]
    decide
  · rw [hW]
    decide
  · rw [hh]
    decide
  · decide
  · rw [hh]

end RADclock
