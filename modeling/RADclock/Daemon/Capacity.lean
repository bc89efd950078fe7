import RADclock.Daemon.DefaultWindows
import RADclock.Sync.Held

/-!
# History sizes and the polling period

The histories are created with the length of the warmup window, and the full phase looks
back by the whole shift window. Under one configuration all lookups are held, whatever the
stamps, exactly when the warmup window is longer than the shift window by two
(`held_iff_room`): otherwise the shift window still starts at stamp `0` when the first stamp
of the full phase pushes that one out.

With the default metaparameters the warmup window is the span of the local period up to a
polling period of 73 seconds; from 74 seconds on it is the minimum of 100 stamps, and so is
the shift window.
-/

namespace RADclock

open Lib Lib.Exec

section Short

variable {D : Type} [Arith D] {F : Nat → BidirStamp D} {n : Nat} {s : AlgoState D} {w : Windows}
  {conf : Config D}

/-- A shift window from stamp `0` that has to slide, on a path of constant RTT: stamp `0` is
looked up. -/
theorem processRTTFull_short (RTT : VCounter) (hsi : s.si = n + 1) (hn : 0 < n)
    (hR : Holds (rttOf F) (n + 2) s.hist.RTT) (hold : s.hist.RTT.oldestI = 1)
    (hend : s.win.shiftEnd = 0) (hw : 1 ≤ s.win.shiftWin) (hle : s.win.shiftWin ≤ n + 1)
    (hr : ∀ k, rttOf F k = s.rtt.RTThatShift) :
    Event.find s.hist.RTT.name 0 1 (n + 1) ∈ (processRTTFull RTT s).log := by
  have hslide : ¬ (updateRTTMinima RTT s).si <
      wsub (updateRTTMinima RTT s).win.shiftWin 1 + (updateRTTMinima RTT s).win.shiftEnd := by
    show ¬ s.si < wsub s.win.shiftWin 1 + s.win.shiftEnd
    rw [hsi, hend, wsub_of_le hw]
    omega
  have hread : Event.find s.hist.RTT.name 0 s.hist.RTT.oldestI s.hist.RTT.newestI ∈
      (minSlideValue ltVC (fun a b => decide (a = b)) s.hist.RTT s.rtt.RTThatShift 0 n :
        Algo D VCounter).log := by
    refine minSlideValue_reads_left hR hn (by omega) (by omega) ?_
    rw [hr]
    exact decide_eq_false (UInt64.lt_irrefl _)
  rw [hold, hR.newest, show ((n + 2 : Nat) : Int) - 1 = n + 1 by omega] at hread
  refine mem_bind_log_left ?_
  unfold updateRTTShift
  rw [if_neg hslide]
  refine mem_bind_log_left ?_
  show _ ∈ (minSlideValue ltVC _ s.hist.RTT s.rtt.RTThatShift s.win.shiftEnd (wsub s.si 1)).log
  rw [hend, hsi, wsub_of_le (show 1 ≤ n + 1 by omega), Nat.add_sub_cancel]
  exact hread

/-- The first stamp of the full phase looks up stamp `0`, which has just been pushed out. -/
theorem RADalgoBidir_short (inp : Input D) (hinp : inp.stamp = F (n + 1))
    (hupd : conf.algoUpdate = false) (hinv : Inv F (n + 1) s) (hle : s.win.warmupWin ≤ n + 1)
    (hs : Started F (n + 1) n w s) (hn : 0 < n) (hw : 1 ≤ w.shiftWin) (h1 : n ≤ w.shiftWin)
    (h2 : w.shiftWin ≤ n + 1) {r : VCounter} (hr : ∀ k, rttOf F k = r) :
    ∃ e ∈ (RADalgoBidir conf inp s).log, ¬ e.Held := by
  have hstart : shiftStart w.shiftWin n = 0 := if_neg (Nat.not_lt.mpr h1)
  have hat := hinv.next_at
  have hfull : Full F (n + 1) (n + 1) (n + 1) (n + 1) s := by
    rcases hinv.phase with ⟨-, hlt⟩ | ⟨hf, -⟩
    · exact absurd hle (Nat.not_le.mpr hlt)
    · exact hf
  generalize hs0 : recordStamp (F (n + 1)) { s with stampI := s.stampI + 1 } = s0
  have hat0 : At F (n + 1) s0 := hs0 ▸ ⟨hat.pos, hat.idx, hat.last⟩
  have hR0 : Holds (rttOf F) (n + 2) s0.hist.RTT := by
    rw [← hs0]
    show Holds _ _ (historyAdd s.hist.RTT _ (F (n + 1)).RTT)
    rw [hat.si]
    exact hfull.rtts.add rfl
  -- adding this stamp drops item 0 of a full history
  have hold : s0.hist.RTT.oldestI = 1 := by
    have hst : Stocked (n + 1) (n + 2) s0.hist.RTT := by
      rw [← hs0]
      show Stocked _ _ (historyAdd s.hist.RTT _ (F (n + 1)).RTT)
      rw [hat.si]
      exact hs.stock.RTT.add _
    have := hst.oldest
    omega
  have hwin0 : s0.win = s.win ∧ s0.rtt = s.rtt ∧ s0.hist.Df = s.hist.Df ∧
      s0.hist.Db = s.hist.Db := hs0 ▸ ⟨rfl, rfl, rfl, rfl⟩
  obtain ⟨hwin, hrtt, hDf, hDb⟩ := hwin0
  -- every round trip is r, so the minimum is too
  have hmin : s.rtt.RTThatShift = r := by
    obtain ⟨k, -, -, hk⟩ := (minRTT_iff.mp hs.shiftMin).1
    rw [hk, hr]
  -- the slide of the shift window looks item 0 up
  refine ⟨.find s0.hist.RTT.name 0 1 (n + 1), ?_, fun hheld => absurd hheld.1 (by decide)⟩
  rw [RADalgoBidir_noUpdate conf inp hinv hupd, hinp, hs0,
    phases_full conf inp hat0 (by rw [hwin]; exact hle)]
  -- nothing before the slide touches what it reads
  have hmanage : Sat Event.Held False (manageHistorywin inp.stamp inp.stamp.RTT s0) (fun s1 =>
      s1.hist.RTT = s0.hist.RTT ∧ s1.rtt.RTThatShift = r ∧ s1.win.shiftEnd = 0 ∧
        s1.win.shiftWin = w.shiftWin ∧ s1.si = n + 1) := by
    have hDf0 : Stocked (n + 1) (n + 1) s0.hist.Df := hDf ▸ hs.stock.Df
    have hDb0 : Stocked (n + 1) (n + 1) s0.hist.Db := hDb ▸ hs.stock.Db
    refine ((manageHistorywin_sat (Nat.succ_pos n) hat0.si
      (hDf0.okFrom (Nat.le_add_left _ _) _ (Nat.le_refl _) (Nat.lt_succ_self n))
      (hDb0.okFrom (Nat.le_add_left _ _) _ (Nat.le_refl _) (Nat.lt_succ_self n)) True.intro
      (fun _ => True.intro)).and_returns (manageHistorywin_cases _ _ _)).mono ?_
    rintro s2 ⟨-, s1, hs1, hcase⟩
    have h1 : s1.hist.RTT = s0.hist.RTT ∧ s1.rtt.RTThatShift = r ∧ s1.win.shiftEnd = 0 ∧
        s1.win.shiftWin = w.shiftWin ∧ s1.si = n + 1 := by
      have h0 : s0.rtt.RTThatShift = r ∧ s0.win.shiftEnd = 0 ∧ s0.win.shiftWin = w.shiftWin := by
        rw [hwin, hrtt, hmin, hs.shift, hstart, hs.shiftWin]
        exact ⟨rfl, rfl, rfl⟩
      rw [hs1]
      split
      · exact ⟨rfl, h0.1, h0.2.1, h0.2.2, hat0.si⟩
      · exact ⟨rfl, h0.1, h0.2.1, h0.2.2, hat0.si⟩
    rcases hcase with ⟨-, Df, Db, rfl⟩ | ⟨-, rfl⟩
    · exact h1
    · exact h1
  refine mem_bind_log_left (mem_bind_log_right hmanage ?_)
  rintro s1 ⟨hR1, hv1, he1, hsw1, hsi1⟩
  have hmem := processRTTFull_short (inp.stamp.RTT) hsi1 hn (hR1 ▸ hR0) (hR1 ▸ hold) he1
    (hsw1 ▸ hw) (hsw1 ▸ h2) (hv1 ▸ hr)
  rw [hR1] at hmem
  exact mem_bind_log_left hmem

/-- A run of one stamp more than the warmup window, on a path of constant RTT. -/
theorem runFrom_short (hupd : conf.algoUpdate = false) (hw : WarmWin w)
    (hroom : w.warmupWin < w.shiftWin + 2) {r : VCounter} (hr : ∀ k, rttOf F k = r)
    (inps : List (Input D)) :
    ∀ n s, InWarm F w n s → n + inps.length = w.warmupWin + 1 → Follows F n (under conf inps) →
      ∃ e ∈ (runFrom (under conf inps) s).log, ¬ e.Held := by
  -- on the stamps left: all but the last are warmup stamps
  induction inps with
  | nil =>
    intro n s h hlen _
    have hmore := h.more
    simp only [List.length_nil] at hlen
    omega
  | cons inp inps ih =>
    intro n s h hlen hf
    rw [List.length_cons] at hlen
    obtain ⟨s', hres, hs'⟩ := (RADalgoBidir_warm conf inp hf.head hupd h).exists_res
    have hrest : ∃ e ∈ (runFrom (under conf inps) s').log, ¬ e.Held := by
      rcases hs' with h' | ⟨hinv, hW, hle, hs⟩
      · exact ih (n + 1) s' h' (by omega) hf.tail
      · obtain ⟨last, rfl⟩ : ∃ last, inps = [last] :=
          List.length_eq_one_iff.mp (by omega)
        have hhundred := hw.hundred
        have hsw := hw.shift
        have hshift := hw.shift_le
        obtain ⟨e, he, hnot⟩ := RADalgoBidir_short last hf.tail.head hupd hinv hle hs (by omega)
          (by omega) (by omega) (by omega) hr
        exact ⟨e, mem_bind_log_left he, hnot⟩
    obtain ⟨e, he, hnot⟩ := hrest
    refine ⟨e, ?_, hnot⟩
    show e ∈ (RADalgoBidir conf inp s >>= fun s => runFrom (under conf inps) s).log
    rw [bind_log_of_some hres]
    exact List.mem_append_right _ he

/-- Inputs that follow a series. -/
def inputsOf (F : Nat → BidirStamp D) (n : Nat) : List (Input D) :=
  (List.range n).map fun k => ⟨F k, false, 0⟩

theorem follows_inputsOf (F : Nat → BidirStamp D) (n : Nat) :
    Follows F 0 (under conf (inputsOf F n)) := by
  intro k c hk
  simp only [under, inputsOf, List.map_map, List.getElem?_map, Option.map_eq_some_iff] at hk
  obtain ⟨j, hj, rfl⟩ := hk
  obtain ⟨hlt, hval⟩ := List.getElem?_eq_some_iff.mp hj
  rw [List.getElem_range] at hval
  show F j = _
  rw [Nat.zero_add, hval]

/-- A server polled in regular intervals over a path of constant RTT. -/
def steady (k : Nat) : BidirStamp D where
  Ta := UInt64.ofNat (k + 1) * 1000000000
  Tb := Arith.ofNat (k + 1)
  Te := Arith.ofNat (k + 1)
  Tf := UInt64.ofNat (k + 1) * 1000000000 + 1000000

theorem rttOf_steady (k : Nat) : rttOf (steady : Nat → BidirStamp D) k = 1000000 := by
  show UInt64.ofNat (k + 1) * 1000000000 + 1000000 - UInt64.ofNat (k + 1) * 1000000000 = 1000000
  rw [UInt64.add_comm, UInt64.add_sub_cancel]

/-- Without room for the shift window, one stamp more than the warmup window is enough. -/
theorem run_short (hupd : conf.algoUpdate = false)
    (hsz : (startWindows conf).warmupWin < 2 ^ 32)
    (hroom : (startWindows conf).warmupWin < (startWindows conf).shiftWin + 2) :
    ∃ e ∈ (run (under conf (inputsOf steady ((startWindows conf).warmupWin + 1)))).log,
      ¬ e.Held := by
  have hlen : (inputsOf (steady : Nat → BidirStamp D)
      ((startWindows conf).warmupWin + 1)).length = (startWindows conf).warmupWin + 1 := by
    simp [inputsOf]
  have hf : Follows steady 0 (under conf (inputsOf (steady : Nat → BidirStamp D)
      ((startWindows conf).warmupWin + 1))) := follows_inputsOf _ _
  cases hi : inputsOf (steady : Nat → BidirStamp D) ((startWindows conf).warmupWin + 1) with
  | nil =>
    rw [hi] at hlen
    cases hlen
  | cons inp inps =>
    rw [hi, List.length_cons] at hlen
    rw [hi] at hf
    obtain ⟨s, hres, hs⟩ := (RADalgoBidir_first conf inp hf.head hupd hsz).exists_res
    obtain ⟨e, he, hnot⟩ := runFrom_short hupd (startWindows_ok conf) hroom rttOf_steady inps 1 s
      hs (by omega) hf.tail
    refine ⟨e, ?_, hnot⟩
    show e ∈ (RADalgoBidir conf inp AlgoState.zero >>= fun s => runFrom (under conf inps) s).log
    rw [bind_log_of_some hres]
    exact List.mem_append_right _ he

/-- Under one configuration, the lookups of all runs are held exactly when the warmup window
leaves room for the shift window. -/
theorem held_iff_room (hupd : conf.algoUpdate = false)
    (hsz : (startWindows conf).warmupWin < 2 ^ 32) :
    (∀ inps, ∀ e ∈ (run (under conf inps)).log, e.Held) ↔
      (startWindows conf).shiftWin + 2 ≤ (startWindows conf).warmupWin := by
  constructor
  · intro hall
    by_contra hroom
    obtain ⟨e, he, hnot⟩ := run_short hupd hsz (Nat.not_le.mp hroom)
    exact hnot (hall _ e he)
  · intro hroom inps
    cases inps with
    | nil => exact fun e he => (nomatch he)
    | cons inp inps =>
      exact (run_held hupd hsz hroom inp inps (follows_stampsOf _)).emits

end Short

/-! ## The default metaparameters -/

/-- With the default metaparameters, the lookups of all runs are held exactly for polling
periods up to 73 seconds. -/
theorem held_iff_pollPeriod (conf : Config Float) (hmp : conf.metaparam = defaultMetaparam)
    (hmask : conf.mask = UPDMASK_NOUPD) :
    (∀ inps, ∀ e ∈ (run (under conf inps)).log, e.Held) ↔ conf.pollPeriod ≤ 73 := by
  have hupd : conf.algoUpdate = false := by
    unfold Config.algoUpdate
    rw [hmask]
    decide
  obtain ⟨hsz, hroom⟩ := default_room conf.pollPeriod (Nat.lt_succ_of_le conf.maxPoll) conf.minPoll
  rw [← hmp] at hsz hroom
  exact (held_iff_room hupd hsz).trans hroom

theorem held_default :
    defaults.pollPeriod ≤ 73 ∧ ∀ inps, ∀ e ∈ (run (under defaults inps)).log, e.Held :=
  ⟨by decide, (held_iff_pollPeriod _ rfl rfl).mpr (by decide)⟩

/-- The defaults, at the longest polling period. -/
def slowest : Config Float := pollEvery 10

/-- At the longest polling period, the stamp after 100 stamps of warmup fails. -/
theorem not_held_slowest :
    ∃ e ∈ (run (under slowest (inputsOf steady 101))).log, ¬ e.Held := by
  have hupd : slowest.algoUpdate = false := by decide
  have hW : (startWindows slowest).warmupWin = 100 := by decide +kernel
  have hsw : (startWindows slowest).shiftWin = 100 := by decide +kernel
  have hrun := run_short hupd (by rw [hW]; decide) (by rw [hW, hsw]; decide)
  rw [hW] at hrun
  exact hrun

end RADclock
