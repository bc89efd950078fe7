import RADclock.Daemon.Widened
import RADclock.Sync.EndWindows

/-!
# The end packets after a reset

- `ends_first_iff`: in every run, from a reset of the local period on, the near packet is the first
  minimum of its window, and the far packet exactly if it may be.
- `far_not_first`: on a path of constant RTT it is not. The first minimum of a window is its first
  stamp there, and one stamp after warmup the far packet is the first stamp of the window that
  `reset_plocal` has searched, right of all but the last of the far window.
-/

namespace RADclock

open Lib Lib.Exec

/-- Where all RTTs are the same, no far packet is right before the far window has caught up. -/
theorem not_farFits {f : Nat → VCounter} {A w k : Nat} {r : VCounter}
    (hr : ∀ j, j ≤ A + w → f j = r) (hk : k + 1 < w) (hroom : w ≤ A + k + 2) :
    ¬ FarFits f A (A + 1) w (k + 1) := by
  rintro (hge | ⟨m, hm, ham, -, -⟩)
  · omega
  · -- an earlier stamp of the window has the same RTT
    have hlt := hm.before (A + k + 2 - w) (by omega) (by omega)
    rw [hr m hm.right, hr _ (by omega)] at hlt
    exact absurd hlt (UInt64.lt_irrefl _)

theorem stampsOf_under_inputsOf {D : Type} [Arith D] (conf : Config D) (F : Nat → BidirStamp D)
    {n k : Nat} (hk : k < n) : stampsOf (under conf (inputsOf F n)) k = F k := by
  have hget : (under conf (inputsOf F n))[k]? = some ⟨conf, ⟨F k, false, 0⟩⟩ := by
    simp [under, inputsOf, hk]
  unfold stampsOf
  rw [hget]

theorem under_inputsOf_succ {D : Type} [Arith D] (conf : Config D) (F : Nat → BidirStamp D)
    (n : Nat) : under conf (inputsOf F (n + 1)) =
      under conf (inputsOf F n) ++ [⟨conf, ⟨F n, false, 0⟩⟩] := by
  simp [under, inputsOf, List.range_succ]

/-- The last call of warmup goes through `init_plocal_full`. -/
theorem RADalgoBidir_last {D : Type} [Arith D] {F : Nat → BidirStamp D} {w : Windows} {n : Nat}
    {s : AlgoState D} (conf : Config D) (inp : Input D) (hupd : conf.algoUpdate = false)
    (h : InWarm F w n s) (hlast : n + 1 = w.warmupWin) :
    RADalgoBidir conf inp s =
      warmupAlgos conf.metaparam inp.stamp
        (recordStamp inp.stamp { s with stampI := s.stampI + 1 }) >>= startFull >>=
          finishFull inp.stamp >>= endCall conf.metaparam inp.stamp := by
  have hat := h.inv.next_at
  have hat' : At F n (recordStamp inp.stamp { s with stampI := s.stampI + 1 }) :=
    ⟨hat.pos, hat.idx, hat.last⟩
  have hW : n < (recordStamp inp.stamp { s with stampI := s.stampI + 1 }).win.warmupWin :=
    h.win ▸ h.more
  have hfull : warmupPhase conf.metaparam inp.stamp
      (recordStamp inp.stamp { s with stampI := s.stampI + 1 }) =
      warmupAlgos conf.metaparam inp.stamp
        (recordStamp inp.stamp { s with stampI := s.stampI + 1 }) >>= initFull inp.stamp := by
    refine Returns.bind_congr ((warmupAlgos_frame _ _ _).mono ?_)
    rintro s1 ⟨i, owd, Df, Db, th, ends, phat, perr, t, off, bound, stt, out, rfl⟩
    refine if_pos ?_
    show AlgoState.si { s with stampI := s.stampI + 1 } = wsub s.win.warmupWin 1
    rw [hat.si, h.win, ← hlast, wsub_of_le (Nat.le_add_left 1 n), Nat.add_sub_cancel]
  rw [RADalgoBidir_noUpdate conf inp h.inv hupd, phases_warm conf inp hat' hW, hfull]
  simp only [bind_assoc, initFull_eq]
  rfl

/-- The histories reach back to stamp `0` at the end of warmup. -/
theorem startFull_reaches {D : Type} [Arith D] {F : Nat → BidirStamp D} {w : Windows} {n : Nat}
    {s s' : AlgoState D} (st : BidirStamp D) (h : InWarm F w n s) (hlast : n + 1 = w.warmupWin)
    (hpoll : s.poll.pollChangedI = 0)
    (hsame : SameSeries (recordStamp st { s with stampI := s.stampI + 1 }) s') {back : Nat}
    (hback : back ≤ n + 1) : PastTest s' ∧ Reaches s' back := by
  have hsi : AlgoState.si { s with stampI := s.stampI + 1 } = n := h.inv.next_at.si
  have hsi' : s'.si = n := by
    unfold AlgoState.si
    rw [hsame.idx]
    exact hsi
  have hstamp : Stocked (n + 1) (n + 1) s'.hist.stamp := by
    rw [hsame.stamp]
    show Stocked _ _ (historyAdd s.hist.stamp (AlgoState.si { s with stampI := s.stampI + 1 }) st)
    rw [hsi, hlast]
    exact hlast ▸ h.stock.stamp.add st
  have hRTT : Stocked (n + 1) (n + 1) s'.hist.RTT := by
    rw [hsame.RTT]
    show Stocked _ _ (historyAdd s.hist.RTT (AlgoState.si { s with stampI := s.stampI + 1 }) st.RTT)
    rw [hsi, hlast]
    exact hlast ▸ h.stock.RTT.add st.RTT
  have hpoll' : s'.poll.pollChangedI = 0 := hsame.pollChangedI.trans hpoll
  have hold := hstamp.oldest
  have hold' := hRTT.oldest
  rw [Nat.sub_self] at hold hold'
  constructor
  · unfold PastTest availableEnd
    rw [hpoll', hstamp.old (Nat.succ_pos n) (Nat.succ_pos n),
      hRTT.old (Nat.succ_pos n) (Nat.succ_pos n), Nat.sub_self]
    exact Nat.zero_le _
  · exact ⟨by omega, by omega, by omega, by omega⟩

/-- The far packet one stamp after the end of warmup, when all RTTs are the same. -/
theorem run_far {D : Type} [Arith D] {w : Windows} {F : Nat → BidirStamp D} {r : VCounter}
    {cs : List (Call D)} {c c' : Call D} {s t : AlgoState D} {n : Nat}
    (hrtt : ∀ j, j ≤ n + 1 → rttOf (stampsOf (cs ++ c :: [c'])) j = r) (hlen : cs.length = n)
    (hres : (run cs).res = some s) (hwarm : InWarm F w n s) (hlast : n + 1 = w.warmupWin)
    (hpoll : s.poll.pollChangedI = 0) (hroom : w.plocalWin + fullWwidth w.plocalWin +
      fullWwidth w.plocalWin / 2 ≤ n) (hupd : c.conf.algoUpdate = false)
    (hupd' : c'.conf.algoUpdate = false) (hres' : (run (cs ++ c :: [c'])).res = some t) :
    ∃ s1 s2, (run cs >>= beginCall c).res = some s1 ∧ s1.si + 1 = s1.win.warmupWin ∧
      (warmupAlgos c.conf.metaparam c.inp.stamp s1 >>= startFull).res = some s2 ∧ PastTest s2 ∧
      Reaches s2 (s2.win.plocalWin + fullWwidth s2.win.plocalWin +
        fullWwidth s2.win.plocalWin / 2) ∧
      (finishFull c.inp.stamp s2 >>= endCall c.conf.metaparam c.inp.stamp >>= runFrom [c']).res =
        some t ∧ ¬ FarFirst (stampsOf (cs ++ c :: [c'])) t := by
  have hf := follows_stampsOf (cs ++ c :: [c'])
  generalize stampsOf (cs ++ c :: [c']) = G at hrtt hf ⊢
  have hidx := hwarm.inv.idx
  have hsi := hwarm.inv.next_at.si
  have hwin := hwarm.win
  have hbegin : (run cs >>= beginCall c).res =
      some (recordStamp c.inp.stamp { s with stampI := s.stampI + 1 }) := by
    refine bind_res_some.mpr ⟨s, hres, ?_⟩
    rw [beginCall_idle c hupd (by have := hwarm.inv.pos; omega)]
    rfl
  rw [show cs ++ c :: [c'] = cs ++ [c] ++ [c'] by simp] at hf
  obtain ⟨-, hundred, hwithin, -⟩ := run_beginCall cs c hf.left _ hbegin
  -- the last call of warmup, and one more
  rw [run, runFrom_append] at hres'
  obtain ⟨s', hs', ht⟩ := bind_res_some.mp hres'
  obtain rfl : s' = s := Option.some.inj (hs'.symm.trans hres)
  change (RADalgoBidir c.conf c.inp s' >>= runFrom [c']).res = some t at ht
  rw [RADalgoBidir_last c.conf c.inp hupd hwarm hlast, bind_assoc, bind_assoc] at ht
  obtain ⟨s2, hs2, ht⟩ := bind_res_some.mp ht
  rw [← bind_assoc] at ht
  refine ⟨_, s2, hbegin, ?_, hs2, ?_⟩
  · show AlgoState.si { s' with stampI := s'.stampI + 1 } + 1 = s'.win.warmupWin
    rw [hsi, hwin, hlast]
  have hstart : Returns (warmupAlgos c.conf.metaparam c.inp.stamp
      (recordStamp c.inp.stamp { s' with stampI := s'.stampI + 1 }) >>= startFull) fun s2 =>
        SameSeries (recordStamp c.inp.stamp { s' with stampI := s'.stampI + 1 }) s2 ∧
          Within G cs.length (cs.length + 1) s2 := by
    refine Returns.bind (warmupAlgos_within (hwithin ?_) _) ?_
    · show AlgoState.si { s' with stampI := s'.stampI + 1 } < s'.win.warmupWin
      rw [hsi, hwin]
      exact hwarm.more
    · rintro s3 ⟨hsame, h3⟩
      exact (startFull_within h3).mono fun s4 h4 => ⟨hsame.trans h4.1, h4.2⟩
  obtain ⟨hsame, h2⟩ := hstart s2 hs2
  have hW2 : s2.win.warmupWin = n + 1 := by
    rw [hsame.warmupWin, hlast, ← hwin]
    rfl
  have hpw2 : s2.win.plocalWin = w.plocalWin := by
    rw [hsame.plocalWin, ← hwin]
    rfl
  have hback : s2.win.plocalWin + fullWwidth s2.win.plocalWin +
      fullWwidth s2.win.plocalWin / 2 ≤ n + 1 := by
    rw [hpw2]
    omega
  obtain ⟨hpast, hreach⟩ := startFull_reaches c.inp.stamp hwarm hlast hpoll hsame hback
  refine ⟨hpast, hreach, ht, ?_⟩
  have hw := four_le_fullWwidth s2.win.plocalWin
  obtain ⟨A, hA⟩ : ∃ A, A + s2.win.plocalWin + fullWwidth s2.win.plocalWin / 2 = cs.length :=
    ⟨cs.length - (s2.win.plocalWin + fullWwidth s2.win.plocalWin / 2), by rw [hpw2]; omega⟩
  have hrest : Follows G (cs.length + 1) [c'] := by
    have h := hf.right
    rw [Nat.zero_add, List.length_append, List.length_singleton] at h
    exact h
  have hreset : Returns (finishFull c.inp.stamp s2 >>= endCall c.conf.metaparam c.inp.stamp)
      (Settling G A (A + 1) 0 cs.length) :=
    finishFull_settling h2 (hsame.warmupWin ▸ hundred) (by omega) _ _ hpast hA hreach
  have hend := Returns.bind hreset fun s3 h3 => runFrom_settling [c']
    (fun c1 hc1 => List.mem_singleton.mp hc1 ▸ hupd') hrest h3
  have hsettled := hend t ht
  have hidx' := hsettled.running.idx
  have hsi' : t.si = n + 1 := si_of_idx (by
    rw [List.length_singleton] at hidx'
    omega)
  have hplace := hsettled.ends.place
  have hreaches := hsettled.reaches.room
  rw [hsi'] at hreaches
  have hfour := four_le_fullWwidth t.win.plocalWin
  have hle := fullWwidth_le hsettled.running.win.ok.ten_le_plocal
  rw [List.length_singleton] at hplace
  rw [hsettled.ends_iff.2]
  exact not_farFits (k := 0) (fun j hj => hrtt j (by omega)) (by omega) (by omega)

section Run

variable {D : Type} [Arith D]

/-- In every run, with any configuration changes: the end windows after a call that resets them in
`process_plocal_full`, or in `init_plocal_full`, and after any further calls that change nothing. -/
theorem ends_first_iff (cs : List (Call D)) (c : Call D) (cs' : List (Call D)) :
    Returns (run cs >>= beginCall c) fun s => (∀ c' ∈ cs', c'.conf.algoUpdate = false) →
      (s.win.warmupWin ≤ s.si → Returns (toPlocal c.inp s) fun s =>
        s.ploc.plocalProblem = true → PastTest s → FitsTest s →
          Returns (fromPlocal c.conf.metaparam c.inp s >>= endCall c.conf.metaparam c.inp.stamp >>=
            runFrom cs')
            (EndsAfter (stampsOf (cs ++ c :: cs')) (beforeFar s) (beforeFar s) cs'.length)) ∧
      (s.si + 1 = s.win.warmupWin →
        Returns (warmupAlgos c.conf.metaparam c.inp.stamp s >>= startFull) fun s =>
          PastTest s → Reaches s (s.win.plocalWin + fullWwidth s.win.plocalWin +
            fullWwidth s.win.plocalWin / 2) →
            Returns (finishFull c.inp.stamp s >>= endCall c.conf.metaparam c.inp.stamp >>=
              runFrom cs')
              (EndsAfter (stampsOf (cs ++ c :: cs')) (beforeFar s) (beforeFar s + 1)
                cs'.length)) := by
  have hf := follows_stampsOf (cs ++ c :: cs')
  generalize stampsOf (cs ++ c :: cs') = F at hf ⊢
  have hsplit : cs ++ c :: cs' = cs ++ [c] ++ cs' := by simp
  rw [hsplit] at hf
  have hrest : Follows F (cs.length + 1) cs' := by
    have h := hf.right
    rw [Nat.zero_add, List.length_append, List.length_singleton] at h
    exact h
  refine (run_beginCall cs c hf.left).mono ?_
  rintro s ⟨-, hundred, hwarm, hfull⟩ hupd
  refine ⟨fun hge => ?_, fun hlast => ?_⟩
  · -- a reset in the full phase: by plocal itself
    refine (toPlocal_within (hfull hge) c.inp).mono ?_
    rintro s1 ⟨hsame, h1, -, -⟩ hprob hpast hfit
    have hsi1 := h1.si
    have hroom := hfit.room
    have hreach := hfit.reaches
    have hW : s1.win.warmupWin = s.win.warmupWin := hsame.warmupWin
    rw [endWidth, if_pos hprob] at hroom hreach
    -- the far window starts beforeFar stamps into the run
    have hA : beforeFar s1 + s1.win.plocalWin + fullWwidth s1.win.plocalWin / 2 = cs.length := by
      unfold beforeFar
      omega
    have hsi := (hfull hge).si
    refine Returns.bind (fromPlocal_settling h1 (by omega) (by omega) c.inp _
      (processPlocalFull_resets h1 _ hprob hpast hfit hA) hreach) fun s2 h2 => ?_
    -- further calls slide both ends along with their windows
    refine (runFrom_settling cs' hupd hrest h2).mono fun s3 h3 => ?_
    rw [Nat.zero_add] at h3
    exact h3.after
  · -- a reset on the last warmup stamp: by the initialisation
    refine Returns.bind (warmupAlgos_within (hwarm (by omega)) _) ?_
    rintro s0 ⟨hsame0, h0⟩
    refine (startFull_within h0).mono ?_
    rintro s1 ⟨hsame1, h1⟩ hpast hreach
    have hsi1 := h1.si
    have hsi := (hwarm (by omega)).si
    have hroom := hreach.room
    have hw := four_le_fullWwidth s1.win.plocalWin
    have hW : s1.win.warmupWin = s.win.warmupWin := (hsame0.trans hsame1).warmupWin
    have hA : beforeFar s1 + s1.win.plocalWin + fullWwidth s1.win.plocalWin / 2 = cs.length := by
      unfold beforeFar
      omega
    refine Returns.bind (finishFull_settling h1 (by omega) (by omega) _ _ hpast hA hreach)
      fun s2 h2 => ?_
    refine (runFrom_settling cs' hupd hrest h2).mono fun s3 h3 => ?_
    rw [Nat.zero_add] at h3
    exact h3.after

end Run

/-- Before the last call of warmup. -/
theorem warm_everySixteen : ∃ s, (run (under everySixteen (inputsOf steady 479))).res = some s ∧
    InWarm steady (startWindows everySixteen) 479 s ∧
      Unchanged steady (startWindows everySixteen) 479 s := by
  obtain ⟨hW, -⟩ := startWindows_everySixteen
  obtain ⟨s, hres, -, -⟩ := run_everySixteen 478
  have hf : Follows (steady : Nat → BidirStamp Float) 0
    (under everySixteen (inputsOf steady 479)) := follows_inputsOf steady 479
  have hlen := length_under_inputsOf everySixteen steady 479
  obtain ⟨i, is, hcons, -⟩ := inputsOf_cons (steady : Nat → BidirStamp Float) (n := 479) (by decide)
  rw [hcons] at hf hlen hres ⊢
  have hhat := run_hatRun (by decide) (by rw [hW]; decide) i is hf s hres
  have hun := run_unchanged (by decide) i is hf s hres
  rw [hlen] at hhat hun
  refine ⟨s, hres, ?_, hun⟩
  rcases hhat with ⟨hwarm, -⟩ | ⟨hle, -⟩
  · exact hwarm
  · rw [hW] at hle
    exact absurd hle (by decide)

/-- One stamp after warmup, on a path of constant RTT. -/
theorem far_not_first : ¬ ∀ (cs : List (Call Float)) (c : Call Float) (cs' : List (Call Float)),
    Returns (run cs >>= beginCall c) fun s => (∀ c' ∈ cs', c'.conf.algoUpdate = false) →
      (s.win.warmupWin ≤ s.si → Returns (toPlocal c.inp s) fun s =>
        s.ploc.plocalProblem = true → PastTest s → FitsTest s →
          Returns (fromPlocal c.conf.metaparam c.inp s >>= endCall c.conf.metaparam c.inp.stamp >>=
            runFrom cs') fun s => NearFirst (stampsOf (cs ++ c :: cs')) s ∧
              FarFirst (stampsOf (cs ++ c :: cs')) s) ∧
      (s.si + 1 = s.win.warmupWin → cs' ≠ [] →
        Returns (warmupAlgos c.conf.metaparam c.inp.stamp s >>= startFull) fun s =>
          PastTest s → Reaches s (s.win.plocalWin + fullWwidth s.win.plocalWin +
            fullWwidth s.win.plocalWin / 2) →
            Returns (finishFull c.inp.stamp s >>= endCall c.conf.metaparam c.inp.stamp >>=
              runFrom cs') fun s => NearFirst (stampsOf (cs ++ c :: cs')) s ∧
                FarFirst (stampsOf (cs ++ c :: cs')) s) := by
  intro hall
  obtain ⟨hW, -⟩ := startWindows_everySixteen
  have hpw : (startWindows everySixteen).plocalWin = 320 := by decide
  obtain ⟨s, hres, hwarm, hun⟩ := warm_everySixteen
  obtain ⟨t, hres', -, -⟩ := run_everySixteen 480
  have hsplit : under everySixteen (inputsOf steady 481) =
    under everySixteen (inputsOf steady 479) ++
      ⟨everySixteen, ⟨steady 479, false, 0⟩⟩ :: [⟨everySixteen, ⟨steady 480, false, 0⟩⟩] := by
    rw [under_inputsOf_succ _ _ 480, under_inputsOf_succ _ _ 479, List.append_assoc]
    rfl
  have hrtt (j : Nat) (hj : j ≤ 480) :
      rttOf (stampsOf (under everySixteen (inputsOf steady 481))) j = 1000000 := by
    have hj' : j < 481 := Nat.lt_succ_of_le hj
    exact (congrArg BidirStamp.RTT (stampsOf_under_inputsOf _ _ hj')).trans (rttOf_steady j)
  rw [hsplit] at hres' hrtt
  obtain ⟨s1, s2, hs1, hlast, hs2, hpast, hreach, ht, hno⟩ := run_far hrtt
    (length_under_inputsOf everySixteen steady 479) hres hwarm hW.symm hun.pollChangedI
    (by rw [hpw]; decide) (by decide) (by decide) hres'
  have hcase := (hall _ _ _ s1 hs1 (fun c hc => List.mem_singleton.mp hc ▸ by decide)).2 hlast
    (List.cons_ne_nil _ _) s2 hs2 hpast hreach t ht
  exact hno hcase.2

end RADclock
