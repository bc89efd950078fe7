import Mathlib.Algebra.Order.Chebyshev
import RADclock.Lib.Real
import RADclock.Sync.Windows

/-!
# Error statistics

`struct algo_error` keeps a count, a sum and a sum of squares of the error bounds twice, for
the history window and for the half window that will succeed it. `manage_historywin` resets
and replaces them, and the end of every call adds the current bound to both.

- `Totals`: such a triple; `Tallied bs t`: it is that of a suffix of `bs`.
- `Turns`: what a call does to the two triples before it adds to them.
- `run_tallied`: over any arithmetic, both triples are those of a suffix of the error bounds
  of the run, added up from the left.
- `errors_tallied`: in exact arithmetic, with the consequences for the published average and
  standard deviation.
-/

namespace RADclock

open Lib Lib.Exec

variable {D : Type} [Arith D]

/-! ## Count, sum and sum of squares -/

structure Totals (D : Type) where
  n : Nat
  sum : D
  sq : D

def Totals.zero : Totals D := ⟨0, 0, 0⟩

def Totals.add (t : Totals D) (b : D) : Totals D := ⟨t.n + 1, t.sum + b, t.sq + b * b⟩

/-- Of a list, from the left. -/
def Totals.of (bs : List D) : Totals D := bs.foldl Totals.add Totals.zero

/-- The totals of a suffix, which is not empty unless the list is. -/
def Tallied (bs : List D) (t : Totals D) : Prop :=
  ∃ tl, tl <:+ bs ∧ (bs ≠ [] → tl ≠ []) ∧ t = Totals.of tl

/-- One more value, after totals of any suffix. -/
theorem Tallied.snoc {bs tl : List D} (h : tl <:+ bs) (b : D) :
    Tallied (bs ++ [b]) ((Totals.of tl).add b) := by
  obtain ⟨pre, rfl⟩ := h
  refine ⟨tl ++ [b], ⟨pre, by simp⟩, by simp, ?_⟩
  simp [Totals.of, List.foldl_append]

/-- The statistics of the history window. -/
def AlgoError.window (e : AlgoError D) : Totals D := ⟨e.nerror, e.cumsum, e.sqCumsum⟩

/-- The statistics of its successor. -/
def AlgoError.half (e : AlgoError D) : Totals D := ⟨e.nerrorHwin, e.cumsumHwin, e.sqCumsumHwin⟩

/-- From `s` to `s'` each triple is kept, taken from the successor, or reset. -/
structure Turns (s s' : AlgoState D) : Prop where
  idx : s'.stampI = s.stampI
  half : s'.err.half = s.err.half ∨ s'.err.half = Totals.zero
  window : s'.err.window = s.err.window ∨ s'.err.window = s.err.half ∨
    s'.err.window = Totals.zero

/-! ## One call -/

theorem warmupPhase_err (mp : Metaparam D) (st : BidirStamp D) (s : AlgoState D) :
    Returns (warmupPhase mp st s) (Turns s) := by
  have halgos : Returns (warmupAlgos mp st s) (Turns s) := by
    refine (warmupAlgos_frame _ _ _).mono ?_
    rintro s1 ⟨i, owd, Df, Db, th, ends, phat, perr, t, off, bound, stt, out, rfl⟩
    exact ⟨rfl, Or.inl rfl, Or.inl rfl⟩
  refine Returns.bind halgos fun s1 h1 => ?_
  refine Returns.ite (fun _ => ?_) fun _ => Returns.pure h1
  refine Returns.bind (initRTTOWDAsymFull_frame _) ?_
  rintro s2 ⟨r, f, b, rfl⟩
  refine Returns.bind (initPhatFull_frame _) ?_
  rintro s3 ⟨pst, perr, rfl⟩
  refine Returns.bind (initPlocalFull_frame _) ?_
  rintro s4 ⟨e, ends, ploc, rfl⟩
  exact Returns.pure ⟨h1.idx, h1.half, h1.window⟩

theorem manageHistorywin_err (st : BidirStamp D) (RTT : VCounter) (s : AlgoState D) :
    Returns (manageHistorywin st RTT s) (Turns s) := by
  refine (manageHistorywin_cases st RTT s).mono ?_
  rintro s' ⟨s1, hs1, hcase⟩
  have h1 : s1.stampI = s.stampI ∧ s1.err.window = s.err.window ∧
      (s1.err.half = s.err.half ∨ s1.err.half = Totals.zero) := by
    rw [hs1]
    split
    · exact ⟨rfl, rfl, Or.inr rfl⟩
    · exact ⟨rfl, rfl, Or.inl rfl⟩
  rcases hcase with ⟨-, Df, Db, rfl⟩ | ⟨-, rfl⟩
  · exact ⟨h1.1, Or.inr rfl, Or.inr h1.2.2⟩
  · exact ⟨h1.1, h1.2.2, Or.inl h1.2.1⟩

theorem fullPhase_err (mp : Metaparam D) (inp : Input D) (s : AlgoState D) :
    Returns (fullPhase mp inp s) (Turns s) := by
  refine Returns.bind (manageHistorywin_err _ _ s) fun s1 h1 => ?_
  refine Returns.bind (processRTTFull_frame _ _) ?_
  rintro s2 ⟨rtt, e, perr, nhat, h', stt, rfl⟩
  refine Returns.bind (processOWDAsymFull_frame _ _) ?_
  rintro s3 ⟨owd, en, Dfhat, Dbhat, Asymhat, rfl⟩
  refine Returns.bind (Q := Turns s) ?_ fun s4 h4 => ?_
  · refine (updateNextPstamp_cases _ _ _).mono ?_
    rintro s4 ⟨c, rfl | ⟨-, -, perr', nhat', rfl⟩⟩
    · exact ⟨h1.idx, h1.half, h1.window⟩
    · exact ⟨h1.idx, h1.half, h1.window⟩
  refine Returns.bind (processPhatFull_frame _ _ _ _) ?_
  rintro s5 ⟨K, phat, perr', c, stt', rfl⟩
  refine Returns.bind (processPlocalFull_frame _ _) ?_
  rintro s6 ⟨en', ends, ploc, out, stt', rfl⟩
  refine Returns.bind (processThetahatFull_frame _ _ _ _ _) ?_
  rintro s7 ⟨t, off, bound, stt', out', rfl, -⟩
  refine (updatePathpenaltyFull_frame _ _ _).mono ?_
  rintro s8 ⟨pen, out'', rfl⟩
  exact ⟨h4.idx, h4.half, h4.window⟩

theorem phases_err (conf : Config D) (inp : Input D) (s : AlgoState D) :
    Returns (phases conf inp s) (Turns s) := by
  unfold phases
  refine Returns.ite (fun _ => Returns.pure ⟨rfl, Or.inl rfl, Or.inl rfl⟩) fun _ => ?_
  exact Returns.ite (fun _ => warmupPhase_err _ _ _) fun _ => fullPhase_err _ _ _

theorem reactToUpdate_err (conf : Config D) (s : AlgoState D) :
    Returns (reactToUpdate conf s) fun s' => s'.err = s.err ∧ s'.stampI = s.stampI := by
  refine Returns.ite (fun _ => ?_) fun _ => Returns.pure ⟨rfl, rfl⟩
  refine (updateState_cases _ _ _).mono ?_
  rintro s' ⟨poll, -, ⟨-, rfl⟩ | ⟨-, v, e, rfl⟩⟩
  · exact ⟨rfl, rfl⟩
  · exact ⟨rfl, rfl⟩

theorem nextStamp_err (conf : Config D) (s : AlgoState D) :
    (nextStamp conf s).err = s.err ∧ (nextStamp conf s).stampI = s.stampI + 1 := by
  unfold nextStamp
  dsimp only
  split
  · exact ⟨rfl, rfl⟩
  · exact ⟨rfl, rfl⟩

/-- The bound is added to both triples, except on the first stamp. -/
theorem updateErrors_err (mp : Metaparam D) (st : BidirStamp D) (s : AlgoState D) :
    Returns (updateErrors mp st s) fun s' =>
      (s.stampI ≤ 0 → s'.err = s.err) ∧
      (0 < s.stampI → s'.err.window = s.err.window.add s'.err.errorBound ∧
        s'.err.half = s.err.half.add s'.err.errorBound) := by
  refine Returns.ite (fun hpos => ?_) fun hpos =>
    Returns.pure ⟨fun _ => rfl, fun h => absurd h hpos⟩
  exact Returns.skip fun d => Returns.pure ⟨fun h => absurd hpos (by omega), fun _ => ⟨rfl, rfl⟩⟩

/-- One call: the triples turn over, then the bound of the stamp is added. -/
theorem RADalgoBidir_err (conf : Config D) (inp : Input D) (s : AlgoState D) :
    Returns (RADalgoBidir conf inp s) fun s' => ∃ s1, Turns { s with stampI := s.stampI + 1 } s1 ∧
      s'.stampI = s.stampI + 1 ∧ (s.stampI + 1 ≤ 0 → s'.err = s1.err) ∧
      (0 < s.stampI + 1 → s'.err.window = s1.err.window.add s'.err.errorBound ∧
        s'.err.half = s1.err.half.add s'.err.errorBound) := by
  obtain ⟨herr, hidx⟩ := nextStamp_err conf s
  refine Returns.bind (reactToUpdate_err conf _) ?_
  rintro s1 ⟨herr1, hidx1⟩
  refine Returns.bind (phases_err conf inp _) fun s2 h2 => ?_
  have hidx2 : s2.stampI = s.stampI + 1 := h2.idx.trans (hidx1.trans hidx)
  have herr2 : (recordStamp inp.stamp s1).err = s.err := herr1.trans herr
  have hturns : Turns { s with stampI := s.stampI + 1 } s2 := by
    refine ⟨hidx2, ?_, ?_⟩
    · rw [← herr2]
      exact h2.half
    · rw [← herr2]
      exact h2.window
  obtain ⟨stats, hcopy⟩ := copyStamp_frame inp.stamp s2
  rw [hcopy]
  refine Returns.bind ((updateErrors_err _ _ _).and (updateErrors_frame _ _ _)) ?_
  rintro s3 ⟨⟨hzero, hpos⟩, err, rfl⟩
  refine Returns.pure ⟨s2, hturns, hidx2, ?_, ?_⟩
  · rw [← hidx2]
    exact hzero
  · rw [← hidx2]
    exact hpos

/-! ## Runs -/

/-- The error bounds after each call. -/
def errorBoundsFrom : List (Call D) → AlgoState D → List D
  | [], _ => []
  | c :: cs, s =>
    match (RADalgoBidir c.conf c.inp s).res with
    | none => []
    | some s' => s'.err.errorBound :: errorBoundsFrom cs s'

theorem length_errorBoundsFrom (cs : List (Call D)) :
    ∀ s, Returns (runFrom cs s) fun _ => (errorBoundsFrom cs s).length = cs.length := by
  induction cs with
  | nil => exact fun s => Returns.pure rfl
  | cons c cs ih =>
    intro s s'' hres
    obtain ⟨s', hcall, hrest⟩ := bind_res_some.mp hres
    rw [errorBoundsFrom, hcall]
    exact congrArg (· + 1) (ih s' s'' hrest)

/-- The error bounds of a run. The first stamp has none. -/
def errorBounds (cs : List (Call D)) : List D := (errorBoundsFrom cs AlgoState.zero).tail

/-- After the bounds `bs`, both triples are those of a suffix. -/
structure TalliedErr (bs : List D) (s : AlgoState D) : Prop where
  idx : s.stampI = bs.length
  window : Tallied bs s.err.window
  half : Tallied bs s.err.half

theorem Tallied.exists_suffix {bs : List D} {t : Totals D} (h : Tallied bs t) :
    ∃ tl, tl <:+ bs ∧ t = Totals.of tl := h.imp fun _ h => ⟨h.1, h.2.2⟩

theorem exists_suffix_zero (bs : List D) : ∃ tl, tl <:+ bs ∧ Totals.zero = Totals.of tl :=
  ⟨[], List.nil_suffix, rfl⟩

theorem RADalgoBidir_tallied {bs : List D} {s : AlgoState D} (h : TalliedErr bs s)
    (conf : Config D) (inp : Input D) :
    Returns (RADalgoBidir conf inp s) fun s' => TalliedErr (bs ++ [s'.err.errorBound]) s' := by
  have hidx := h.idx
  refine (RADalgoBidir_err conf inp s).mono ?_
  rintro s' ⟨s1, hturns, hidx', -, hadd⟩
  -- past the first stamp the call adds one bound to both totals
  obtain ⟨hwin, hhalf⟩ := hadd (by omega)
  -- before that, a turn of the window may have zeroed a total or handed it over
  have hhalf1 : ∃ tl, tl <:+ bs ∧ s1.err.half = Totals.of tl := by
    rcases hturns.half with heq | heq
    · rw [heq]
      exact h.half.exists_suffix
    · rw [heq]
      exact exists_suffix_zero bs
  have hwin1 : ∃ tl, tl <:+ bs ∧ s1.err.window = Totals.of tl := by
    rcases hturns.window with heq | heq | heq
    · rw [heq]
      exact h.window.exists_suffix
    · rw [heq]
      exact h.half.exists_suffix
    · rw [heq]
      exact exists_suffix_zero bs
  obtain ⟨tl, htl, heq⟩ := hwin1
  obtain ⟨tl', htl', heq'⟩ := hhalf1
  refine ⟨?_, ?_, ?_⟩
  · rw [hidx', hidx]
    simp
  · rw [hwin, heq]
    exact Tallied.snoc htl _
  · rw [hhalf, heq']
    exact Tallied.snoc htl' _

theorem runFrom_tallied (cs : List (Call D)) :
    ∀ (bs : List D) (s : AlgoState D), TalliedErr bs s →
      Returns (runFrom cs s) fun s' => TalliedErr (bs ++ errorBoundsFrom cs s) s' := by
  induction cs with
  | nil =>
    intro bs s h
    rw [errorBoundsFrom, List.append_nil]
    exact Returns.pure h
  | cons c cs ih =>
    intro bs s h s'' hres
    obtain ⟨s', hcall, hrest⟩ := bind_res_some.mp hres
    have h' := ih _ s' (RADalgoBidir_tallied h c.conf c.inp s' hcall) s'' hrest
    rw [errorBoundsFrom, hcall]
    simpa using h'

/-- In any arithmetic, both triples are those of a suffix of the error bounds of the run. -/
theorem run_tallied (c : Call D) (cs : List (Call D)) :
    Returns (run (c :: cs)) (TalliedErr (errorBounds (c :: cs))) := by
  intro s' hres
  obtain ⟨s, hcall, hrest⟩ := bind_res_some.mp hres
  have hfirst : TalliedErr [] s := by
    obtain ⟨s1, hturns, hidx, hzero, -⟩ := RADalgoBidir_err c.conf c.inp AlgoState.zero s hcall
    have herr := hzero (Int.le_refl 0)
    refine ⟨hidx, ⟨[], List.nil_suffix, fun h => h, ?_⟩, ⟨[], List.nil_suffix, fun h => h, ?_⟩⟩
    · rw [herr]
      rcases hturns.window with heq | heq | heq
      · exact heq
      · exact heq
      · exact heq
    · rw [herr]
      rcases hturns.half with heq | heq
      · exact heq
      · exact heq
  have h := runFrom_tallied cs [] s hfirst s' hrest
  rw [errorBounds, errorBoundsFrom, hcall]
  exact h

/-! ## Exact arithmetic -/

theorem Totals.of_real (bs : List ℝ) :
    Totals.of bs = ⟨bs.length, bs.sum, (bs.map (· ^ 2)).sum⟩ := by
  induction bs using List.reverseRecOn with
  | nil => rfl
  | append_singleton bs b ih =>
    rw [Totals.of, List.foldl_append]
    show (Totals.of bs).add b = _
    rw [ih]
    simp [Totals.add, pow_two]

/-- What `process_stamp` divides by `nerror - 1` for the standard deviation. -/
def varianceNumerator (e : AlgoError D) : D :=
  e.sqCumsum - e.cumsum * e.cumsum / Arith.ofNat e.nerror

/-- The square of a sum, by the sum of the squares. -/
theorem sq_sum_le_length_mul (bs : List ℝ) :
    bs.sum ^ 2 ≤ bs.length * (bs.map (· ^ 2)).sum := by
  have h := sq_sum_le_card_mul_sum_sq (s := Finset.univ) (f := fun i : Fin bs.length => bs[i.1])
  rwa [Finset.card_fin, Fin.sum_univ_getElem, Fin.sum_univ_fun_getElem bs (· ^ 2)] at h

/-- The triple `(n, sum, sq)` counts and sums a suffix of `bs` that is not empty. -/
def SuffixSums (bs : List ℝ) (n : Nat) (sum sq : ℝ) : Prop :=
  ∃ tl, tl ≠ [] ∧ tl <:+ bs ∧ n = tl.length ∧ sum = tl.sum ∧ sq = (tl.map (· ^ 2)).sum

theorem Tallied.suffixSums {bs : List ℝ} (hbs : bs ≠ []) {n : Nat} {sum sq : ℝ}
    (h : Tallied bs ⟨n, sum, sq⟩) : SuffixSums bs n sum sq := by
  obtain ⟨tl, htl, hne, heq⟩ := h
  rw [Totals.of_real] at heq
  injection heq with h1 h2 h3
  exact ⟨tl, hne hbs, htl, h1, h2, h3⟩

theorem SuffixSums.pos {bs : List ℝ} {n : Nat} {sum sq : ℝ} (h : SuffixSums bs n sum sq) :
    1 ≤ n := by
  obtain ⟨tl, hne, -, rfl, -, -⟩ := h
  exact List.length_pos_iff.mpr hne

theorem SuffixSums.variance_nonneg {bs : List ℝ} {n : Nat} {sum sq : ℝ}
    (h : SuffixSums bs n sum sq) : 0 ≤ sq - sum * sum / n := by
  have hpos := h.pos
  obtain ⟨tl, -, -, rfl, rfl, rfl⟩ := h
  have hsq := sq_sum_le_length_mul tl
  have hn : (0 : ℝ) < tl.length := by exact_mod_cast hpos
  rw [sub_nonneg, div_le_iff₀ hn]
  nlinarith

/-- In exact arithmetic, after every stamp but the first of a run with any configuration
changes, each triple counts and sums the error bounds of a suffix of the stamps, the published
average divides by a positive count, and the variance is not negative. -/
theorem errors_tallied (c c' : Call ℝ) (cs : List (Call ℝ)) :
    Returns (run (c :: c' :: cs)) fun s =>
      let bs := errorBounds (c :: c' :: cs)
      bs.length = cs.length + 1 ∧
      SuffixSums bs s.err.nerror s.err.cumsum s.err.sqCumsum ∧
      SuffixSums bs s.err.nerrorHwin s.err.cumsumHwin s.err.sqCumsumHwin ∧
      1 ≤ s.err.nerror ∧ 0 ≤ varianceNumerator s.err := by
  intro s hres
  have h := run_tallied c (c' :: cs) s hres
  have hlen : (errorBounds (c :: c' :: cs)).length = cs.length + 1 := by
    rw [errorBounds, List.length_tail, length_errorBoundsFrom _ _ s hres]
    rfl
  have hne : errorBounds (c :: c' :: cs) ≠ [] := by
    intro hnil
    rw [hnil] at hlen
    cases hlen
  have hwindow := h.window.suffixSums hne
  exact ⟨hlen, hwindow, h.half.suffixSums hne, hwindow.pos, hwindow.variance_nonneg⟩

end RADclock
