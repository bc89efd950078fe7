import RADclock.Sync.Transitions

/-!
# The correction of the RTThat history

After an upshift `process_RTT_full` overwrites the estimates recorded since, from the newest back to
the later of the starts of the shift and the offset window. Both starts are computed on unsigned
numbers, and so is the index of the loop:

- a shift window longer than the stamps seen so far makes its start wrap, and nothing is corrected;
- a correction that reaches stamp `0` never ends;
- where the history has lost the first index to be corrected, the loop dereferences null.

- `Corrects`: what the correction is for.
- `corrects_iff`: it does that exactly when none of this happens.
-/

namespace RADclock

open Lib Lib.Exec

variable {D : Type} [Arith D]

/-! ## Statement -/

/-- The test for an upshift. -/
def Detects (s : AlgoState D) : Prop :=
  s.rtt.RTThat + s.rtt.RTThatShiftThres < s.rtt.RTThatShift

/-- The first stamp whose estimate is to be corrected, in integers. -/
def correctionStart (s : AlgoState D) : Int :=
  max (max ((s.si : Int) - s.win.shiftWin + 1) (s.si - s.win.offsetWin + 1)) 0

/-- The RTThat history of `s'` is that of `s` with the corrections made, and no others. -/
structure CorrectedHats (s s' : AlgoState D) : Prop where
  hat : s'.rtt.RTThat = s.rtt.RTThatShift
  has : ∀ j, s'.hist.RTThat.Has j ↔ s.hist.RTThat.Has j
  inside : ∀ j, s.hist.RTThat.Has j → correctionStart s ≤ j →
    s'.hist.RTThat.item j = s'.rtt.RTThat
  outside : ∀ j, s.hist.RTThat.Has j → j < correctionStart s →
    s'.hist.RTThat.item j = s.hist.RTThat.item j

/-- The reaction to an upshift comes to its end, looks up held entries only, and corrects what is
to be corrected. -/
def Corrects (s : AlgoState D) : Prop :=
  (∀ e ∈ (detectUpshift s).log, e.Held) ∧
    ∃ s', (detectUpshift s).res = some s' ∧ CorrectedHats s s'

/-- There have been enough stamps for the shift window, stamp `0` is not to be corrected, and the
first stamp to be corrected is still in the history; or the loop is skipped where the history holds
the new estimate already. -/
def CorrectionFits (s : AlgoState D) : Prop :=
  s.win.shiftWin ≤ s.si + 1 ∧ 0 < correctionStart s ∧
      (s.hist.RTThat.oldestI : Int) ≤ correctionStart s ∨
    s.si + 1 < s.win.shiftWin ∧ ∀ j, s.hist.RTThat.Has j → correctionStart s ≤ j →
      s.hist.RTThat.item j = s.rtt.RTThatShift

/-! ## The bounds of the loop -/

section Step

variable {F : Nat → BidirStamp D} {n : Nat} {s : AlgoState D}

omit [Arith D] in
/-- With enough stamps, the loop stops where it should. -/
theorem upshiftJmin_eq (hw : WinOk s.win) (hle : s.win.shiftWin ≤ s.si + 1) :
    (upshiftJmin s : Int) = correctionStart s := by
  have hoff := hw.offset
  unfold upshiftJmin lastshift correctionStart
  dsimp only
  rw [wsub_of_le hle, wsub_of_le (show 1 ≤ s.win.offsetWin by omega)]
  split <;> omega

omit [Arith D] in
/-- With too few, its bound lies beyond the current stamp. -/
theorem lt_upshiftJmin (hlt : s.si + 1 < s.win.shiftWin) (hbound : s.win.shiftWin < 2 ^ 64) :
    s.si < upshiftJmin s := by
  have hwrap : lastshift s = 2 ^ 64 + (s.si + 1) - s.win.shiftWin :=
    if_neg (Nat.not_le.mpr hlt)
  have hle : lastshift s ≤ upshiftJmin s := Nat.le_max_left _ _
  omega

/-! ## The loop -/

omit [Arith D] in
theorem rewriteBack_skip (v : VCounter) {jmin j : Nat} (hlt : j < jmin) (h : History VCounter) :
    (rewriteBack v jmin j h : Algo D _) = pure h := by
  cases j with
  | zero => exact if_neg (by omega)
  | succ j => exact if_pos hlt

omit [Arith D] in
/-- The loop runs into the entries that have been lost. -/
theorem rewriteBack_lost (v : VCounter) {jmin : Nat} (hpos : 1 ≤ jmin) :
    ∀ (j : Nat) (h : History VCounter), jmin < h.oldestI → h.oldestI ≤ j + 1 →
      Returns (rewriteBack v jmin j h : Algo D _) (fun _ => False) := by
  intro j
  induction j with
  | zero =>
    intro h hlt hle
    omega
  | succ j ih =>
    intro h hlt hle
    refine Returns.ite (fun hstop => absurd hstop (by omega)) fun _ => ?_
    have hset : Sat (fun _ => True) True (historySet h (j + 1) v : Algo D _)
        (fun h' => h.oldestI ≤ j + 1 ∧ h'.oldestI = h.oldestI) :=
      historySet_sat ⟨True.intro, fun _ => True.intro⟩ v fun hold => ⟨hold, rfl⟩
    refine Returns.bind hset.returns ?_
    rintro h' ⟨hold, heq⟩
    exact ih h' (by omega) (by omega)

/-! ## The reaction to an upshift -/

/-- The reaction is the loop, and assignments to other fields. -/
theorem detectUpshift_eq (hd : Detects s) : ∃ perr nhat, detectUpshift s = (do
    let h ← rewriteBack s.rtt.RTThatShift (upshiftJmin s) s.si s.hist.RTThat
    pure ({ s with
      rtt := { s.rtt with RTThat := s.rtt.RTThatShift, nextRTThat := s.rtt.RTThatShift }
      past := { s.past with nextPstampPerr := perr, nextPstampRTThat := nhat }
      hist := { s.hist with RTThat := h } }.addStatus STARAD_RTT_UPSHIFT)) := by
  obtain ⟨perr, nhat, heq⟩ := recalcNextPstamp_frame (adoptShift s)
  refine ⟨perr, nhat, ?_⟩
  unfold detectUpshift
  rw [if_pos (show s.rtt.RTThat + s.rtt.RTThatShiftThres < s.rtt.RTThatShift from hd)]
  dsimp only
  rw [heq]
  rfl

theorem not_corrects_of_never (hd : Detects s)
    (h : Returns (rewriteBack s.rtt.RTThatShift (upshiftJmin s) s.si s.hist.RTThat : Algo D _)
      (fun _ => False)) : ¬ Corrects s := by
  rintro ⟨-, s', hres, -⟩
  obtain ⟨perr, nhat, heq⟩ := detectUpshift_eq hd
  rw [heq] at hres
  obtain ⟨h', hloop, -⟩ := bind_res_some.mp hres
  exact h h' hloop

/-- The loop is skipped. -/
theorem corrects_skip_iff (hd : Detects s) (hlt : s.si < upshiftJmin s) :
    Corrects s ↔ ∀ j, s.hist.RTThat.Has j → correctionStart s ≤ j →
      s.hist.RTThat.item j = s.rtt.RTThatShift := by
  obtain ⟨perr, nhat, heq⟩ := detectUpshift_eq hd
  rw [rewriteBack_skip _ hlt] at heq
  unfold Corrects
  rw [heq]
  constructor
  · rintro ⟨-, s', hres, hs'⟩ j hj hin
    cases hres
    exact hs'.inside j hj hin
  · intro hall
    refine ⟨fun e he => (nomatch he), _, rfl, ?_⟩
    exact ⟨rfl, fun _ => Iff.rfl, hall, fun _ _ _ => rfl⟩

/-- The loop makes the corrections. -/
theorem corrects_of_held (h : Within F n (n + 1) s) (hd : Detects s)
    (hjmin : (upshiftJmin s : Int) = correctionStart s) (hpos : 1 ≤ upshiftJmin s)
    (hold : s.hist.RTThat.oldestI ≤ upshiftJmin s) : Corrects s := by
  obtain ⟨hats, hh⟩ := h.hats
  obtain ⟨perr, nhat, heq⟩ := detectUpshift_eq hd
  -- the loop corrects every held index of the window
  have hloop := rewriteBack_sat (v := s.rtt.RTThatShift) hpos s.si s.hist.RTThat hats
    (Nat.le_of_eq h.si) hh (okFrom_of_held (P := Event.Held (D := D)) (H := False) hh
      (fun _ _ _ _ h1 h2 => ⟨h1, h2⟩) hold)
  unfold Corrects
  rw [heq]
  refine ⟨(Sat.bind (R := fun _ => True) hloop fun _ _ => Sat.pure True.intro).1, ?_⟩
  -- and returns, since its lower end is above 0
  obtain ⟨h', hres, hshape, hholds⟩ := hloop.exists_res
  refine ⟨_, bind_res_some.mpr ⟨h', hres, rfl⟩, rfl, fun j => ?_, fun j hj hin => ?_,
    fun j hj hout => ?_⟩
  · show h'.oldestI ≤ j ∧ (j : Int) ≤ h'.newestI ↔ _
    rw [hshape.oldestI, hshape.newestI]
    rfl
  · obtain ⟨hlt, -⟩ := hh.item_eq hj
    have hj' : h'.Has j := by
      unfold History.Has
      rw [hshape.oldestI, hshape.newestI]
      exact hj
    refine (hholds.item_eq hj').2.trans (if_pos ⟨by omega, ?_⟩)
    rw [h.si]
    omega
  · obtain ⟨-, hitem⟩ := hh.item_eq hj
    have hj' : h'.Has j := by
      unfold History.Has
      rw [hshape.oldestI, hshape.newestI]
      exact hj
    rw [hitem]
    exact (hholds.item_eq hj').2.trans (if_neg fun hin => by omega)

/-- The correction is right exactly when its bounds are. -/
theorem corrects_iff_fits (h : Within F n (n + 1) s) (hbound : s.win.shiftWin < 2 ^ 64)
    (hd : Detects s) : Corrects s ↔ CorrectionFits s := by
  unfold CorrectionFits
  rcases Nat.lt_or_ge (s.si + 1) s.win.shiftWin with hlt | hle
  · rw [corrects_skip_iff hd (lt_upshiftJmin hlt hbound)]
    exact ⟨fun hall => Or.inr ⟨hlt, hall⟩, fun hor => hor.elim (fun hc => absurd hc.1 (by omega))
      (·.2)⟩
  · have hjmin := upshiftJmin_eq h.win.ok hle
    obtain ⟨hats, hh⟩ := h.hats
    constructor
    · intro hc
      have hpos : 1 ≤ upshiftJmin s := by
        by_contra hzero
        refine not_corrects_of_never hd ?_ hc
        rw [show upshiftJmin s = 0 by omega]
        exact rewriteBack_zero _ _ _
      refine Or.inl ⟨hle, by omega, ?_⟩
      by_contra hlost
      have hrange := hh.old_le
      exact not_corrects_of_never hd (rewriteBack_lost _ hpos _ _ (by omega)
        (by rw [h.si]; exact hrange)) hc
    · rintro (⟨-, hpos, hold⟩ | ⟨hlt, -⟩)
      · exact corrects_of_held h hd hjmin (by omega) (by omega)
      · omega

end Step

/-! ## Runs -/

/-- On doubles a window is converted from 64 bits. -/
theorem Configured.shiftWin_lt {w : Windows} (h : Configured Float w) : w.shiftWin < 2 ^ 64 := by
  obtain ⟨mp, pp, hshift, -⟩ := h
  have hlt := (Arith.ceil (10.0 * mp.TSLIMIT / 1e-7 / Arith.ofNat pp) : Float).toUInt64.toNat_lt
  rw [hshift]
  exact Nat.max_lt.mpr ⟨hlt, by decide⟩

/-- The next call of any run, up to the test for an upshift. -/
theorem run_toUpshift (cs : List (Call D)) (c : Call D) :
    Returns (run cs >>= beginCall c >>= fun s => toUpshift c.inp s) fun s =>
      s.win.warmupWin ≤ s.si → Within (stampsOf (cs ++ [c])) cs.length (cs.length + 1) s := by
  refine Returns.bind (run_beginCall cs c (follows_stampsOf _)) ?_
  rintro s ⟨-, -, -, h⟩
  intro s' hres hfull
  have hsame := toUpshift_series c.inp s s' hres
  have hsi' : s'.si = s.si := by
    unfold AlgoState.si
    rw [hsame.idx]
  rw [hsame.warmupWin, hsi'] at hfull
  exact (toUpshift_within (h hfull) c.inp s' hres).2.1

/-- In every state that any run reaches at the test for an upshift, with any configuration changes
on the way, a detected upshift is corrected as intended exactly when the bounds fit. -/
theorem corrects_iff (cs : List (Call Float)) (c : Call Float) :
    Returns (run cs >>= beginCall c >>= fun s => toUpshift c.inp s) fun s =>
      s.win.warmupWin ≤ s.si → Detects s → (Corrects s ↔ CorrectionFits s) :=
  (run_toUpshift cs c).mono fun _ h hfull hd =>
    corrects_iff_fits (h hfull) (h hfull).win.shiftWin_lt hd

end RADclock
