import Mathlib.Tactic.Positivity
import RADclock.Daemon.Upshift
import RADclock.Lib.Rounding
import RADclock.Sync.OffsetWindow

/-!
# The adjusted offset window

While a change of the polling period is worked off, `process_thetahat` takes `adj_win` for the
offset window: the part of the new window that lies behind the old one, and what is left of the old
one in units of the new polling period.

- `Smooth`: `adj_win` stays between the windows and approaches the new one.
- `Grows`: the update lowers the polling period and does not make the offset window smaller.
- `run_adjusts`: where every update grows, every transition is smooth.

Binary64 is exact on the numbers of stamps; only the share of the old window is rounded, and
`Nearest.ceil_le_succ` is what keeps its ceiling from jumping.
-/

namespace RADclock

open Lib Lib.Exec

/-! ## The window along a transition -/

section Window

variable {s : AlgoState Float} {r : Float} {t : Nat}

/-- The offset window when `t` stamps of the transition are left. -/
def adjWin (s : AlgoState Float) (t : Nat) : Nat :=
  thetaWin { s with poll := { s.poll with pollTransitionTh := t } }

/-- From `a` to `b` is a move in the direction of `w`. -/
def Toward (w a b : Nat) : Prop := a ≤ b ∧ b ≤ w ∨ w ≤ b ∧ b ≤ a

/-- The rest of the transition, whose old window was `old`. -/
structure Smooth (old : Nat) (s : AlgoState Float) : Prop where
  noUnderflow : s.poll.pollTransitionTh ≤ s.win.offsetWin
  bounds : ∀ t, 0 < t → t ≤ s.poll.pollTransitionTh →
    1 ≤ adjWin s t ∧ adjWin s t ≤ max old s.win.offsetWin
  toward : ∀ t, t < s.poll.pollTransitionTh →
    Toward s.win.offsetWin (adjWin s (t + 1)) (adjWin s t)

/-- The ratio of a lowered polling period to the one before. -/
def Lowered (r : Float) : Prop :=
  ∃ p q : Nat, 1 ≤ p ∧ p < q ∧ q ≤ 1024 ∧ r = Float.ofNat p / Float.ofNat q

/-- Division rounds, and not up to one. -/
theorem Lowered.rep (h : Lowered r) : ∃ a : ℚ, Rep r a ∧ 2 ^ (-10 : ℤ) ≤ a ∧ a < 1 := by
  obtain ⟨p, q, hp, hpq, hq, rfl⟩ := h
  have hq0 : (0 : ℚ) < q := by exact_mod_cast Nat.lt_of_le_of_lt (Nat.zero_le p) hpq
  have hp1 : (1 : ℚ) ≤ p := by exact_mod_cast hp
  have hq1 : (q : ℚ) ≤ 1024 := by exact_mod_cast hq
  have hpq1 : (p : ℚ) + 1 ≤ q := by exact_mod_cast hpq
  have hlow : (2 : ℚ) ^ (-10 : ℤ) ≤ p / q := by
    rw [le_div_iff₀ hq0]
    norm_num
    linarith
  have hhigh : (p : ℚ) / q ≤ 1023 * 2 ^ (-10 : ℤ) := by
    rw [div_le_iff₀ hq0]
    norm_num
    linarith
  have hgrid : OnGrid (1023 * 2 ^ (-10 : ℤ)) :=
    ⟨1023, -10, by norm_num, by norm_num, by norm_num⟩
  obtain ⟨a, ha, hnear⟩ := Rep.div (Rep.ofNat (n := p) (by omega)) (Rep.ofNat (n := q) (by omega))
    hq0.ne' (by
      rw [abs_of_nonneg (by positivity)]
      exact (hhigh.trans (by norm_num)).trans (one_le_pow₀ (by norm_num)))
  refine ⟨a, ha, hnear.ge_of_ge (onGrid_zpow (by norm_num)) hlow, ?_⟩
  exact (hnear.le_of_le hgrid hhigh).trans_lt (by norm_num)

/-- The window, with the share of the old one rounded up to stamps. -/
theorem adjWin_eq {a : ℚ} (ha : Rep s.poll.pollRatio a) (hlow : 2 ^ (-10 : ℤ) ≤ a) (hlt : a < 1)
    (hw : s.win.offsetWin < 2 ^ 53) (ht : 0 < t) (htw : t ≤ s.win.offsetWin) :
    ∃ c : ℚ, Nearest (t * a) c ∧ 0 < c ∧ c ≤ t ∧ adjWin s t = s.win.offsetWin - t + ⌈c⌉₊ := by
  have ht1 : (1 : ℚ) ≤ t := by exact_mod_cast ht
  have hpos : (0 : ℚ) < 2 ^ (-10 : ℤ) := by positivity
  have hprod : (2 : ℚ) ^ (-10 : ℤ) ≤ t * a := by nlinarith
  have hle : (t : ℚ) * a ≤ t := by nlinarith
  obtain ⟨c, hc, hnear⟩ := (Rep.ofNat (n := t) (by omega)).mul ha (by
    rw [abs_of_nonneg (hpos.le.trans hprod)]
    exact hle.trans ((le_abs_self _).trans (natCast_le_top (by omega))))
  have hc0 : 0 < c := hpos.trans_le (hnear.ge_of_ge (onGrid_zpow (by norm_num)) hprod)
  have hct : c ≤ t := hnear.le_of_le (onGrid_natCast (by omega)) hle
  have hceil : ⌈c⌉₊ ≤ t := Nat.ceil_le.mpr hct
  obtain ⟨d, hd, hsum⟩ := (Rep.ofNat (n := s.win.offsetWin - t) (by omega)).add (hc.ceil hc0.le) (by
    rw [← Nat.cast_add]
    exact natCast_le_top (by omega))
  rw [← Nat.cast_add] at hsum
  have hexact := hsum.eq_of_onGrid (onGrid_natCast (by omega))
  refine ⟨c, hnear, hc0, hct, ?_⟩
  have hwin : adjWin s t = (Float.ofNat (wsub s.win.offsetWin t) +
      floatCeil (Float.ofNat t * s.poll.pollRatio)).toUInt64.toNat := if_pos ht
  rw [hwin, wsub_of_le htw, hd.toUInt64 (hexact ▸ Nat.cast_nonneg _) ?_, hexact, Nat.floor_natCast]
  rw [hexact]
  exact_mod_cast show s.win.offsetWin - t + ⌈c⌉₊ < 2 ^ 64 by omega

theorem adjWin_zero (s : AlgoState Float) : adjWin s 0 = s.win.offsetWin := by
  dsimp only [adjWin, thetaWin]
  exact if_neg (lt_irrefl 0)

/-- A lowered polling period, and a new window no smaller than what is left of the old one. -/
theorem smooth_of_lowered (old : Nat) (hr : Lowered s.poll.pollRatio)
    (hth : s.poll.pollTransitionTh ≤ s.win.offsetWin) (hw : s.win.offsetWin < 2 ^ 53) :
    Smooth old s := by
  obtain ⟨a, ha, hlow, hlt⟩ := hr.rep
  have hshare := fun t (h0 : 0 < t) (h : t ≤ s.win.offsetWin) => adjWin_eq ha hlow hlt hw h0 h
  have hbelow : ∀ t, t ≤ s.win.offsetWin → adjWin s t ≤ s.win.offsetWin := by
    intro t ht
    rcases Nat.eq_zero_or_pos t with rfl | h0
    · exact (adjWin_zero s).le
    · obtain ⟨c, -, -, hct, heq⟩ := hshare t h0 ht
      have hceil : ⌈c⌉₊ ≤ t := Nat.ceil_le.mpr hct
      omega
  refine ⟨hth, fun t h0 ht => ⟨?_, ?_⟩, fun t ht => .inl ⟨?_, hbelow t (by omega)⟩⟩
  · obtain ⟨c, -, hc0, -, heq⟩ := hshare t h0 (by omega)
    have hceil : 0 < ⌈c⌉₊ := Nat.ceil_pos.mpr hc0
    omega
  · exact (hbelow t (by omega)).trans (Nat.le_max_right _ _)
  · rcases Nat.eq_zero_or_pos t with rfl | h0
    · rw [adjWin_zero]
      exact hbelow 1 (by omega)
    · obtain ⟨c, hc, -, -, heq⟩ := hshare t h0 (by omega)
      obtain ⟨d, hd, -, hdt, heq'⟩ := hshare (t + 1) (by omega) (by omega)
      have hbig : d ≤ 2 ^ 53 := hdt.trans (by exact_mod_cast show t + 1 ≤ 2 ^ 53 by omega)
      have hjump := hc.ceil_le_succ hd (by push_cast; linarith) hbig
      omega

end Window

/-! ## Runs -/

/-- The window before the last change of the polling period. -/
def oldWin (old : Nat) (c : Call Float) (s : AlgoState Float) : Nat :=
  if c.conf.algoUpdate = true ∧ c.conf.pollPeriod ≠ (nextStamp c.conf s).poll.pollPeriod then
    (nextStamp c.conf s).win.offsetWin
  else old

/-- In every call of a run the transition is smooth, and the call leaves a stamp less of it. -/
def Adjusts : Nat → List (Call Float) → AlgoState Float → Prop
  | _, [], _ => True
  | old, c :: cs, s => ∀ s1, (beginCall c s).res = some s1 → Smooth (oldWin old c s) s1 ∧
      ∀ s', (RADalgoBidir c.conf c.inp s).res = some s' →
        SamePoll (stepTransition s1) s' ∧ Adjusts (oldWin old c s) cs s'

/-- An update lowers the polling period, and the new offset window is no smaller than the one in
force. Another update leaves room for what is left of a transition. -/
def Grows (c : Call Float) (s : AlgoState Float) : Prop :=
  0 ≤ s.stampI → c.conf.algoUpdate = true →
    if c.conf.pollPeriod = s.poll.pollPeriod then
      0 < s.poll.pollTransitionTh →
        s.poll.pollTransitionTh ≤ baseOffsetWin c.conf.metaparam c.conf.pollPeriod ∧
          baseOffsetWin c.conf.metaparam c.conf.pollPeriod < 2 ^ 53
    else
      c.conf.pollPeriod < s.poll.pollPeriod ∧
        s.win.offsetWin ≤ baseOffsetWin c.conf.metaparam c.conf.pollPeriod ∧
          baseOffsetWin c.conf.metaparam c.conf.pollPeriod < 2 ^ 53

/-- What such updates keep. -/
structure Lowering (s : AlgoState Float) : Prop where
  idx : 0 ≤ s.stampI
  maxPoll : s.poll.pollPeriod ≤ 1024
  ratio : 0 < s.poll.pollTransitionTh → Lowered s.poll.pollRatio
  room : 0 < s.poll.pollTransitionTh → s.poll.pollTransitionTh ≤ s.win.offsetWin
  small : 0 < s.poll.pollTransitionTh → s.win.offsetWin < 2 ^ 53

section Run

variable {s s' : AlgoState Float}

theorem Lowering.smooth (old : Nat) (h : Lowering s) : Smooth old s := by
  rcases Nat.eq_zero_or_pos s.poll.pollTransitionTh with h0 | h0
  · refine ⟨?_, fun t hpos ht => ?_, fun t ht => ?_⟩ <;> omega
  · exact smooth_of_lowered old (h.ratio h0) (h.room h0) (h.small h0)

theorem Lowering.congr (h : Lowering s) (hsame : SamePoll s s') : Lowering s' := by
  obtain ⟨hidx, hpoll, hwin⟩ := hsame
  refine ⟨hidx ▸ h.idx, hpoll ▸ h.maxPoll, ?_, ?_, ?_⟩ <;> rw [hpoll]
  · exact h.ratio
  · rw [hwin]
    exact h.room
  · rw [hwin]
    exact h.small

theorem Lowering.stepTransition (h : Lowering s) : Lowering (stepTransition s) where
  idx := h.idx
  maxPoll := h.maxPoll
  ratio hpos := h.ratio (Nat.lt_of_lt_of_le hpos (Nat.sub_le _ _))
  room hpos := (Nat.sub_le _ _).trans (h.room (Nat.lt_of_lt_of_le hpos (Nat.sub_le _ _)))
  small hpos := h.small (Nat.lt_of_lt_of_le hpos (Nat.sub_le _ _))

theorem beginCall_lowering (c : Call Float) (h : Lowering s) (hg : Grows c s) :
    Returns (beginCall c s) fun s' => 0 < s'.stampI ∧ Lowering s' := by
  have hnext : 0 < s.stampI + 1 := by
    have := h.idx
    omega
  unfold beginCall reactToUpdate
  rw [nextStamp_later c.conf h.idx]
  -- only an update can start a transition
  refine Returns.bind (Q := fun s' => 0 < s'.stampI ∧ Lowering s')
    (Returns.ite (fun hupd => ?_) fun _ => Returns.pure ⟨hnext, ?_⟩)
    fun s1 h1 => Returns.pure ⟨h1.1, h1.2.congr ⟨rfl, rfl, rfl⟩⟩
  · have hcase := hg h.idx hupd
    refine (updateState_poll _ _).mono ?_
    rintro s1 ⟨hidx, hpoll, hwin⟩
    have hidx1 : 0 < s1.stampI := hidx ▸ hnext
    refine ⟨hidx1, ?_⟩
    -- the poll period is kept: so is any transition under way
    by_cases hpp : c.conf.pollPeriod = s.poll.pollPeriod
    · rw [if_pos hpp] at hcase
      have hsame : s1.poll = s.poll := by
        rw [hpoll, recordPollChange, if_pos hpp]
      refine ⟨hidx1.le, hsame ▸ h.maxPoll, ?_, ?_, ?_⟩ <;> rw [hsame]
      · exact h.ratio
      · exact fun hpos => hwin ▸ (hcase hpos).1
      · exact fun hpos => hwin ▸ (hcase hpos).2
    · rw [if_neg hpp] at hcase
      -- it is lowered: a new transition, from the period in force
      obtain ⟨hlt, hle, hsmall⟩ := hcase
      rw [recordPollChange, if_neg hpp] at hpoll
      refine ⟨hidx1.le, ?_, fun _ => ?_, fun _ => ?_, fun _ => hwin ▸ hsmall⟩ <;> rw [hpoll]
      · exact c.conf.maxPoll
      · exact ⟨c.conf.pollPeriod, s.poll.pollPeriod, c.conf.minPoll, hlt, h.maxPoll, rfl⟩
      · rw [hwin]
        exact hle
  · exact ⟨hnext.le, h.maxPoll, h.ratio, h.room, h.small⟩

/-- The first stamp sets up the polling period: there is nothing to be changed. -/
theorem beginCall_first (c : Call Float) : Returns (beginCall c AlgoState.zero) fun s =>
    s.stampI = 0 ∧ s.poll.pollTransitionTh = 0 ∧ s.poll.pollPeriod = c.conf.pollPeriod := by
  unfold beginCall reactToUpdate
  refine Returns.bind (Q := fun s : AlgoState Float => s.stampI = 0 ∧
    s.poll.pollTransitionTh = 0 ∧ s.poll.pollPeriod = c.conf.pollPeriod)
    (Returns.ite (fun _ => ?_) fun _ => Returns.pure ⟨rfl, rfl, rfl⟩)
    fun s1 h1 => Returns.pure h1
  refine (updateState_poll _ _).mono ?_
  rintro s1 ⟨hidx, hpoll, -⟩
  have hsame : c.conf.pollPeriod = (nextStamp c.conf AlgoState.zero).poll.pollPeriod := rfl
  rw [recordPollChange, if_pos hsame] at hpoll
  rw [hidx, hpoll]
  exact ⟨rfl, rfl, rfl⟩

/-- What a call makes of the transition it begins with. -/
theorem RADalgoBidir_poll (c : Call Float) {s1 : AlgoState Float}
    (h1 : (beginCall c s).res = some s1) (hfirst : s1.stampI = 0 → s1.poll.pollTransitionTh = 0) :
    Returns (RADalgoBidir c.conf c.inp s) (SamePoll (stepTransition s1)) := by
  rw [RADalgoBidir_eq]
  refine Returns.bind (Q := SamePoll (stepTransition s1)) ?_ fun s2 h2 => ?_
  · refine Returns.bind (Q := (· = s1)) (fun s2 h2 => Option.some.inj (h2.symm.trans h1)) ?_
    rintro s2 rfl
    by_cases hidx : s2.stampI = 0
    · have hinit : phases c.conf c.inp s2 = pure (initPhase c.conf c.inp.stamp s2) := if_pos hidx
      rw [hinit]
      refine Returns.pure ⟨rfl, ?_, rfl⟩
      show s2.poll = { s2.poll with pollTransitionTh := s2.poll.pollTransitionTh - 1 }
      rw [show s2.poll.pollTransitionTh - 1 = s2.poll.pollTransitionTh by rw [hfirst hidx]]
    · exact phases_poll _ _ hidx
  · exact (endCall_samePoll _ _).mono fun s3 h3 => h2.trans h3

theorem runFrom_adjusts (cs : List (Call Float)) :
    ∀ old s, Lowering s → RunMeets Grows cs s → Adjusts old cs s := by
  induction cs with
  | nil => exact fun _ _ _ _ => trivial
  | cons c cs ih =>
    intro old s h hm s1 hs1
    obtain ⟨hpos, h1⟩ := beginCall_lowering c h hm.1 s1 hs1
    refine ⟨h1.smooth _, fun s' hs' => ?_⟩
    have hpoll := RADalgoBidir_poll c hs1 (fun h0 => absurd h0 hpos.ne') s' hs'
    exact ⟨hpoll, ih _ s' (h1.stepTransition.congr hpoll) (hm.2 s' hs')⟩

/-- Where every update grows the window, every transition of the run is smooth. -/
theorem run_adjusts (cs : List (Call Float)) (h : RunMeets Grows cs AlgoState.zero) :
    Adjusts 0 cs AlgoState.zero := by
  cases cs with
  | nil => trivial
  | cons c cs =>
    intro s1 hs1
    obtain ⟨hidx, hth, hpp⟩ := beginCall_first c s1 hs1
    have h1 : Lowering s1 := by
      refine ⟨hidx.ge, hpp ▸ c.conf.maxPoll, ?_, ?_, ?_⟩ <;> intro hpos <;> omega
    refine ⟨h1.smooth _, fun s' hs' => ?_⟩
    have hpoll := RADalgoBidir_poll c hs1 (fun _ => hth) s' hs'
    exact ⟨hpoll, runFrom_adjusts cs _ s' (h1.stepTransition.congr hpoll) (h.2 s' hs')⟩

/-- A first stamp under the defaults, every 16 seconds. -/
def sixteen : Call Float := ⟨defaults, ⟨steady 0, false, 0⟩⟩

/-- The stamp after it, under another polling period. -/
def repolled (pollPeriod : Nat) (minPoll : 1 ≤ pollPeriod) (maxPoll : pollPeriod ≤ 1024) :
    Call Float :=
  ⟨{ (configInit pollPeriod minPoll maxPoll : Config Float) with mask := UPDMASK_POLLPERIOD },
    ⟨steady 1, false, 0⟩⟩

theorem run_sixteen : ((RADalgoBidir sixteen.conf sixteen.inp AlgoState.zero).res.map fun s =>
    (s.stampI, s.poll.pollPeriod, s.win.offsetWin)) = some (0, 16, 64) := by
  decide +kernel

theorem sixteen_returns (h : (RADalgoBidir sixteen.conf sixteen.inp AlgoState.zero).res = some s) :
    s.stampI = 0 ∧ s.poll.pollPeriod = 16 ∧ s.win.offsetWin = 64 := by
  have heq := run_sixteen
  rw [h] at heq
  simpa using heq

/-- From 16 seconds to 8 seconds. -/
theorem run_adjusts_eight :
    Adjusts 0 [sixteen, repolled 8 (by decide) (by decide)] AlgoState.zero := by
  refine run_adjusts _ ⟨fun h => absurd h (by decide), fun s hs => ⟨fun _ _ => ?_, ?_⟩⟩
  · obtain ⟨-, hpp, hwin⟩ := sixteen_returns hs
    rw [if_neg (by rw [hpp]; decide), hpp, hwin]
    decide
  · exact fun _ _ => trivial

/-- A smaller window than the one in force: the subtraction wraps. -/
theorem beginCall_shrinks (old : Nat) (c : Call Float) (hidx : 0 ≤ s.stampI)
    (hupd : c.conf.algoUpdate = true) (hpp : c.conf.pollPeriod ≠ s.poll.pollPeriod)
    (hlt : baseOffsetWin c.conf.metaparam c.conf.pollPeriod < s.win.offsetWin) :
    Returns (beginCall c s) fun s1 => ¬ Smooth old s1 := by
  unfold beginCall reactToUpdate
  rw [nextStamp_later c.conf hidx, if_pos hupd]
  refine Returns.bind (updateState_poll _ _) ?_
  rintro s1 ⟨-, hpoll, hwin⟩
  rw [recordPollChange, if_neg hpp] at hpoll
  refine Returns.pure fun h => ?_
  have hle := h.noUnderflow
  change s1.poll.pollTransitionTh ≤ s1.win.offsetWin at hle
  rw [hpoll, hwin] at hle
  exact absurd hlt (Nat.not_lt.mpr hle)

/-- From 16 seconds to 32 seconds. -/
theorem not_adjusts : ¬ ∀ cs : List (Call Float), Adjusts 0 cs AlgoState.zero := by
  intro hall
  have hret : ((RADalgoBidir sixteen.conf sixteen.inp AlgoState.zero >>=
      beginCall (repolled 32 (by decide) (by decide))).res.isSome) = true := by
    decide +kernel
  obtain ⟨s1, hs1⟩ := Option.isSome_iff_exists.mp hret
  obtain ⟨s, hs, hbegin⟩ := bind_res_some.mp hs1
  obtain ⟨hidx, hpp, hwin⟩ := sixteen_returns hs
  obtain ⟨s0, hs0, -⟩ := bind_res_some.mp (RADalgoBidir_eq sixteen AlgoState.zero ▸ hs)
  obtain ⟨s0, hs0, -⟩ := bind_res_some.mp hs0
  have hsecond := ((hall [sixteen, repolled 32 (by decide) (by decide)] s0 hs0).2 s hs).2 s1 hbegin
  refine beginCall_shrinks _ _ hidx.ge (by decide) (by rw [hpp]; decide) ?_ s1 hbegin hsecond.1
  rw [hwin]
  decide

end Run

end RADclock
