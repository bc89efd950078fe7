import RADclock.Sync.OffsetWindow

/-!
# What the algorithm divides by

The divisors that are kept in the state: `Eoffset` in the weights of the offset estimate, the two
period estimates, the polling period and the number of stamps between two statistics, and the
sizes of the histories, which indices are reduced by.

- `Nonzero`: none of them is zero. Every sub-algorithm keeps it, `process_phat_full` if the
  candidate it adopts is a period.
- `CallDivides`: the divisors of a call, where the source divides by them.
- `Divisible`: what the configuration and the stamps have to meet.

A number is zero if `==` says so; no law of the arithmetic is needed.
-/

namespace RADclock

open Lib Lib.Exec Lib.Arith

variable {D : Type} [Arith D] {mp : Metaparam D} {s : AlgoState D}

/-! ## Divisors in the state -/

/-- Every history has room for an item. -/
structure Sized (h : Hists D) : Prop where
  stamp : 0 < h.stamp.bufferSz
  Df : 0 < h.Df.bufferSz
  Db : 0 < h.Db.bufferSz
  Dfhat : 0 < h.Dfhat.bufferSz
  Dbhat : 0 < h.Dbhat.bufferSz
  Asymhat : 0 < h.Asymhat.bufferSz
  RTT : 0 < h.RTT.bufferSz
  RTThat : 0 < h.RTThat.bufferSz
  thnaive : 0 < h.thnaive.bufferSz

/-- No divisor of the state is zero. -/
structure Nonzero (s : AlgoState D) : Prop where
  Eoffset : (s.thres.Eoffset == 0) = false
  phat : (s.osc.phat == 0) = false
  plocal : (s.ploc.plocal == 0) = false
  pollPeriod : 0 < s.poll.pollPeriod
  statsPeriod : 0 < 6 * 3600 / s.poll.pollPeriod
  hist : Sized s.hist

/-- What `Nonzero` looks at, but for the histories. -/
structure SameDivisors (s s' : AlgoState D) : Prop where
  Eoffset : s'.thres.Eoffset = s.thres.Eoffset
  phat : s'.osc.phat = s.osc.phat
  plocal : s'.ploc.plocal = s.ploc.plocal
  pollPeriod : s'.poll.pollPeriod = s.poll.pollPeriod

/-- The divisors of a state that has the same ones. -/
theorem Nonzero.congr {s' : AlgoState D} (h : Nonzero s) (hsame : SameDivisors s s')
    (hhist : Sized s'.hist) : Nonzero s' where
  Eoffset := hsame.Eoffset ▸ h.Eoffset
  phat := hsame.phat ▸ h.phat
  plocal := hsame.plocal ▸ h.plocal
  pollPeriod := hsame.pollPeriod ▸ h.pollPeriod
  statsPeriod := hsame.pollPeriod ▸ h.statsPeriod
  hist := hhist

/-! ## History sizes -/

/-- So have resized ones, if the sizes asked for are not zero. -/
theorem sized_resizeHists {sz : HistSizes} (hstamp : 0 < sz.stamp) (hRTT : 0 < sz.RTT)
    (hhat : 0 < sz.RTThat) (hth : 0 < sz.thnaive) (h : Hists D) : Sized (resizeHists sz h) := by
  unfold resizeHists
  constructor <;> simp only [historyResize_bufferSz] <;> assumption

omit [Arith D] in
/-- Adding a stamp does not change the sizes. -/
theorem Sized.recordStamp (h : Sized s.hist) (st : BidirStamp D) :
    Sized (recordStamp st s).hist := by
  refine ⟨?_, h.Df, h.Db, h.Dfhat, h.Dbhat, h.Asymhat, ?_, h.RTThat, h.thnaive⟩
  · exact (historyAdd_bufferSz _ _ _).symm ▸ h.stamp
  · exact (historyAdd_bufferSz _ _ _).symm ▸ h.RTT

omit [Arith D] in
/-- Nor does rewriting it. -/
theorem rewriteBack_bufferSz (v : VCounter) (jmin j : Nat) : ∀ h : History VCounter,
    Returns (rewriteBack v jmin j h : Algo D _) fun h' => h'.bufferSz = h.bufferSz := by
  have hset : ∀ (h : History VCounter) (i : Nat),
      Returns (historySet h i v : Algo D _) fun h' => h'.bufferSz = h.bufferSz := fun h i =>
    Returns.skip fun _ => Returns.skip fun _ => Returns.pure rfl
  induction j with
  | zero =>
    refine fun h => Returns.ite (fun _ => ?_) fun _ => Returns.pure rfl
    exact Returns.skip fun _ => Returns.skip fun _ => fun _ hr => nomatch hr
  | succ j ih =>
    refine fun h => Returns.ite (fun _ => Returns.pure rfl) fun _ => ?_
    exact Returns.bind (hset h _) fun h1 h1sz => (ih h1).mono fun h2 h2sz => h2sz.trans h1sz

/-! ## Warmup -/

omit [Arith D] in
/-- Adding an offset does not change the sizes. -/
theorem Sized.recordTheta (h : Sized s.hist) (th : D) :
    Sized { s.hist with thnaive := historyAdd s.hist.thnaive s.si th } :=
  ⟨h.stamp, h.Df, h.Db, h.Dfhat, h.Dbhat, h.Asymhat, h.RTT, h.RTThat,
    (historyAdd_bufferSz _ _ _).symm ▸ h.thnaive⟩

omit [Arith D] in
/-- The start of plocal takes over the estimate. -/
theorem initPlocalFull_plocal (s : AlgoState D) : Returns (initPlocalFull s) fun s' =>
    s'.ploc.plocal = s.ploc.plocal := by
  refine Returns.bind (Q := fun s1 => s1.ploc.plocal = s.ploc.plocal) ?_
    fun s1 h1 => Returns.pure h1
  refine Returns.ite (fun _ => ?_) fun _ => Returns.pure rfl
  refine (resetPlocal_frame _).mono ?_
  rintro s1 ⟨far, near, rfl⟩
  rfl

/-- Up to `process_phat_full`. -/
def toPhat (inp : Input D) (s : AlgoState D) : Algo D (AlgoState D) := do
  let s ← toUpshift inp s
  let s ← detectUpshift s
  let s ← processOWDAsymFull inp.stamp s
  updateNextPstamp inp.stamp inp.stamp.RTT s

/-- What comes before plocal, cut before the period. -/
theorem toPlocal_eq (inp : Input D) (s : AlgoState D) : toPlocal inp s =
    toPhat inp s >>= processPhatFull inp.stamp inp.stamp.RTT inp.qualWarning := by
  unfold toPlocal toPhat
  simp only [bind_assoc]

/-- The quality of the stamp, and of its pair with `pstamp`, is good enough for a candidate. -/
def Considers (st : BidirStamp D) (s : AlgoState D) : Prop :=
  let perrI := s.osc.phat * (vcD st.RTT - vcD s.rtt.RTThat)
  let perrIJ := (fabs perrI + fabs s.past.pstampPerr + baseerr s) / (st.Tb - s.past.pstamp.Tb)
  ¬ s.thres.Ep ≤ perrI ∧ ¬ (s.osc.perr ≤ perrIJ ∧ s.thres.EpQual ≤ perrIJ)

/-- The second stamp is later than the first in all four timestamps, by intervals whose ratios
are not rounded away. -/
structure Later (far near : BidirStamp D) : Prop where
  Ta : near.Ta - far.Ta ≠ 0
  Tb : ¬ near.Tb - far.Tb ≤ 0
  Te : ¬ near.Te - far.Te ≤ 0
  Tf : near.Tf - far.Tf ≠ 0
  period : (((near.Tb - far.Tb) / vcD (near.Ta - far.Ta) +
    (near.Te - far.Te) / vcD (near.Tf - far.Tf)) / 2.0 == 0) = false

/-- The histories are given sizes that fit into an `unsigned int`, or at least do not wrap
to zero. -/
def Sizeable (si : Nat) (w : Windows) : Prop :=
  if si < w.warmupWin then ¬ 2 ^ 32 ∣ w.warmupWin
  else ¬ 2 ^ 32 ∣ max (plocalSpan w) w.offsetWin ∧
    ¬ 2 ^ 32 ∣ max (plocalSpan w) (max w.offsetWin w.shiftWin) ∧ ¬ 2 ^ 32 ∣ w.offsetWin

instance (si : Nat) (w : Windows) : Decidable (Sizeable si w) :=
  inferInstanceAs (Decidable (if si < w.warmupWin then ¬ 2 ^ 32 ∣ w.warmupWin
    else ¬ 2 ^ 32 ∣ max (plocalSpan w) w.offsetWin ∧
      ¬ 2 ^ 32 ∣ max (plocalSpan w) (max w.offsetWin w.shiftWin) ∧ ¬ 2 ^ 32 ∣ w.offsetWin))

/-- The windows that an update calls for. -/
def askedWindows (conf : Config D) (s : AlgoState D) : Windows :=
  if s.si < s.win.warmupWin then
    warmWindows s.si conf.pollPeriod (newWindows conf.metaparam conf.pollPeriod s.win)
  else newWindows conf.metaparam conf.pollPeriod s.win

/-- What a call is asked to meet: thresholds and windows, where they are set, and a later stamp
than `pstamp`, where the two make a candidate. -/
structure Divisible (c : Call D) (s : AlgoState D) : Prop where
  TSLIMIT : s.stampI < 0 ∨ c.conf.algoUpdate = true → (c.conf.metaparam.TSLIMIT == 0) = false
  first : s.stampI < 0 → ¬ 2 ^ 32 ∣ (startWindows c.conf).warmupWin
  update : c.conf.algoUpdate = true →
    Sizeable (nextStamp c.conf s).si (askedWindows c.conf (nextStamp c.conf s))
  later : Returns (beginCall c s) fun s1 => s1.stampI ≠ 0 → s1.win.warmupWin ≤ s1.si →
    Returns (toPhat c.inp s1) fun s2 => Considers c.inp.stamp s2 → Later s2.past.pstamp c.inp.stamp

omit [Arith D] in
/-- A capacity is zero only if its window is a multiple of 2 ^ 32. -/
theorem histSz_pos {w : Nat} (h : ¬ 2 ^ 32 ∣ w) : 0 < histSz w :=
  Nat.pos_of_ne_zero fun h0 => h (Nat.dvd_of_mod_eq_zero h0)

/-- The capacities that an update asks for are not zero. -/
theorem Sizeable.resizeHists {si : Nat} {w : Windows} (h : Sizeable si w) (hs : Hists D) :
    Sized (resizeHists (histSizes si w) hs) := by
  unfold Sizeable at h
  unfold histSizes
  split_ifs at h ⊢
  · exact sized_resizeHists (histSz_pos h) (histSz_pos h) (histSz_pos h) (histSz_pos h) hs
  · exact sized_resizeHists (histSz_pos h.1) (histSz_pos h.2.1) (histSz_pos h.2.2)
      (histSz_pos h.2.2) hs

end RADclock
