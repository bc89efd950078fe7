import RADclock.Sync.Frames

/-!
# What each sub-algorithm looks at

One rule per function: which lookups and which counter differences it makes, given where
its windows stand, and what it knows about its result. The rules are stated for an
arbitrary event predicate `P` and an arbitrary halting condition `H`, and ask for

- `OkFrom P H h lo n`: the lookups of history `h` from index `lo` on,
- `DiffOk P F n`: the differences between stamps, an earlier from a later one.

At `H = True` with `P` silent about lookups the first is free; at `H = False` it has to be
derived from the sizes of the histories. `F` is the series of all stamps of the run, and
`n` the index of the stamp being processed.
-/

namespace RADclock

open Lib Lib.Exec

variable {D : Type}

/-- The RTTs of a series of stamps. -/
def rttOf (F : Nat → BidirStamp D) (k : Nat) : VCounter := (F k).RTT

/-- The differences between stamps `0, …, n` are acceptable, of the counter readings at
reception and of those at departure. -/
structure DiffOk (P : Event D → Prop) (F : Nat → BidirStamp D) (n : Nat) : Prop where
  Tf : ∀ j i, j ≤ i → i ≤ n → P (.diff (F i).Tf (F j).Tf)
  Ta : ∀ j i, j ≤ i → i ≤ n → P (.diff (F i).Ta (F j).Ta)

/-- A stamp recorded in the state: one of the first `n`, or zero bytes. -/
def Recorded [Zero D] (F : Nat → BidirStamp D) (n : Nat) (st : BidirStamp D) : Prop :=
  st = 0 ∨ ∃ k, k < n ∧ st = F k

variable [Arith D] {P : Event D → Prop} {H : Prop} {F : Nat → BidirStamp D} {n : Nat}

/-! ## phat -/

section Pairs

omit [Arith D]

theorem historyGet2_sat {α : Type} {f : Nat → α} {h : History α} {m : Nat} (hh : Holds f m h)
    {i j : Nat} (hi : i < m) (hj : j < m) (hoki : Ok P H h i) (hokj : Ok P H h j) :
    Sat P H (historyGet2 h i j) (fun p => p = (f i, f j)) := by
  refine Sat.bind (historyFind_points hh hi hoki) fun p hp => ?_
  refine Sat.bind (historyFind_points hh hj hokj) fun q hq => ?_
  refine Sat.bind hp.deref_sat fun a ha => Sat.bind hq.deref_sat fun b hb => ?_
  subst ha hb
  exact Sat.pure rfl

end Pairs

/-- A period is computed from two differences. -/
theorem computePhat_sat {far near : BidirStamp D} (hTa : P (.diff near.Ta far.Ta))
    (hTf : P (.diff near.Tf far.Tf)) : Sat P H (computePhat far near) (fun _ => True) := by
  refine Sat.bind (Q := fun _ => True) (counterDiff_sat hTa True.intro) fun _ _ => ?_
  refine Sat.bind (Q := fun _ => True) (counterDiff_sat hTf True.intro) fun _ _ => ?_
  exact Sat.ite (fun _ => Sat.pure True.intro) fun _ => Sat.pure True.intro

/-- Where the warmup end windows stand after `n` stamps. -/
structure WarmEnds (F : Nat → BidirStamp D) (n : Nat) (e : Ends) : Prop where
  width : e.wwidth = 1 + (n - 1) / 4
  far : MinAt ltVC (rttOf F) 0 (e.wwidth - 1) e.farI
  near : MinAt ltVC (rttOf F) (n - e.wwidth) (n - 1) e.nearI

omit [Arith D] in
/-- The windows do not overlap, from the second stamp on. -/
theorem WarmEnds.far_lt_near {e : Ends} (h : WarmEnds F n e) (hn : 2 ≤ n) :
    e.farI < e.nearI := by
  have h1 := h.width
  have h2 := h.far.right
  have h3 := h.near.left
  omega

omit [Arith D] in
theorem warmupEnds_sat {s : AlgoState D} (hn : 0 < n) (hsi : s.si = n)
    (hR : Holds (rttOf F) (n + 1) s.hist.RTT) (he : WarmEnds F n s.ends)
    (hok : OkFrom P H s.hist.RTT 0 (n + 1)) :
    Sat P H (warmupEnds (rttOf F n) s) (WarmEnds F (n + 1)) := by
  have hw := he.width
  have hnear := he.near.left
  have hnear' := he.near.right
  have hfar := he.far.right
  unfold warmupEnds
  rw [hsi]
  refine Sat.ite (fun hmod => ?_) fun hmod => ?_
  · -- slide the near window by one
    change n % 4 ≠ 0 at hmod
    rw [wsub_of_le (show s.ends.wwidth ≤ n by omega), wsub_of_le (show 1 ≤ n by omega)]
    refine Sat.bind (minSlide_sat hR hnear (by omega) (by omega) (by omega)
      (hok.mono (Nat.zero_le _) (Nat.le_refl _))) fun r hr => ?_
    have hmin := hr.isMin he.near
    refine Sat.pure ⟨?_, he.far, ?_⟩
    · show s.ends.wwidth = _
      omega
    rw [show n + 1 - s.ends.wwidth = n - s.ends.wwidth + 1 by omega,
      show n + 1 - 1 = n - 1 + 1 by omega]
    exact hmin
  · -- widen both windows by one
    change ¬ n % 4 ≠ 0 at hmod
    refine Sat.bind (historyFind_points hR (by omega) (hok _ (Nat.zero_le _) (by omega)))
      fun p hp => ?_
    refine Sat.bind (historyFind_points hR (by omega) (hok _ (Nat.zero_le _) (by omega)))
      fun q hq => ?_
    refine Sat.bind (historyFind_points hR (by omega) (hok _ (Nat.zero_le _) (by omega)))
      fun r hr => ?_
    refine Sat.bind hp.deref_sat fun t ht => Sat.bind hr.deref_sat fun f hf =>
      Sat.bind hq.deref_sat fun m hm => ?_
    subst ht hf hm
    refine Sat.pure ⟨?_, ?_, ?_⟩
    · show s.ends.wwidth + 1 = _
      omega
    · show MinAt ltVC (rttOf F) 0 (s.ends.wwidth + 1 - 1)
        (if rttOf F s.ends.wwidth < rttOf F s.ends.farI then s.ends.wwidth else s.ends.farI)
      have hfarmin := he.far
      generalize hw1 : s.ends.wwidth - 1 = w1 at hfarmin
      have hw2 : s.ends.wwidth = w1 + 1 := by omega
      rw [hw2, Nat.add_sub_cancel]
      split
      · next hlt => exact hfarmin.snoc_lt (decide_eq_true hlt)
      · next hge => exact hfarmin.snoc_ge (decide_eq_false hge)
    · show MinAt ltVC (rttOf F) (n + 1 - (s.ends.wwidth + 1)) (n + 1 - 1)
        (if rttOf F n < rttOf F s.ends.nearI then n else s.ends.nearI)
      have hnearmin := he.near
      obtain ⟨m, rfl⟩ : ∃ m, n = m + 1 := ⟨n - 1, by omega⟩
      rw [Nat.add_sub_cancel] at hnearmin
      rw [Nat.add_sub_add_right, Nat.add_sub_cancel]
      split
      · next hlt => exact hnearmin.snoc_lt (decide_eq_true hlt)
      · next hge => exact hnearmin.snoc_ge (decide_eq_false hge)

theorem processPhatWarmup_sat {s : AlgoState D} (hn : 0 < n) (hsi : s.si = n)
    (hS : Holds F (n + 1) s.hist.stamp) (hR : Holds (rttOf F) (n + 1) s.hist.RTT)
    (he : WarmEnds F n s.ends) (hokS : OkFrom P H s.hist.stamp 0 (n + 1))
    (hokR : OkFrom P H s.hist.RTT 0 (n + 1)) (hd : DiffOk P F n) :
    Sat P H (processPhatWarmup (rttOf F n) s) (fun s' => WarmEnds F (n + 1) s'.ends) := by
  refine Sat.bind (warmupEnds_sat hn hsi hR he hokR) fun e he' => ?_
  have hlt := he'.far_lt_near (by omega)
  have hnear : e.nearI ≤ n := he'.near.right
  refine Sat.bind (historyGet2_sat hS (by omega) (by omega) (hokS _ (Nat.zero_le _) (by omega))
    (hokS _ (Nat.zero_le _) (by omega))) fun st hst => ?_
  subst hst
  refine Sat.bind (computePhat_sat (hd.Ta _ _ (Nat.le_of_lt hlt) hnear)
    (hd.Tf _ _ (Nat.le_of_lt hlt) hnear)) fun phat _ => ?_
  refine Sat.ite (fun _ => Sat.pure he') fun _ => ?_
  refine Sat.ite (fun _ => ?_) fun _ => Sat.pure he'
  refine Sat.bind (historyGet2_sat hR (by omega) (by omega) (hokR _ (Nat.zero_le _) (by omega))
    (hokR _ (Nat.zero_le _) (by omega))) fun r _ => ?_
  exact Sat.pure he'

/-! ## The offset window -/

section Theta

variable {mp : Metaparam D} {s : AlgoState D} {jmin : Nat}

omit [Arith D] in
theorem rttAndStamp_sat {j : Nat} (hj : j ≤ n) (hS : Holds F (n + 1) s.hist.stamp)
    (hR : Holds (rttOf F) (n + 1) s.hist.RTT) (hokS : Ok P H s.hist.stamp j)
    (hokR : Ok P H s.hist.RTT j) :
    Sat P H (rttAndStamp s j) (fun p => p = (rttOf F j, F j)) := by
  refine Sat.bind (historyFind_points hR (by omega) hokR) fun p hp => ?_
  refine Sat.bind (historyFind_points hS (by omega) hokS) fun q hq => ?_
  refine Sat.bind hp.deref_sat fun a ha => Sat.bind hq.deref_sat fun b hb => ?_
  subst ha hb
  exact Sat.pure rfl

/-- The best packet after packet `j` is `j` or the best before. -/
theorem ThetaAcc.add_jbest (s : AlgoState D) (j : Nat) (ET th : D) (a : ThetaAcc D) :
    (a.add s j ET th).jbest = j ∨ (a.add s j ET th).jbest = a.jbest ∧ j ≠ s.si := by
  show (if j = s.si ∨ ET < a.minET then j else a.jbest) = j ∨ _
  by_cases hb : j = s.si ∨ ET < a.minET
  · exact Or.inl (if_pos hb)
  · exact Or.inr ⟨if_neg hb, fun h => hb (Or.inl h)⟩

/-- The best packet of a window loop lies in the window, once the loop has started. -/
def BestIn (jmin n : Nat) (a : ThetaAcc D) : Prop := jmin ≤ n → jmin ≤ a.jbest ∧ a.jbest ≤ n

theorem bestIn_add {j : Nat} {a : ThetaAcc D} (hsi : s.si = n) (hj : j + 1 ≤ n)
    (hmin : ¬ j + 1 < jmin) (ha : j + 1 < n → BestIn jmin n a) (ET th : D) :
    BestIn jmin n (a.add s (j + 1) ET th) := by
  intro hjn
  rcases ThetaAcc.add_jbest s (j + 1) ET th a with h | ⟨h, hne⟩
  · omega
  · have := ha (by omega) hjn
    omega

theorem warmupLoop_sat (hsi : s.si = n) (hn : 0 < n) (hS : Holds F (n + 1) s.hist.stamp)
    (hR : Holds (rttOf F) (n + 1) s.hist.RTT) (hokS : OkFrom P H s.hist.stamp jmin (n + 1))
    (hokR : OkFrom P H s.hist.RTT jmin (n + 1))
    (hokT : OkFrom P H s.hist.thnaive jmin (n + 1)) (hd : DiffOk P F n) :
    ∀ (j : Nat) (a : ThetaAcc D), j ≤ n → (j < n → BestIn jmin n a) →
      Sat P H (warmupLoop mp s (F n) jmin j a) (BestIn jmin n) := by
  intro j
  induction j with
  | zero => exact fun a _ ha => Sat.pure (ha hn)
  | succ j ih =>
    intro a hj ha
    refine Sat.ite (fun hmin => Sat.pure fun hjn => ?_) fun hmin => ?_
    · exact ha (by omega) hjn
    have hlo : jmin ≤ j + 1 := Nat.not_lt.mp hmin
    have hhi : j + 1 < n + 1 := Nat.lt_succ_of_le hj
    refine Sat.bind (rttAndStamp_sat hj hS hR (hokS _ hlo hhi) (hokR _ hlo hhi)) fun p hp => ?_
    subst hp
    refine Sat.bind (Q := fun _ => True) (counterDiff_sat (hd.Tf _ _ hj (Nat.le_refl n)) True.intro)
      fun d _ => ?_
    refine Sat.bind (historyGet_ok (hokT _ hlo hhi)) fun th _ => ?_
    exact ih _ (by omega) fun _ => bestIn_add hsi hj hmin ha _ _

theorem secondLoop_sat {point : Bool} {jbest : Nat} (hS : Holds F (n + 1) s.hist.stamp)
    (hR : Holds (rttOf F) (n + 1) s.hist.RTT) (hokS : OkFrom P H s.hist.stamp jmin (n + 1))
    (hokR : OkFrom P H s.hist.RTT jmin (n + 1)) (hd : DiffOk P F n)
    (hpt : point = true → ∀ k, jmin ≤ k → k ≤ n → P (.pointErr (rttOf F k) s.rtt.RTThat)) :
    ∀ (j : Nat) (e : D), j ≤ n →
      Sat P H (secondLoop point mp s (F n) jbest jmin j e) (fun _ => True) := by
  intro j
  induction j with
  | zero => exact fun e _ => Sat.pure True.intro
  | succ j ih =>
    intro e hj
    refine Sat.ite (fun _ => Sat.pure True.intro) fun hmin => ?_
    refine Sat.ite (fun _ => ih e (by omega)) fun _ => ?_
    have hlo : jmin ≤ j + 1 := Nat.not_lt.mp hmin
    have hhi : j + 1 < n + 1 := Nat.lt_succ_of_le hj
    refine Sat.bind (rttAndStamp_sat hj hS hR (hokS _ hlo hhi) (hokR _ hlo hhi)) fun p hp => ?_
    subst hp
    refine Sat.bind (Q := fun _ => True) (Sat.ite (fun hp => ?_) fun _ => Sat.pure True.intro)
      fun _ _ => ?_
    · exact Sat.emit (hpt hp _ hlo hj) True.intro
    refine Sat.bind (Q := fun _ => True) (counterDiff_sat (hd.Tf _ _ hj (Nat.le_refl n)) True.intro)
      fun d _ => ?_
    exact ih _ (by omega)

theorem windowGap_sat {j : Nat} {g : D} (hsi : s.si = n) (hn : 0 < n)
    (hS : Holds F (n + 1) s.hist.stamp) (hok : OkFrom P H s.hist.stamp j (n + 1))
    (hd : DiffOk P F n) : Sat P H (windowGap s j g) (fun _ => True) := by
  refine Sat.ite (fun hlt => ?_) fun _ => Sat.pure True.intro
  have hjn : j + 1 ≤ n := by
    rw [hsi, wsub_of_le hn] at hlt
    omega
  refine Sat.bind (historyGet2_sat hS (by omega) (by omega) (hok _ (Nat.le_refl j) (by omega))
    (hok (j + 1) (by omega) (by omega))) fun p hp => ?_
  subst hp
  refine Sat.bind (Q := fun _ => True)
    (counterDiff_sat (hd.Tf _ _ (Nat.le_succ j) hjn) True.intro) fun d _ => ?_
  exact Sat.pure True.intro

variable {hats : Nat → VCounter}

omit [Arith D] in
theorem fullPoint_sat {j : Nat} (hj : j ≤ n) (hS : Holds F (n + 1) s.hist.stamp)
    (hR : Holds (rttOf F) (n + 1) s.hist.RTT) (hH : Holds hats (n + 1) s.hist.RTThat)
    (hokS : Ok P H s.hist.stamp j) (hokR : Ok P H s.hist.RTT j) (hokH : Ok P H s.hist.RTThat j) :
    Sat P H (fullPoint s j) (fun p => p = (rttOf F j, hats j, F j)) := by
  refine Sat.bind (historyFind_points hR (by omega) hokR) fun p hp => ?_
  refine Sat.bind (historyFind_points hH (by omega) hokH) fun q hq => ?_
  refine Sat.bind (historyFind_points hS (by omega) hokS) fun r hr => ?_
  refine Sat.bind hp.deref_sat fun a ha => Sat.bind hq.deref_sat fun b hb =>
    Sat.bind hr.deref_sat fun c hc => ?_
  subst ha hb hc
  exact Sat.pure rfl

theorem fullLoop_sat (hsi : s.si = n) (hn : 0 < n) (hS : Holds F (n + 1) s.hist.stamp)
    (hR : Holds (rttOf F) (n + 1) s.hist.RTT) (hH : Holds hats (n + 1) s.hist.RTThat)
    (hokS : OkFrom P H s.hist.stamp jmin (n + 1)) (hokR : OkFrom P H s.hist.RTT jmin (n + 1))
    (hokH : OkFrom P H s.hist.RTThat jmin (n + 1))
    (hokT : OkFrom P H s.hist.thnaive jmin (n + 1)) (hd : DiffOk P F n)
    (hpt : ∀ k, jmin ≤ k → k ≤ n → P (.pointErr (rttOf F k) (hats k))) :
    ∀ (j : Nat) (a : ThetaAcc D), j ≤ n → (j < n → BestIn jmin n a) →
      Sat P H (fullLoop mp s (F n) jmin j a) (BestIn jmin n) := by
  intro j
  induction j with
  | zero => exact fun a _ ha => Sat.pure (ha hn)
  | succ j ih =>
    intro a hj ha
    refine Sat.ite (fun hmin => Sat.pure fun hjn => ?_) fun hmin => ?_
    · exact ha (by omega) hjn
    have hlo : jmin ≤ j + 1 := Nat.not_lt.mp hmin
    have hhi : j + 1 < n + 1 := Nat.lt_succ_of_le hj
    refine Sat.bind (windowGap_sat hsi hn hS (hokS.mono hlo (Nat.le_refl _)) hd) fun g _ => ?_
    refine Sat.bind (fullPoint_sat hj hS hR hH (hokS _ hlo hhi) (hokR _ hlo hhi)
      (hokH _ hlo hhi)) fun p hp => ?_
    subst hp
    refine Sat.bind (Q := fun _ => True) (Sat.emit (hpt _ hlo hj) True.intro) fun _ _ => ?_
    refine Sat.bind (Q := fun _ => True) (counterDiff_sat (hd.Tf _ _ hj (Nat.le_refl n)) True.intro)
      fun d _ => ?_
    refine Sat.bind (historyGet_ok (hokT _ hlo hhi)) fun th _ => ?_
    refine ih _ (by omega) fun _ => ?_
    exact bestIn_add (a := { a with gapsize := g }) hsi hj hmin ha _ _

/-- The naive offset history, once the current stamp has been added. -/
def thnaiveNext (F : Nat → BidirStamp D) (n : Nat) (s : AlgoState D) : History D :=
  historyAdd s.hist.thnaive s.si (naiveTheta s (F n))

theorem processThetahatWarmup_sat (hsi : s.si = n) (hn : 0 < n)
    (hj : warmupJmin (recordTheta (naiveTheta s (F n)) s) = jmin)
    (hS : Holds F (n + 1) s.hist.stamp) (hR : Holds (rttOf F) (n + 1) s.hist.RTT)
    (hokS : OkFrom P H s.hist.stamp jmin (n + 1)) (hokR : OkFrom P H s.hist.RTT jmin (n + 1))
    (hokT : OkFrom P H (thnaiveNext F n s) jmin (n + 1))
    (hempty : n < jmin → ∀ k, Ok P H s.hist.stamp k) (hd : DiffOk P F n)
    (hlast : P (.diff (F n).Tf s.stamp.Tf)) :
    Sat P H (processThetahatWarmup mp (F n) s) (fun _ => True) := by
  subst hj
  refine Sat.bind (warmupLoop_sat (s := stepTransition (recordTheta _ s)) hsi hn hS hR hokS hokR
    hokT hd _ _ (Nat.le_of_eq hsi) fun h => absurd hsi (Nat.ne_of_lt h)) fun a ha => ?_
  refine Sat.bind (secondLoop_sat (s := stepTransition (recordTheta _ s)) hS hR hokS hokR hd
    (fun h => absurd h Bool.false_ne_true) _ _ (Nat.le_of_eq hsi)) fun e _ => ?_
  refine Sat.bind (Q := fun _ => True) (counterDiff_sat hlast True.intro) fun d _ => ?_
  obtain ⟨off, err, stt, heq, _⟩ := judgeWarmup_frame (F n) a e
    ((stepTransition (recordTheta (naiveTheta s (F n)) s)).osc.phat * vcD d)
    (stepTransition (recordTheta (naiveTheta s (F n)) s))
  dsimp only
  rw [heq]
  refine Sat.bind (historyGet_ok ?_) fun best _ => Sat.pure True.intro
  show Ok P H s.hist.stamp a.jbest
  rcases Nat.lt_or_ge n (warmupJmin (recordTheta (naiveTheta s (F n)) s)) with hlt | hge
  · exact hempty hlt _
  · exact hokS _ (ha hge).1 (Nat.lt_succ_of_le (ha hge).2)

theorem processThetahatFull_sat {q : Bool} {E : D} (hsi : s.si = n) (hn : 0 < n)
    (hj : fullJmin (recordTheta (naiveTheta s (F n)) s) = jmin)
    (hS : Holds F (n + 1) s.hist.stamp) (hR : Holds (rttOf F) (n + 1) s.hist.RTT)
    (hH : Holds hats (n + 1) s.hist.RTThat) (hokS : OkFrom P H s.hist.stamp jmin (n + 1))
    (hokR : OkFrom P H s.hist.RTT jmin (n + 1)) (hokH : OkFrom P H s.hist.RTThat jmin (n + 1))
    (hokT : OkFrom P H (thnaiveNext F n s) jmin (n + 1))
    (hempty : n < jmin → ∀ k, Ok P H s.hist.stamp k) (hd : DiffOk P F n)
    (hlast : P (.diff (F n).Tf s.stamp.Tf)) (hth : P (.diff (F n).Tf s.off.thetastamp.Tf))
    (hpt : ∀ k, jmin ≤ k → k ≤ n → P (.pointErr (rttOf F k) (hats k)))
    (hpt' : ∀ k, jmin ≤ k → k ≤ n → P (.pointErr (rttOf F k) s.rtt.RTThat)) :
    Sat P H (processThetahatFull mp (F n) q E s) (fun _ => True) := by
  subst hj
  refine Sat.bind (Q := fun _ => True) (counterDiff_sat hlast True.intro) fun d0 _ => ?_
  -- the two passes over the offset window stay on or after fullJmin
  refine Sat.bind (fullLoop_sat (s := stepTransition (recordTheta _ s)) hsi hn hS hR hH hokS hokR
    hokH hokT hd hpt _ _ (Nat.le_of_eq hsi) fun h => absurd hsi (Nat.ne_of_lt h)) fun a ha => ?_
  refine Sat.bind (secondLoop_sat (s := stepTransition (recordTheta _ s)) hS hR hokS hokR hd
    (fun _ => hpt') _ _ (Nat.le_of_eq hsi)) fun e _ => ?_
  dsimp only
  obtain ⟨m, stt, hqual⟩ := judgeQuality_frame a
    (stepTransition (recordTheta (naiveTheta s (F n)) s))
  rw [hqual]
  refine Sat.bind (Q := fun _ => True) (counterDiff_sat hth True.intro) fun d _ => ?_
  obtain ⟨off, err, stt', hsan, _⟩ := judgeSanity_frame (F n) a
    (candidateTheta a (stepTransition (recordTheta (naiveTheta s (F n)) s))) e
    (Arith.cmax a.gapsize
      ((stepTransition (recordTheta (naiveTheta s (F n)) s)).osc.phat * vcD d)) q
    { stepTransition (recordTheta (naiveTheta s (F n)) s) with
      off := { (stepTransition (recordTheta (naiveTheta s (F n)) s)).off with
        offsetQualityCount := m }
      status := stt }
  rw [hsan]
  refine Sat.bind (historyGet_ok ?_) fun best _ => Sat.pure True.intro
  show Ok P H s.hist.stamp a.jbest
  -- the best packet is looked up: an empty window is excluded by the hypothesis
  rcases Nat.lt_or_ge n (fullJmin (recordTheta (naiveTheta s (F n)) s)) with hlt | hge
  · exact hempty hlt _
  · exact hokS _ (ha hge).1 (Nat.lt_succ_of_le (ha hge).2)

end Theta

/-! ## The local period -/

/-- How far back the full plocal algorithm looks. -/
def plocalReach (plocalWin : Nat) : Nat :=
  plocalWin + fullWwidth plocalWin + fullWwidth plocalWin / 2

/-- Where the end windows stand after `n` stamps. The far packet may lie right of its
window for a while after a reset, never left of it. -/
structure FullEnds (n plocalWin : Nat) (e : Ends) : Prop where
  width : e.wwidth = fullWwidth plocalWin
  farLeft : n ≤ e.farI + plocalReach plocalWin
  farRight : e.farI + plocalWin + e.wwidth / 2 + 1 ≤ n + e.wwidth
  nearLeft : n ≤ e.nearI + e.wwidth
  nearRight : e.nearI < n

theorem four_le_fullWwidth (pw : Nat) : 4 ≤ fullWwidth pw := Nat.le_max_left _ _

/-- The end windows are a small part of the local period window. -/
theorem fullWwidth_le {pw : Nat} (hpw : 10 ≤ pw) :
    2 * fullWwidth pw ≤ pw + fullWwidth pw / 2 := by
  unfold fullWwidth plocalWinratio
  omega

theorem FullEnds.far_lt_near {pw : Nat} {e : Ends} (h : FullEnds n pw e) (hpw : 10 ≤ pw) :
    e.farI < e.nearI := by
  have h1 := h.width
  have h2 := h.farRight
  have h3 := h.nearLeft
  have h4 := fullWwidth_le hpw
  have h5 := four_le_fullWwidth pw
  omega

section Plocal

variable {s : AlgoState D} {q : Bool}

omit [Arith D] in
theorem resetPlocal_sat (hsi : s.si = n) (hpw : 10 ≤ s.win.plocalWin)
    (hspan : plocalReach s.win.plocalWin ≤ n) (hR : Holds (rttOf F) (n + 1) s.hist.RTT)
    (hok : OkFrom P H s.hist.RTT (n - plocalReach s.win.plocalWin) (n + 1)) :
    Sat P H (resetPlocal s) (fun s' => FullEnds (n + 1) s.win.plocalWin s'.ends) := by
  have hw := four_le_fullWwidth s.win.plocalWin
  have hw' := fullWwidth_le hpw
  unfold plocalReach at hspan hok
  unfold resetPlocal
  dsimp only
  rw [hsi, wsub_of_le (by omega), wsub_of_le (by omega), wsub_of_le (by omega)]
  refine Sat.bind (minScan_sat hR (by omega) (by omega) (hok.mono (by omega) (Nat.le_refl _)))
    fun far hfar => ?_
  refine Sat.bind (minScan_sat hR (by omega) (by omega) (hok.mono (by omega) (Nat.le_refl _)))
    fun near hnear => Sat.pure ?_
  -- the scans return points of their own windows
  have h1 := hfar.left
  have h2 := hfar.right
  have h3 := hnear.left
  have h4 := hnear.right
  refine ⟨rfl, ?_, ?_, ?_, ?_⟩
  · show n + 1 ≤ far + plocalReach _
    unfold plocalReach
    omega
  · show far + s.win.plocalWin + fullWwidth s.win.plocalWin / 2 + 1 ≤
      n + 1 + fullWwidth s.win.plocalWin
    omega
  · show n + 1 ≤ near + fullWwidth s.win.plocalWin
    omega
  · show near < n + 1
    omega

/-- Sliding the end windows, from where they stood before this stamp or from a reset at
this stamp. -/
theorem slidePlocal_sat (hsi : s.si = n) (hpw : 10 ≤ s.win.plocalWin)
    (hspan : plocalReach s.win.plocalWin ≤ n)
    (he : FullEnds n s.win.plocalWin s.ends ∨ FullEnds (n + 1) s.win.plocalWin s.ends)
    (hS : Holds F (n + 1) s.hist.stamp) (hR : Holds (rttOf F) (n + 1) s.hist.RTT)
    (hokS : OkFrom P H s.hist.stamp (n - plocalReach s.win.plocalWin) (n + 1))
    (hokR : OkFrom P H s.hist.RTT (n - plocalReach s.win.plocalWin) (n + 1))
    (hd : DiffOk P F n) :
    Sat P H (slidePlocal q s) (fun s' => FullEnds (n + 1) s.win.plocalWin s'.ends) := by
  have hw := four_le_fullWwidth s.win.plocalWin
  have hw' := fullWwidth_le hpw
  have hwidth : s.ends.wwidth = fullWwidth s.win.plocalWin := he.elim (·.width) (·.width)
  -- one call later, both ends are at most one step behind the new windows
  have hfl : n ≤ s.ends.farI + plocalReach s.win.plocalWin :=
    he.elim (·.farLeft) fun h => Nat.le_of_succ_le h.farLeft
  have hfr : s.ends.farI + s.win.plocalWin + s.ends.wwidth / 2 + 1 ≤ n + 1 + s.ends.wwidth :=
    he.elim (fun h => by have := h.farRight; omega) (·.farRight)
  have hnl : n ≤ s.ends.nearI + s.ends.wwidth :=
    he.elim (·.nearLeft) fun h => Nat.le_of_succ_le h.nearLeft
  have hnr : s.ends.nearI < n + 1 := he.elim (fun h => Nat.lt_succ_of_lt h.nearRight) (·.nearRight)
  have hreach : plocalReach s.win.plocalWin =
      s.win.plocalWin + fullWwidth s.win.plocalWin + fullWwidth s.win.plocalWin / 2 := rfl
  unfold slidePlocal
  dsimp only
  rw [hsi, wsub_of_le (by omega), wsub_of_le (by omega), wsub_of_le (by omega),
    wsub_of_le (by omega)]
  refine Sat.bind (minSlide_sat hR (by omega) (by omega) (by omega) (by omega)
    (hokR.mono (by omega) (Nat.le_refl _))) fun far hfar => ?_
  refine Sat.bind (minSlide_sat hR (by omega) (by omega) (by omega) (by omega)
    (hokR.mono (by omega) (Nat.le_refl _))) fun near hnear => ?_
  have h1 := hfar.left
  have h2 := hfar.right
  have h3 := hnear.left
  have h4 := hnear.right
  -- the slides put both ends into the windows of this call
  have hends : FullEnds (n + 1) s.win.plocalWin ⟨s.ends.wwidth, near, far⟩ := by
    refine ⟨hwidth, ?_, ?_, ?_, ?_⟩
    · show n + 1 ≤ far + plocalReach _
      omega
    · show far + s.win.plocalWin + s.ends.wwidth / 2 + 1 ≤ n + 1 + s.ends.wwidth
      omega
    · show n + 1 ≤ near + s.ends.wwidth
      omega
    · show near < n + 1
      omega
  -- so the difference of the two counters is never zero
  have hlt : far < near := hends.far_lt_near hpw
  have hnear' : near ≤ n := Nat.le_of_lt_succ hends.nearRight
  have hfar' : n - plocalReach s.win.plocalWin ≤ far := by omega
  refine Sat.bind (historyGet2_sat hS (by omega) (by omega) (hokS near (by omega) (by omega))
    (hokS far hfar' (by omega))) fun st hst => ?_
  subst hst
  refine Sat.bind (computePhat_sat (hd.Ta _ _ (Nat.le_of_lt hlt) hnear')
    (hd.Tf _ _ (Nat.le_of_lt hlt) hnear')) fun plocal _ => ?_
  refine Sat.ite (fun _ => Sat.pure hends) fun _ => ?_
  refine Sat.bind (historyGet2_sat hR (by omega) (by omega) (hokR far hfar' (by omega))
    (hokR near (by omega) (by omega))) fun r _ => ?_
  refine Sat.ite (fun _ => Sat.pure hends) fun _ => ?_
  exact Sat.ite (fun _ => Sat.pure hends) fun _ => Sat.pure hends

/-- `process_plocal_full`: the end windows stand where they should whenever no problem is
recorded. -/
theorem processPlocalFull_sat (hsi : s.si = n) (hpw : 10 ≤ s.win.plocalWin)
    (hspan : plocalReach s.win.plocalWin ≤ n)
    (he : s.ploc.plocalProblem = false → FullEnds n s.win.plocalWin s.ends)
    (hS : Holds F (n + 1) s.hist.stamp) (hR : Holds (rttOf F) (n + 1) s.hist.RTT)
    (hokS : OkFrom P H s.hist.stamp (n - plocalReach s.win.plocalWin) (n + 1))
    (hokR : OkFrom P H s.hist.RTT (n - plocalReach s.win.plocalWin) (n + 1))
    (hd : DiffOk P F n) :
    Sat P H (processPlocalFull q s) (fun s' =>
      s'.ploc.plocalProblem = false → FullEnds (n + 1) s.win.plocalWin s'.ends) := by
  refine Sat.ite (fun _ => Sat.pure fun h => (nomatch h)) fun _ => ?_
  refine Sat.bind (Q := fun s1 => ((FullEnds n s.win.plocalWin s1.ends ∨
      FullEnds (n + 1) s.win.plocalWin s1.ends)) ∧ ∃ ends ploc,
      s1 = { setPlocalEnd s with ends := ends, ploc := ploc }) ?_ ?_
  · refine Sat.ite (fun _ => ?_) fun hprob => ?_
    · refine ((resetPlocal_sat (s := setPlocalEnd s) hsi hpw hspan hR hokR).and_returns
        (resetPlocal_frame _)).mono ?_
      rintro s1 ⟨h1, far, near, rfl⟩
      exact ⟨Or.inr h1, _, _, rfl⟩
    · exact Sat.pure ⟨Or.inl (he (Bool.eq_false_iff.mpr hprob)), _, _, rfl⟩
  · rintro s1 ⟨h1, ends, ploc, rfl⟩
    exact (slidePlocal_sat (s := { setPlocalEnd s with ends := ends, ploc := ploc })
      hsi hpw hspan h1 hS hR hokS hokR hd).mono fun s' h _ => h

end Plocal

/-! ## The full phat algorithm, the path penalty and the error bound -/

theorem updateNextPstamp_sat {st : BidirStamp D} {RTT : VCounter} {s : AlgoState D}
    (hpt : P (.pointErr RTT s.rtt.RTThat)) :
    Sat P H (updateNextPstamp st RTT s) (fun _ => True) := by
  refine Sat.ite (fun _ => Sat.ite (fun _ => ?_) fun _ => Sat.pure True.intro)
    fun _ => Sat.pure True.intro
  exact Sat.bind (Q := fun _ => True) (Sat.emit hpt True.intro) fun _ _ => Sat.pure True.intro

theorem processPhatFull_sat {st : BidirStamp D} {RTT : VCounter} {q : Bool} {s : AlgoState D}
    (hpt : P (.pointErr RTT s.rtt.RTThat)) (hTa : P (.diff st.Ta s.past.pstamp.Ta))
    (hTf : P (.diff st.Tf s.past.pstamp.Tf)) :
    Sat P H (processPhatFull st RTT q s) (fun _ => True) := by
  refine Sat.bind (Q := fun _ => True) (Sat.emit hpt True.intro) fun _ _ => ?_
  refine Sat.ite (fun _ => Sat.pure True.intro) fun _ => ?_
  refine Sat.ite (fun _ => Sat.pure True.intro) fun _ => ?_
  refine Sat.bind (computePhat_sat hTa hTf) fun phat _ => ?_
  exact Sat.ite (fun _ => Sat.pure True.intro) fun _ => Sat.pure True.intro

theorem updatePathpenaltyFull_sat {mp : Metaparam D} {st : BidirStamp D} {s : AlgoState D}
    (h : P (.diff st.Tf s.stamp.Tf)) :
    Sat P H (updatePathpenaltyFull mp st s) (fun _ => True) :=
  Sat.bind (Q := fun _ => True) (counterDiff_sat h True.intro) fun _ _ => Sat.pure True.intro

theorem updateErrors_sat {mp : Metaparam D} {st : BidirStamp D} {s : AlgoState D}
    (h : 0 < s.stampI → P (.diff st.Tf s.off.thetastamp.Tf)) :
    Sat P H (updateErrors mp st s) (fun _ => True) := by
  refine Sat.ite (fun hpos => ?_) fun _ => Sat.pure True.intro
  exact Sat.bind (Q := fun _ => True) (counterDiff_sat (h hpos) True.intro)
    fun _ _ => Sat.pure True.intro

end RADclock
