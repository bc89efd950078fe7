import RADclock.Sync.Availability

/-!
# The best packets of the end windows

`process_plocal_full` slides the far and the near window over the RTTs, and is to keep the index of
the first minimum of each. The slide of the far window is given the window `[B-w, B-1]`, where `B`
is the current stamp less `plocal_win + w/2`. But `reset_plocal` has searched `[B+1, B+w]`: the far
packet it finds lies right of the window that is slid, and stays there until the window has caught
up, `w` stamps later.

- `FirstAt`: the first index of a minimum.
- `Settling`: the end windows `k` calls after a reset.
- `EndsAfter`: the near packet is always right; when the far packet is.
-/

namespace RADclock

open Lib Lib.Exec

/-! ## First minima -/

/-- `k` is the first index of a minimum of `f` over `[j, i]`. -/
structure FirstAt (f : Nat → VCounter) (j i k : Nat) : Prop where
  left : j ≤ k
  right : k ≤ i
  before : ∀ m, j ≤ m → m < k → f k < f m
  after : ∀ m, k ≤ m → m ≤ i → f k ≤ f m

section FirstAt

variable {f : Nat → VCounter} {j i k : Nat}

theorem firstAt_self (f : Nat → VCounter) (j : Nat) : FirstAt f j j j where
  left := Nat.le_refl j
  right := Nat.le_refl j
  before m h1 h2 := absurd h2 (Nat.not_lt.mpr h1)
  after m h1 h2 := by
    rw [Nat.le_antisymm h2 h1]
    exact UInt64.le_refl _

theorem FirstAt.le (h : FirstAt f j i k) {m : Nat} (h1 : j ≤ m) (h2 : m ≤ i) : f k ≤ f m := by
  rcases Nat.lt_or_ge m k with hm | hm
  · exact UInt64.le_of_lt (h.before m h1 hm)
  · exact h.after m hm h2

theorem FirstAt.unique {k' : Nat} (h : FirstAt f j i k) (h' : FirstAt f j i k') : k = k' := by
  rcases Nat.lt_trichotomy k k' with hlt | heq | hlt
  · exact absurd (h'.before k h.left hlt) (UInt64.not_lt.mpr (h.le h'.left h'.right))
  · exact heq
  · exact absurd (h.before k' h'.left hlt) (UInt64.not_lt.mpr (h'.le h.left h.right))

/-- In a smaller window that it lies in. -/
theorem FirstAt.sub {j' i' : Nat} (h : FirstAt f j i k) (hj : j ≤ j') (hi : i' ≤ i) (h1 : j' ≤ k)
    (h2 : k ≤ i') : FirstAt f j' i' k where
  left := h1
  right := h2
  before m h3 h4 := h.before m (Nat.le_trans hj h3) h4
  after m h3 h4 := h.after m h3 (Nat.le_trans h4 hi)

/-- An item below the minimum is the first minimum of the longer window. -/
theorem FirstAt.snoc_lt (h : FirstAt f j i k) (hlt : f (i + 1) < f k) :
    FirstAt f j (i + 1) (i + 1) where
  left := Nat.le_succ_of_le (Nat.le_trans h.left h.right)
  right := Nat.le_refl _
  before m h1 h2 := UInt64.lt_of_lt_of_le hlt (h.le h1 (Nat.le_of_lt_succ h2))
  after m h1 h2 := by
    rw [Nat.le_antisymm h2 h1]
    exact UInt64.le_refl _

/-- An item not below it leaves it in place. -/
theorem FirstAt.snoc_ge (h : FirstAt f j i k) (hge : f k ≤ f (i + 1)) :
    FirstAt f j (i + 1) k where
  left := h.left
  right := Nat.le_succ_of_le h.right
  before := h.before
  after m h1 h2 := by
    rcases Nat.lt_or_eq_of_le h2 with hm | rfl
    · exact h.after m h1 (Nat.le_of_lt_succ hm)
    · exact hge

end FirstAt

/-! ## Scans and slides -/

section Scan

variable {D : Type} {P : Event D → Prop} {H : Prop} {f : Nat → VCounter} {n : Nat}
  {h : History VCounter}

theorem windowInv_firstAt (f : Nat → VCounter) : WindowInv ltVC f (FirstAt f) where
  self := firstAt_self f
  snoc_lt h hlt := h.snoc_lt (of_decide_eq_true hlt)
  snoc_ge h hge := h.snoc_ge (UInt64.not_lt.mp (of_decide_eq_false hge))

theorem minScan_first (hh : Holds f n h) {j i : Nat} (hji : j ≤ i) (hin : i < n)
    (hok : OkFrom P H h j n) : Sat P H (minScan ltVC h j i) (FirstAt f j i) :=
  minScan_rule hh (windowInv_firstAt f) hji hin hok

/-- What a slide of the window `[j, i]` makes of the index `c`, be it in the window or right of
it. -/
def SlidTo (f : Nat → VCounter) (j i c r : Nat) : Prop :=
  f (i + 1) < f c ∧ r = i + 1 ∨ f c ≤ f (i + 1) ∧ (c = j ∧ FirstAt f (j + 1) (i + 1) r ∨
    c ≠ j ∧ r = c)

theorem minSlide_slidTo (hh : Holds f n h) {c j i : Nat} (hjc : j ≤ c) (hcn : c < n)
    (hji : j < i) (hin : i + 1 < n) (hok : OkFrom P H h j n) :
    Sat P H (minSlide ltVC h c j i) (SlidTo f j i c) := by
  refine Sat.ite (fun hlt => absurd hlt (by omega)) fun _ => ?_
  refine Sat.ite (fun heq => absurd heq (by omega)) fun _ => ?_
  refine Sat.bind (historyFind_points hh hin (hok _ (by omega) hin)) fun new hnew => ?_
  refine Sat.bind (historyFind_points hh hcn (hok c hjc hcn)) fun cur hcur => ?_
  refine Sat.bind hnew.deref_sat fun nv hnv => ?_
  refine Sat.bind hcur.deref_sat fun cv hcv => ?_
  subst hnv hcv
  refine Sat.ite (fun hlt => Sat.pure (Or.inl ⟨of_decide_eq_true hlt, rfl⟩)) fun hge => ?_
  have hle : f c ≤ f (i + 1) := UInt64.not_lt.mp fun hlt => hge (decide_eq_true hlt)
  refine Sat.ite (fun heq => ?_) fun hne => Sat.pure (Or.inr ⟨hle, Or.inr ⟨Ne.symm hne, rfl⟩⟩)
  refine (minScan_first hh (by omega) hin (hok.mono (by omega) (Nat.le_refl n))).mono ?_
  exact fun r hr => Or.inr ⟨hle, Or.inl ⟨heq.symm, hr⟩⟩

/-- A slide keeps first minima. -/
theorem SlidTo.first {j i c r : Nat} (hs : SlidTo f j i c r) (hc : FirstAt f j i c) :
    FirstAt f (j + 1) (i + 1) r := by
  have hle := Nat.le_trans hc.left hc.right
  rcases hs with ⟨hlt, rfl⟩ | ⟨hge, ⟨-, hr⟩ | ⟨hne, rfl⟩⟩
  · exact (hc.snoc_lt hlt).sub (Nat.le_succ j) (Nat.le_refl _) (by omega) (Nat.le_refl _)
  · exact hr
  · have hleft := hc.left
    have hright := hc.right
    exact (hc.snoc_ge hge).sub (Nat.le_succ j) (Nat.le_refl _) (by omega) (by omega)

end Scan

/-! ## The far packet after a reset -/

section Far

variable {f : Nat → VCounter} {A a w k c r : Nat}

/-- The far packet after the call that resets: the first minimum of the window `[A+1, A+w]`, unless
the slide of the same call, if there is one (`a = A`), meets a lower RTT at `A`. -/
structure Chosen (f : Nat → VCounter) (A a w c : Nat) : Prop where
  start : a = A ∨ a = A + 1
  cases : a = A ∧ c = A ∧ (∀ j, A < j → j ≤ A + w → f A < f j) ∨
    FirstAt f (A + 1) (A + w) c ∧ (a = A → f c ≤ f A)

/-- The far packet `k` calls later: still that one, until the far window, which now is
`[A+k+1-w, A+k]`, has caught up. -/
def FarAt (f : Nat → VCounter) (A a w k c : Nat) : Prop :=
  k < w ∧ Chosen f A a w c ∨ w ≤ k ∧ FirstAt f (A + k + 1 - w) (A + k) c

/-- The far window has caught up, or the first minimum over it and the window of the reset is one
that the reset could choose. -/
def FarFits (f : Nat → VCounter) (A a w k : Nat) : Prop :=
  w ≤ k ∨ ∃ m, FirstAt f (A + k + 1 - w) (A + w) m ∧ a ≤ m ∧ m ≤ A + k ∧
    (m = A → ∀ j, A < j → j ≤ A + w → f A < f j)

theorem Chosen.le (h : Chosen f A a w c) {j : Nat} (h1 : A < j) (h2 : j ≤ A + w) : f c ≤ f j := by
  rcases h.cases with ⟨-, rfl, hlt⟩ | ⟨hc, -⟩
  · exact UInt64.le_of_lt (hlt j h1 h2)
  · exact hc.le h1 h2

/-- The far packet after one more slide. -/
theorem FarAt.slide (h : FarAt f A a w k c) (hroom : w ≤ A + k + 1)
    (hs : SlidTo f (A + k + 1 - w) (A + k) c r) : FarAt f A a w (k + 1) r := by
  rcases h with ⟨hlt, hc⟩ | ⟨hge, hc⟩
  · have hle : f c ≤ f (A + k + 1) := hc.le (by omega) (by omega)
    rcases hs with ⟨hnew, -⟩ | ⟨-, ⟨heq, hr⟩ | ⟨hne, rfl⟩⟩
    · exact absurd hnew (UInt64.not_lt.mpr hle)
    · -- the packet that leaves was the far packet: the window has caught up
      refine Or.inr ⟨?_, ?_⟩
      · rcases hc.cases with ⟨-, rfl, -⟩ | ⟨hc, -⟩
        · omega
        · have := hc.left
          omega
      · rw [show A + (k + 1) + 1 - w = A + k + 1 - w + 1 by omega]
        exact hr
    · rcases Nat.lt_or_ge (k + 1) w with hlt' | hge'
      · exact Or.inl ⟨hlt', hc⟩
      · refine Or.inr ⟨hge', ?_⟩
        rcases hc.cases with ⟨-, rfl, -⟩ | ⟨hc, -⟩
        · omega
        · rw [show A + (k + 1) + 1 - w = A + 1 by omega, show A + (k + 1) = A + w by omega]
          exact hc
  · refine Or.inr ⟨by omega, ?_⟩
    rw [show A + (k + 1) + 1 - w = A + k + 1 - w + 1 by omega]
    exact hs.first hc

/-- When the far packet is the first minimum of its window. -/
theorem FarAt.first_iff (h : FarAt f A a w k c) (hroom : w ≤ A + k + 1) :
    FirstAt f (A + k + 1 - w) (A + k) c ↔ FarFits f A a w k := by
  rcases h with ⟨hlt, hc⟩ | ⟨hge, hc⟩
  · constructor
    · intro hfirst
      refine Or.inr ⟨c, ⟨hfirst.left, ?_, hfirst.before, fun m h1 h2 => ?_⟩, ?_, hfirst.right, ?_⟩
      · have := hfirst.right
        omega
      · rcases Nat.lt_or_ge A m with hm | hm
        · exact hc.le hm h2
        · exact hfirst.after m h1 (by omega)
      · rcases hc.cases with ⟨rfl, rfl, -⟩ | ⟨hc0, -⟩
        · exact Nat.le_refl _
        · have h1 := hc.start
          have h2 := hc0.left
          omega
      · intro hcA
        rcases hc.cases with ⟨-, -, hall⟩ | ⟨hc0, -⟩
        · exact hall
        · have := hc0.left
          omega
    · rintro (hge | ⟨m, hm, ham, hmk, hstrict⟩)
      · omega
      · have hcm : c = m := by
          rcases hc.cases with ⟨ha, rfl, hall⟩ | ⟨hc0, hA⟩
          · -- stamp `A` lies below the whole window of the reset
            rcases Nat.lt_or_eq_of_le ham with hlt' | heq
            · have h1 := hm.before a (by omega) hlt'
              have h2 := hall m (by omega) hm.right
              rw [ha] at h1
              exact absurd (UInt64.lt_trans h1 h2) (UInt64.lt_irrefl _)
            · omega
          · rcases Nat.lt_or_eq_of_le (show A ≤ m by have := hc.start; omega) with hlt' | heq
            · exact hc0.unique (hm.sub (by omega) (Nat.le_refl _) hlt' hm.right)
            · have h1 := hstrict heq.symm c hc0.left hc0.right
              have h2 := hA (by have := hc.start; omega)
              exact absurd (UInt64.lt_of_lt_of_le h1 h2) (UInt64.lt_irrefl _)
        rw [hcm]
        exact hm.sub (Nat.le_refl _) (by omega) hm.left hmk
  · exact ⟨fun _ => Or.inl hge, fun _ => hc⟩

/-- Where the far packet may lie. -/
theorem FarAt.range (h : FarAt f A a w k c) : A + k + 1 - w ≤ c ∧ c ≤ A + k + w := by
  rcases h with ⟨hlt, hc⟩ | ⟨hge, hc⟩
  · have hstart := hc.start
    rcases hc.cases with ⟨-, rfl, -⟩ | ⟨hc, -⟩
    · omega
    · have h1 := hc.left
      have h2 := hc.right
      omega
  · have h1 := hc.left
    have h2 := hc.right
    omega

end Far

/-! ## `process_plocal_full` -/

section Process

variable {D : Type} [Arith D] {F : Nat → BidirStamp D} {n r A a k : Nat} {s : AlgoState D}
  {mp : Metaparam D}

omit [Arith D] in
theorem okFrom_any {α : Type} (h : History α) (i n : Nat) :
    OkFrom (D := D) (fun _ => True) True h i n :=
  okFrom_lax (fun _ _ _ _ => True.intro) h i n

/-- What is within reach is available. -/
theorem Reaches.pastTest (h : Within F n r s)
    (hb : Reaches s (s.win.plocalWin + s.ends.wwidth + s.ends.wwidth / 2)) : PastTest s := by
  have hsi := h.si
  have hpw := h.win.ok.ten_le_plocal
  have hs := h.stamps.range
  have hr := h.rtts.range
  obtain ⟨hroom, hpoll, hstamp, hrtt⟩ := hb
  unfold PastTest availableEnd requiredEnd
  rw [historyOld_eq (by omega), historyOld_eq (by omega), wsub_of_le hroom]
  omega

theorem resetPlocal_first (h : Within F n r s)
    (hroom : s.win.plocalWin + fullWwidth s.win.plocalWin / 2 ≤ n + 1) :
    Returns (resetPlocal s) fun s' => ∃ far near,
      FirstAt (rttOf F) (n + 1 - (s.win.plocalWin + fullWwidth s.win.plocalWin / 2))
        (n + fullWwidth s.win.plocalWin - (s.win.plocalWin + fullWwidth s.win.plocalWin / 2)) far ∧
      FirstAt (rttOf F) (n + 1 - fullWwidth s.win.plocalWin) n near ∧ s' = { s with
        ends := ⟨fullWwidth s.win.plocalWin, near, far⟩
        ploc := { s.ploc with plocalProblem := false } } := by
  have hw := four_le_fullWwidth s.win.plocalWin
  have hw' := fullWwidth_le h.win.ok.ten_le_plocal
  unfold resetPlocal
  dsimp only
  rw [h.si, wsub_of_le hroom, wsub_of_le (by omega), wsub_of_le (by omega)]
  refine Returns.bind (minScan_first h.rtts (by omega) (by omega) (okFrom_any _ _ _)).returns
    fun far hfar => ?_
  refine Returns.bind (minScan_first h.rtts (by omega) (by omega) (okFrom_any _ _ _)).returns
    fun near hnear => ?_
  exact Returns.pure ⟨far, near, hfar, hnear, rfl⟩

/-- The end windows are settled by the slides. -/
theorem slidePlocal_ends {R T : Nat → Prop} {q : Bool}
    (hfar : Returns (historyMinSlide s.hist.RTT s.ends.farI
      (wsub s.si (s.ends.wwidth + s.win.plocalWin + s.ends.wwidth / 2))
      (wsub s.si (1 + s.win.plocalWin + s.ends.wwidth / 2)) : Algo D Nat) R)
    (hnear : Returns (historyMinSlide s.hist.RTT s.ends.nearI (wsub s.si s.ends.wwidth)
      (wsub s.si 1) : Algo D Nat) T) :
    Returns (slidePlocal q s) fun s' => R s'.ends.farI ∧ T s'.ends.nearI ∧
      s'.ends.wwidth = s.ends.wwidth ∧ s'.ploc.plocalProblem = s.ploc.plocalProblem := by
  refine Returns.bind hfar fun far hf => Returns.bind hnear fun near hn => ?_
  refine Returns.skip fun st => Returns.skip fun plocal => ?_
  refine Returns.ite (fun _ => Returns.pure ⟨hf, hn, rfl, rfl⟩) fun _ => ?_
  refine Returns.skip fun r => ?_
  refine Returns.ite (fun _ => Returns.pure ⟨hf, hn, rfl, rfl⟩) fun _ => ?_
  exact Returns.ite (fun _ => Returns.pure ⟨hf, hn, rfl, rfl⟩)
    fun _ => Returns.pure ⟨hf, hn, rfl, rfl⟩

/-- The end windows of a local period window `P`, `k` calls after the reset, with stamp `n`. -/
structure SettledEnds (F : Nat → BidirStamp D) (A a k n P : Nat) (e : Ends) : Prop where
  width : e.wwidth = fullWwidth P
  place : A + k + P + fullWwidth P / 2 = n
  near : FirstAt (rttOf F) (n + 1 - fullWwidth P) n e.nearI
  far : FarAt (rttOf F) A a (fullWwidth P) k e.farI

/-- One more slide of both windows. -/
theorem processPlocalFull_slides (h : Within F (n + 1) r s) (q : Bool)
    (hprob : s.ploc.plocalProblem = false) (he : SettledEnds F A a k n s.win.plocalWin s.ends)
    (hfit : FitsTest s) :
    Returns (processPlocalFull q s) fun s' => s'.ploc.plocalProblem = false ∧
      SettledEnds F A a (k + 1) (n + 1) s.win.plocalWin s'.ends := by
  have hwidth₀ : endWidth s = s.ends.wwidth := by
    rw [endWidth, if_neg (Bool.eq_false_iff.mp hprob)]
  -- the availability test is passed, so the algorithm is not skipped
  have hpast : PastTest s := (hwidth₀ ▸ hfit.reaches).pastTest h
  have hroom := hwidth₀ ▸ hfit.room
  have hsi := h.si
  obtain ⟨hwidth, hplace, hnear, hfar⟩ := he
  have hw := four_le_fullWwidth s.win.plocalWin
  have hw' := fullWwidth_le h.win.ok.ten_le_plocal
  have hrange := hfar.range
  have hleft := hnear.left
  have hright := hnear.right
  rw [hwidth] at hroom
  refine Returns.ite (fun hlt => absurd hpast (Nat.not_le.mpr hlt)) fun _ => ?_
  -- with no problem pending the width is kept
  refine Returns.bind (Q := fun s1 => s1 = setPlocalEnd s) ?_ ?_
  · refine Returns.ite (fun hp => ?_) fun _ => Returns.pure rfl
    change s.ploc.plocalProblem = true at hp
    rw [hprob] at hp
    cases hp
  rintro s1 rfl
  refine (slidePlocal_ends (R := SlidTo (rttOf F) (A + k + 1 - fullWwidth s.win.plocalWin) (A + k)
    s.ends.farI) (T := SlidTo (rttOf F) (n + 1 - fullWwidth s.win.plocalWin) n s.ends.nearI)
    ?_ ?_).mono ?_
  · show Returns (minSlide ltVC s.hist.RTT s.ends.farI (wsub s.si (s.ends.wwidth +
      s.win.plocalWin + s.ends.wwidth / 2)) (wsub s.si (1 + s.win.plocalWin +
      s.ends.wwidth / 2))) _
    rw [hsi, hwidth, wsub_of_le (by omega), wsub_of_le (by omega),
      show n + 1 - (fullWwidth s.win.plocalWin + s.win.plocalWin + fullWwidth s.win.plocalWin / 2) =
        A + k + 1 - fullWwidth s.win.plocalWin by omega,
      show n + 1 - (1 + s.win.plocalWin + fullWwidth s.win.plocalWin / 2) = A + k by omega]
    exact (minSlide_slidTo h.rtts hrange.1 (by omega) (by omega) (by omega)
      (okFrom_any _ _ _)).returns
  · show Returns (minSlide ltVC s.hist.RTT s.ends.nearI (wsub s.si s.ends.wwidth)
      (wsub s.si 1)) _
    rw [hsi, hwidth, wsub_of_le (by omega), wsub_of_le (by omega), Nat.add_sub_cancel]
    exact (minSlide_slidTo h.rtts hleft (by omega) (by omega) (by omega)
      (okFrom_any _ _ _)).returns
  · rintro s' ⟨hf, hn, hwidth', hprob'⟩
    refine ⟨hprob'.trans hprob, hwidth'.trans hwidth, by omega, ?_, hfar.slide (by omega) hf⟩
    -- a slide from a first minimum ends at one
    have hfirst := hn.first hnear
    rw [show n + 1 - fullWwidth s.win.plocalWin + 1 = n + 1 + 1 - fullWwidth s.win.plocalWin by
      omega] at hfirst
    exact hfirst

/-- The call that resets after a problem. -/
theorem processPlocalFull_resets (h : Within F n r s) (q : Bool)
    (hprob : s.ploc.plocalProblem = true) (hpast : PastTest s) (hfit : FitsTest s)
    (hA : A + s.win.plocalWin + fullWwidth s.win.plocalWin / 2 = n) :
    Returns (processPlocalFull q s) fun s' => s'.ploc.plocalProblem = false ∧
      SettledEnds F A A 0 n s.win.plocalWin s'.ends := by
  have hsi := h.si
  have hroom := hfit.room
  have hw := four_le_fullWwidth s.win.plocalWin
  have hw' := fullWwidth_le h.win.ok.ten_le_plocal
  rw [endWidth, if_pos hprob] at hroom
  have hreset : s.win.plocalWin + fullWwidth s.win.plocalWin / 2 ≤ n + 1 := by omega
  refine Returns.ite (fun hlt => absurd hpast (Nat.not_le.mpr hlt)) fun _ => ?_
  refine Returns.bind (Returns.ite (fun _ => resetPlocal_first (s := setPlocalEnd s)
    ⟨h.idx, h.stamps, h.rtts, h.win, h.hats⟩ hreset)
    fun hno => absurd hprob hno) ?_
  rintro s1 ⟨far, near, hfar, hnear, rfl⟩
  change FirstAt (rttOf F) (n + 1 - (s.win.plocalWin + fullWwidth s.win.plocalWin / 2))
    (n + fullWwidth s.win.plocalWin - (s.win.plocalWin + fullWwidth s.win.plocalWin / 2)) far
    at hfar
  change FirstAt (rttOf F) (n + 1 - fullWwidth s.win.plocalWin) n near at hnear
  rw [show n + 1 - (s.win.plocalWin + fullWwidth s.win.plocalWin / 2) = A + 1 by omega,
    show n + fullWwidth s.win.plocalWin - (s.win.plocalWin + fullWwidth s.win.plocalWin / 2) =
      A + fullWwidth s.win.plocalWin by omega] at hfar
  have hfl := hfar.left
  have hfr := hfar.right
  have hnl := hnear.left
  have hnr := hnear.right
  refine (slidePlocal_ends (R := SlidTo (rttOf F) (A - fullWwidth s.win.plocalWin) (A - 1) far)
    (T := SlidTo (rttOf F) (n - fullWwidth s.win.plocalWin) (n - 1) near) ?_ ?_).mono ?_
  · show Returns (minSlide ltVC s.hist.RTT far (wsub s.si (fullWwidth s.win.plocalWin +
      s.win.plocalWin + fullWwidth s.win.plocalWin / 2)) (wsub s.si (1 + s.win.plocalWin +
      fullWwidth s.win.plocalWin / 2))) _
    rw [hsi, wsub_of_le (by omega), wsub_of_le (by omega),
      show n - (fullWwidth s.win.plocalWin + s.win.plocalWin + fullWwidth s.win.plocalWin / 2) =
        A - fullWwidth s.win.plocalWin by omega,
      show n - (1 + s.win.plocalWin + fullWwidth s.win.plocalWin / 2) = A - 1 by omega]
    exact (minSlide_slidTo h.rtts (by omega) (by omega) (by omega) (by omega)
      (okFrom_any _ _ _)).returns
  · show Returns (minSlide ltVC s.hist.RTT near (wsub s.si (fullWwidth s.win.plocalWin))
      (wsub s.si 1)) _
    rw [hsi, wsub_of_le (by omega), wsub_of_le (by omega)]
    exact (minSlide_slidTo h.rtts (by omega) (by omega) (by omega) (by omega)
      (okFrom_any _ _ _)).returns
  · rintro s' ⟨hf, hn, hwidth', hprob'⟩
    refine ⟨hprob', hwidth', by omega, ?_, Or.inl ⟨by omega, Or.inl rfl, ?_⟩⟩
    · -- the near packet is the newest of its minima already
      unfold SlidTo at hn
      rw [show n - 1 + 1 = n by omega] at hn
      rcases hn with ⟨hlt, -⟩ | ⟨-, ⟨heq, -⟩ | ⟨-, heq⟩⟩
      · exact absurd hlt (UInt64.not_lt.mpr (hnear.after n hnr (Nat.le_refl n)))
      · omega
      · rw [heq]
        exact hnear
    · unfold SlidTo at hf
      rw [show A - 1 + 1 = A by omega] at hf
      rcases hf with ⟨hlt, heq⟩ | ⟨hge, ⟨heq, -⟩ | ⟨-, heq⟩⟩
      · exact Or.inl ⟨rfl, heq, fun j h1 h2 => UInt64.lt_of_lt_of_le hlt (hfar.le h1 h2)⟩
      · omega
      · rw [heq]
        exact Or.inr ⟨hfar, fun _ => hge⟩

/-- The reset at the end of warmup, which is not followed by a slide. -/
theorem initPlocalFull_resets (h : Within F n r s) (hpast : PastTest s)
    (hA : A + s.win.plocalWin + fullWwidth s.win.plocalWin / 2 = n) :
    Returns (initPlocalFull s) fun s' => s'.ploc.plocalProblem = false ∧
      SettledEnds F A (A + 1) 0 n s.win.plocalWin s'.ends := by
  have hw := four_le_fullWwidth s.win.plocalWin
  have hreset : s.win.plocalWin + fullWwidth s.win.plocalWin / 2 ≤ n + 1 := by omega
  refine Returns.bind (Returns.ite (fun _ => resetPlocal_first (s := setPlocalEnd s)
    ⟨h.idx, h.stamps, h.rtts, h.win, h.hats⟩ hreset)
    fun hno => absurd hpast hno) ?_
  rintro s1 ⟨far, near, hfar, hnear, rfl⟩
  change FirstAt (rttOf F) (n + 1 - (s.win.plocalWin + fullWwidth s.win.plocalWin / 2))
    (n + fullWwidth s.win.plocalWin - (s.win.plocalWin + fullWwidth s.win.plocalWin / 2)) far
    at hfar
  rw [show n + 1 - (s.win.plocalWin + fullWwidth s.win.plocalWin / 2) = A + 1 by omega,
    show n + fullWwidth s.win.plocalWin - (s.win.plocalWin + fullWwidth s.win.plocalWin / 2) =
      A + fullWwidth s.win.plocalWin by omega] at hfar
  refine Returns.pure ⟨rfl, rfl, by omega, hnear, Or.inl ⟨by omega, Or.inr rfl, Or.inr ⟨hfar, ?_⟩⟩⟩
  intro heq
  omega

end Process

/-! ## Calls -/

section Call

variable {D : Type} [Arith D] {F : Nat → BidirStamp D} {n A a k : Nat} {s : AlgoState D}
  {mp : Metaparam D}

/-- After `process_plocal_full` the end windows are left alone. -/
theorem fromPlocal_ends {Q : Ends → Bool → Prop} (inp : Input D)
    (h : Returns (processPlocalFull inp.qualWarning s) fun s' => Q s'.ends s'.ploc.plocalProblem) :
    Returns (fromPlocal mp inp s) fun s' => Q s'.ends s'.ploc.plocalProblem := by
  refine Returns.bind h fun s1 h1 => ?_
  refine Returns.bind (processThetahatFull_frame _ _ _ _ _) ?_
  rintro s2 ⟨t, off, bound, stt, out, rfl, -⟩
  refine (updatePathpenaltyFull_frame _ _ _).mono ?_
  rintro s3 ⟨pen, out, rfl⟩
  exact h1

/-- After a call with stamp `n`, `k` calls after the reset. -/
structure Settling (F : Nat → BidirStamp D) (A a k n : Nat) (s : AlgoState D) : Prop where
  running : Running F (n + 1) s
  full : s.win.warmupWin ≤ n + 1
  noProblem : s.ploc.plocalProblem = false
  ends : SettledEnds F A a k n s.win.plocalWin s.ends
  reaches : Reaches s (s.win.plocalWin + fullWwidth s.win.plocalWin +
    fullWwidth s.win.plocalWin / 2)

omit [Arith D] in
/-- What is left alone keeps within reach. -/
theorem Reaches.congr {s' : AlgoState D} {back : Nat} (h : Reaches s back) (hs : SameSeries s s') :
    Reaches s' back := by
  have hsi : s'.si = s.si := by
    unfold AlgoState.si
    rw [hs.idx]
  obtain ⟨hroom, hpoll, hstamp, hrtt⟩ := h
  refine ⟨hsi ▸ hroom, ?_, ?_, ?_⟩
  · rw [hs.pollChangedI, hsi]
    exact hpoll
  · rw [hs.stamp, hsi]
    exact hstamp
  · rw [hs.RTT, hsi]
    exact hrtt

/-- From `process_plocal_full` to the end of a call. -/
theorem fromPlocal_settling (h : Within F n (n + 1) s) (hundred : 100 ≤ s.win.warmupWin)
    (hfull : s.win.warmupWin ≤ n + 1) (inp : Input D) (st : BidirStamp D)
    (hends : Returns (processPlocalFull inp.qualWarning s) fun s' =>
      s'.ploc.plocalProblem = false ∧ SettledEnds F A a k n s.win.plocalWin s'.ends)
    (hreach : Reaches s (s.win.plocalWin + fullWwidth s.win.plocalWin +
      fullWwidth s.win.plocalWin / 2)) :
    Returns (fromPlocal mp inp s >>= endCall mp st) (Settling F A a k n) := by
  refine Returns.bind ((fromPlocal_series inp).and (fromPlocal_ends inp (Q := fun e p =>
    p = false ∧ SettledEnds F A a k n s.win.plocalWin e) hends)) ?_
  rintro s1 ⟨⟨hsame, -, -, -, -, hhats⟩, hprob, he⟩
  have hW : s1.win.warmupWin = s.win.warmupWin := hsame.warmupWin
  refine ((finish_running (h.congr hsame (hhats ▸ h.hats)) (by omega) (Or.inr ⟨rfl, by omega⟩)
    st).and (endCall_series st)).mono ?_
  rintro s2 ⟨hrun, hsame2, hends2, hploc2⟩
  have hall := hsame.trans hsame2
  have hpw : s2.win.plocalWin = s.win.plocalWin := hall.plocalWin
  refine ⟨hrun, ?_, ?_, ?_, ?_⟩
  · rw [hall.warmupWin]
    exact hfull
  · rw [hploc2]
    exact hprob
  · rw [hpw, hends2]
    exact he
  · rw [hpw]
    exact hreach.congr hall

/-- A call without update of the configuration slides the end windows. -/
theorem RADalgoBidir_settling (conf : Config D) (inp : Input D) (hinp : inp.stamp = F (n + 1))
    (hupd : conf.algoUpdate = false) (h : Settling F A a k n s) :
    Returns (RADalgoBidir conf inp s) (Settling F A a (k + 1) (n + 1)) := by
  have hidx := h.running.idx
  have hundred := h.running.hundred
  have hfull := h.full
  have hsi : s.si = n := si_of_idx (by omega)
  generalize hs0 : recordStamp inp.stamp { s with stampI := s.stampI + 1 } = s0
  have hsi0 : (AlgoState.si { s with stampI := s.stampI + 1 }) = n + 1 :=
    si_of_idx (by dsimp only; omega)
  -- no update at this call
  have hbegin : beginCall ⟨conf, inp⟩ s = pure s0 := by
    rw [beginCall_idle ⟨conf, inp⟩ hupd (by omega), hs0]
  have hwithin : Within F (n + 1) (n + 1) s0 := by
    have hstart := h.running.starting conf
    have hnext : nextStamp conf s = { s with stampI := s.stampI + 1 } :=
      nextStamp_later conf (by omega)
    rw [hnext] at hstart
    rw [← hs0, hinp]
    exact hstart.record (hstart.hats hfull)
  have hphases : phases conf inp s0 = fullPhase conf.metaparam inp s0 := by
    unfold phases
    rw [if_neg (by rw [hwithin.idx]; omega), if_neg]
    rw [hwithin.si, ← hs0]
    exact Nat.not_lt.mpr hfull
  rw [RADalgoBidir_eq ⟨conf, inp⟩, hbegin, pure_bind]
  show Returns (phases conf inp s0 >>= endCall conf.metaparam inp.stamp) _
  rw [hphases, fullPhase_eq, bind_assoc]
  refine Returns.bind (toPlocal_within hwithin inp) ?_
  rintro s1 ⟨hsame, h1, hends, hploc⟩
  have hpw : s1.win.plocalWin = s.win.plocalWin := by
    rw [hsame.plocalWin, ← hs0]
    rfl
  -- adding this stamp may drop the oldest one, which the room for two more allows
  have hreach : Reaches s1 (s.win.plocalWin + fullWwidth s.win.plocalWin +
      fullWwidth s.win.plocalWin / 2) := by
    refine Reaches.congr ?_ hsame
    obtain ⟨hroom, hpoll, hstamp, hrtt⟩ := h.reaches
    have h2 := historyAdd_oldest_le s.hist.stamp (n + 1) inp.stamp
    have h3 := historyAdd_oldest_le s.hist.RTT (n + 1) inp.stamp.RTT
    rw [hsi] at hroom hpoll hstamp hrtt
    have hsi' := hwithin.si
    refine ⟨by omega, ?_, ?_, ?_⟩
    · rw [hsi', ← hs0]
      show s.poll.pollChangedI + _ ≤ _
      omega
    · rw [hsi', ← hs0]
      show (historyAdd s.hist.stamp (AlgoState.si { s with stampI := s.stampI + 1 }) _).oldestI +
        _ ≤ _
      rw [hsi0]
      omega
    · rw [hsi', ← hs0]
      show (historyAdd s.hist.RTT (AlgoState.si { s with stampI := s.stampI + 1 }) _).oldestI +
        _ ≤ _
      rw [hsi0]
      omega
  -- nothing before plocal touches its ends
  have hprob : s1.ploc.plocalProblem = false := by
    rw [hploc, ← hs0]
    exact h.noProblem
  have hends1 : s1.ends = s.ends := hends.trans (hs0 ▸ rfl)
  have hwidth : endWidth s1 = fullWwidth s.win.plocalWin := by
    rw [endWidth, if_neg (Bool.eq_false_iff.mp hprob), hends1]
    exact h.ends.width
  have hroom := h.reaches.room
  rw [hsi] at hroom
  refine fromPlocal_settling h1 ?_ ?_ inp _ (processPlocalFull_slides h1 _ hprob ?_ ⟨?_, ?_⟩) ?_
  · rw [hsame.warmupWin, ← hs0]
    exact hundred
  · rw [hsame.warmupWin, ← hs0]
    exact Nat.le_succ_of_le hfull
  · rw [hpw, hends1]
    exact h.ends
  · rw [hwidth, hpw, h1.si]
    exact hroom
  · rw [hwidth, hpw]
    exact hreach
  · rw [hpw]
    exact hreach

end Call

/-! ## Runs -/

section Run

variable {D : Type} [Arith D] {F : Nat → BidirStamp D} {n A a k : Nat} {s : AlgoState D}
  {mp : Metaparam D}

/-- The near packet is the first minimum of the near window. -/
def NearFirst (F : Nat → BidirStamp D) (s : AlgoState D) : Prop :=
  FirstAt (rttOf F) (s.si + 1 - s.ends.wwidth) s.si s.ends.nearI

/-- The far packet is the first minimum of the far window. -/
def FarFirst (F : Nat → BidirStamp D) (s : AlgoState D) : Prop :=
  FirstAt (rttOf F) (s.si + 1 - (s.win.plocalWin + s.ends.wwidth + s.ends.wwidth / 2))
    (s.si - (s.win.plocalWin + s.ends.wwidth / 2)) s.ends.farI

/-- The end windows `k` calls after the reset. -/
theorem Settling.ends_iff (h : Settling F A a k n s) :
    NearFirst F s ∧ (FarFirst F s ↔ FarFits (rttOf F) A a (fullWwidth s.win.plocalWin) k) := by
  have hidx := h.running.idx
  have hsi : s.si = n := si_of_idx (by omega)
  have hroom := h.reaches.room
  obtain ⟨hwidth, hplace, hnear, hfar⟩ := h.ends
  unfold NearFirst FarFirst
  rw [hsi, hwidth]
  rw [hsi] at hroom
  refine ⟨hnear, ?_⟩
  rw [show n + 1 - (s.win.plocalWin + fullWwidth s.win.plocalWin + fullWwidth s.win.plocalWin / 2) =
      A + k + 1 - fullWwidth s.win.plocalWin by omega,
    show n - (s.win.plocalWin + fullWwidth s.win.plocalWin / 2) = A + k by omega]
  exact hfar.first_iff (by omega)

theorem runFrom_settling (cs : List (Call D)) (hupd : ∀ c ∈ cs, c.conf.algoUpdate = false)
    (hf : Follows F (n + 1) cs) (h : Settling F A a k n s) :
    Returns (runFrom cs s) (Settling F A a (k + cs.length) (n + cs.length)) := by
  have hm : RunMeets (fun c (_ : AlgoState D) => c.conf.algoUpdate = false) cs s :=
    RunMeets.of_forall (fun c hc _ => hupd c hc) s
  have hrun := runFrom_returns (F := F)
    (I := fun m s => ∃ j, n + 1 + j = m ∧ Settling F A a (k + j) (n + j) s)
    (fun m c s' hinp hI hc => ?_) cs (n + 1) s ⟨0, rfl, h⟩ hf hm
  · refine hrun.mono ?_
    rintro s' ⟨j, hj, hs'⟩
    obtain rfl : j = cs.length := by omega
    exact hs'
  · obtain ⟨j, rfl, hj⟩ := hI
    rw [show n + 1 + j = n + j + 1 by omega] at hinp
    exact (RADalgoBidir_settling c.conf c.inp hinp hc hj).mono fun s'' h'' => ⟨j + 1, by omega, h''⟩

/-- The reset at the end of warmup, to the end of the call. -/
theorem finishFull_settling (h : Within F n (n + 1) s) (hundred : 100 ≤ s.win.warmupWin)
    (hfull : s.win.warmupWin ≤ n + 1) (st st' : BidirStamp D) (hpast : PastTest s)
    (hA : A + s.win.plocalWin + fullWwidth s.win.plocalWin / 2 = n)
    (hreach : Reaches s (s.win.plocalWin + fullWwidth s.win.plocalWin +
      fullWwidth s.win.plocalWin / 2)) :
    Returns (finishFull st s >>= endCall mp st') (Settling F A (A + 1) 0 n) := by
  refine Returns.bind (Q := fun s1 => SameSeries s s1 ∧ Within F n (n + 1) s1 ∧
    s1.ploc.plocalProblem = false ∧ SettledEnds F A (A + 1) 0 n s.win.plocalWin s1.ends) ?_ ?_
  · refine Returns.bind ((initPlocalFull_frame _).and (initPlocalFull_resets h hpast hA)) ?_
    rintro s1 ⟨⟨e, ends, ploc, rfl⟩, hprob, he⟩
    exact Returns.pure ⟨⟨rfl, rfl, rfl, rfl, rfl, rfl, rfl, rfl⟩,
      ⟨h.idx, h.stamps, h.rtts, h.win, h.hats⟩, hprob, he⟩
  · rintro s1 ⟨hsame, h1, hprob, he⟩
    have hW : s1.win.warmupWin = s.win.warmupWin := hsame.warmupWin
    refine ((finish_running h1 (by omega) (Or.inr ⟨rfl, by omega⟩) st').and
      (endCall_series st')).mono ?_
    rintro s2 ⟨hrun, hsame2, hends2, hploc2⟩
    have hall := hsame.trans hsame2
    have hpw : s2.win.plocalWin = s.win.plocalWin := hall.plocalWin
    refine ⟨hrun, ?_, ?_, ?_, ?_⟩
    · rw [hall.warmupWin]
      exact hfull
    · rw [hploc2]
      exact hprob
    · rw [hpw, hends2]
      exact he
    · rw [hpw]
      exact hreach.congr hall

/-- The end windows after a reset and `k` more calls: they are in use, the near packet is the first
minimum of its window, and the far packet is if and only if it may be. The far window of the reset
began right after stamp `A`, and the far packet is from stamp `a` or later. -/
structure EndsAfter (F : Nat → BidirStamp D) (A a k : Nat) (s : AlgoState D) : Prop where
  noProblem : s.ploc.plocalProblem = false
  near : NearFirst F s
  far : FarFirst F s ↔ FarFits (rttOf F) A a s.ends.wwidth k

theorem Settling.after (h : Settling F A a k n s) : EndsAfter F A a k s := by
  obtain ⟨hnear, hfar⟩ := h.ends_iff
  refine ⟨h.noProblem, hnear, ?_⟩
  rw [h.ends.width]
  exact hfar

/-- The first stamp that the far window of `reset_plocal` comes after. -/
def beforeFar (s : AlgoState D) : Nat :=
  s.si - (s.win.plocalWin + fullWwidth s.win.plocalWin / 2)

end Run

end RADclock
