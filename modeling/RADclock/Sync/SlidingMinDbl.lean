import RADclock.Lib.DoubleBits
import RADclock.Sync.SlidingMin

/-!
# Sliding the minimum of doubles (`sync_history.c`)

When the minimum leaves the window, `history_min_slide_dbl` scans the slid window with
`history_min`, which reads the doubles as counters. The by-value version scans with
`history_min_dbl`.

- `historyMinSlideDbl`: the code; `asCounters` is what `history_min` sees.
- `UnsignedOrConst`: when the scan of the patterns finds the first minimum of the doubles.
- `slideDbl_iff`: when the slide does.
-/

namespace RADclock

open Lib

variable {D : Type}

/-! ## The code -/

/-- The buffer of doubles, read through a pointer to counters. -/
def asCounters (h : History Float) : History VCounter :=
  { name := h.name
    buffer := fun k => (h.buffer k).toBits
    bufferSz := h.bufferSz
    itemCount := h.itemCount
    oldestI := h.oldestI
    newestI := h.newestI
    added := fun k => (h.added k).map Float.toBits }

/-- `history_min_slide_dbl`. -/
def historyMinSlideDbl (h : History Float) (indexCurr j i : Nat) : Algo D Nat := do
  if i < j then pure (i + 1)
  else if i = j then pure (i + 1)  -- window only 1 wide
  else
    let tmp ← historyFind h (i + 1)
    let tmpCurr ← historyFind h indexCurr
    let t ← Exec.deref tmp
    let c ← Exec.deref tmpCurr
    if ltDbl t c then pure (i + 1)
    -- not `history_min_dbl`
    else if j = indexCurr then historyMin (asCounters h) (j + 1) (i + 1)
    else pure indexCurr

/-! ## Doubles and their patterns -/

/-- The doubles as keys. -/
def doubles (f : Nat → Float) (m : Nat) : ℤ := order (f m).toBits

/-- The patterns as keys. -/
def patterns (f : Nat → Float) : Nat → Nat := counts fun m => (f m).toBits

theorem orders_doubles {f : Nat → Float} (hf : ∀ m, (f m).isFinite = true) :
    Orders ltDbl f (doubles f) :=
  fun m m' => decide_eq_true_iff.trans (Float.lt_iff_order (hf m) (hf m'))

/-- The double has its sign set. -/
def Signed (x : Float) : Prop := 2 ^ 63 ≤ x.toBits.toNat

instance (x : Float) : Decidable (Signed x) := inferInstanceAs (Decidable (_ ≤ _))

/-- The scan of the patterns of the window `[j, i]` can be trusted: no double has its sign set,
but for a zero that comes after the other zero, or all are the same. -/
def UnsignedOrConst (f : Nat → Float) (j i : Nat) : Prop :=
  (∀ m, j ≤ m → m ≤ i → Signed (f m) →
    (f m).toBits = 0x8000000000000000 ∧ ∃ l, j ≤ l ∧ l < m ∧ (f l).toBits = 0) ∨
  ∀ m l, j ≤ m → m ≤ i → j ≤ l → l ≤ i → (f m).toBits = (f l).toBits

section Patterns

variable {f : Nat → Float} {j i k r : Nat}

theorem patterns_zero {m : Nat} : (f m).toBits = 0 ↔ patterns f m = 0 :=
  ⟨fun h => congrArg UInt64.toNat h, fun h => UInt64.toNat_inj.mp h⟩

theorem patterns_negZero {m : Nat} : (f m).toBits = 0x8000000000000000 ↔ patterns f m = 2 ^ 63 :=
  ⟨fun h => congrArg UInt64.toNat h, fun h => UInt64.toNat_inj.mp h⟩

theorem patterns_eq {m l : Nat} : (f m).toBits = (f l).toBits ↔ patterns f m = patterns f l :=
  ⟨fun h => congrArg UInt64.toNat h, fun h => UInt64.toNat_inj.mp h⟩

theorem doubles_eq (f : Nat → Float) (m : Nat) : doubles f m =
    if patterns f m < 2 ^ 63 then (patterns f m : ℤ) else 2 ^ 63 - patterns f m := rfl

/-- Where both scans agree, the window is as `UnsignedOrConst` says. -/
theorem unsignedOrConst_of_firstMin (hb : FirstMin (patterns f) j i k)
    (hd : FirstMin (doubles f) j i k) : UnsignedOrConst f j i := by
  by_cases hk : patterns f k < 2 ^ 63
  · refine Or.inl fun m h1 h2 hs => ?_
    have hle := hd.le m h1 h2
    change 2 ^ 63 ≤ patterns f m at hs
    rw [doubles_eq, doubles_eq, if_pos hk, if_neg (Nat.not_lt.mpr hs)] at hle
    have hkm : k < m := by
      rcases Nat.lt_trichotomy k m with hlt | rfl | hgt
      · exact hlt
      · omega
      · have hbefore := hd.before m h1 hgt
        rw [doubles_eq, doubles_eq, if_pos hk, if_neg (Nat.not_lt.mpr hs)] at hbefore
        omega
    exact ⟨patterns_negZero.mpr (by omega), k, hd.left, hkm, patterns_zero.mpr (by omega)⟩
  · refine Or.inr fun m l hm1 hm2 hl1 hl2 => patterns_eq.mpr ?_
    -- every pattern is at least that of `k`, and every double too
    have hsame : ∀ m, j ≤ m → m ≤ i → patterns f m = patterns f k := by
      intro m h1 h2
      have hle := hb.le m h1 h2
      have hdle := hd.le m h1 h2
      rw [doubles_eq, doubles_eq, if_neg hk, if_neg (by omega)] at hdle
      omega
    rw [hsame m hm1 hm2, hsame l hl1 hl2]

/-- Under `UnsignedOrConst` the first minimum of the patterns is that of the doubles. -/
theorem firstMin_of_patterns (hb : FirstMin (patterns f) j i k) (hu : UnsignedOrConst f j i) :
    FirstMin (doubles f) j i k := by
  rcases hu with hu | hu
  · have hk : patterns f k < 2 ^ 63 := by
      by_contra hk
      obtain ⟨-, l, hl1, hl2, hl⟩ := hu k hb.left hb.right (Nat.not_lt.mp hk)
      have hle := hb.le l hl1 (by have := hb.right; omega)
      rw [patterns_zero.mp hl] at hle
      omega
    refine { left := hb.left, right := hb.right, before := fun m h1 h2 => ?_, le :=
      fun m h1 h2 => ?_ }
    · have hbefore := hb.before m h1 h2
      rw [doubles_eq, doubles_eq, if_pos hk]
      split
      · exact Int.ofNat_lt.mpr hbefore
      · next hs =>
        -- a zero before `m` would be a smaller pattern than that of `k`, and come before it
        obtain ⟨-, l, hl1, hl2, hl⟩ := hu m h1 (by have := hb.right; omega) (Nat.not_lt.mp hs)
        have hlt := hb.before l hl1 (by omega)
        rw [patterns_zero.mp hl] at hlt
        omega
    · have hle := hb.le m h1 h2
      rw [doubles_eq, doubles_eq, if_pos hk]
      split
      · exact Int.ofNat_le.mpr hle
      · next hs =>
        obtain ⟨hm, l, hl1, hl2, hl⟩ := hu m h1 h2 (Nat.not_lt.mp hs)
        have hzero := hb.le l hl1 (by omega)
        rw [patterns_zero.mp hl] at hzero
        rw [patterns_negZero.mp hm]
        omega
  · refine { left := hb.left, right := hb.right, before := fun m h1 h2 => ?_, le :=
      fun m h1 h2 => ?_ }
    · have hlt := hb.before m h1 h2
      rw [patterns_eq.mp (hu m k h1 (by have := hb.right; omega) hb.left hb.right)] at hlt
      omega
    · rw [doubles_eq, doubles_eq, patterns_eq.mp (hu m k h1 h2 hb.left hb.right)]

end Patterns

/-! ## The slides -/

section Slide

variable {f : Nat → Float} {n c j i : Nat} {h : History Float}

theorem Holds.asCounters (hh : Holds f n h) :
    Holds (fun m => (f m).toBits) n (asCounters h) where
  newest := hh.newest
  range := hh.range
  fits := hh.fits
  slot m h1 h2 := congrArg Float.toBits (hh.slot m h1 h2)

/-- A slide that does not scan finds the first minimum of the doubles, and one that does that of
their patterns. -/
theorem slideDbl_sat (hf : ∀ m, (f m).isFinite = true) (hh : Holds f n h) (hold : h.oldestI ≤ j)
    (hin : i + 1 < n) (hc : FirstMin (doubles f) j i c) :
    Exec.Sat (fun _ => True) False (historyMinSlideDbl h c j i : Algo D Nat) fun r =>
      (i = j ∨ f (i + 1) < f c ∨ j ≠ c → FirstMin (doubles f) (j + 1) (i + 1) r) ∧
      (¬ (i = j ∨ f (i + 1) < f c ∨ j ≠ c) → FirstMin (patterns f) (j + 1) (i + 1) r) := by
  have hok : OkFrom (fun _ : Event D => True) False h j n := okFrom_window hold
  have hji := hc.left.trans hc.right
  have hcn := Nat.lt_of_le_of_lt hc.right (Nat.lt_of_succ_lt hin)
  -- finite doubles are linearly ordered, so the general window rules apply
  have hinv := (orders_doubles hf).windowInv
  refine Exec.Sat.ite (fun hlt => absurd hlt (by omega)) fun _ => ?_
  refine Exec.Sat.ite (fun heq => ?_) fun hne => ?_
  · subst heq
    exact Exec.Sat.pure ⟨fun _ => firstMin_self _ (i + 1), fun hnot => absurd (Or.inl rfl) hnot⟩
  refine Exec.Sat.bind (historyFind_points hh hin (hok _ (by omega) hin)) fun new hnew => ?_
  refine Exec.Sat.bind (historyFind_points hh hcn (hok c hc.left hcn)) fun cur hcur => ?_
  refine Exec.Sat.bind hnew.deref_sat fun nv hnv => ?_
  refine Exec.Sat.bind hcur.deref_sat fun cv hcv => ?_
  subst hnv hcv
  refine Exec.Sat.ite (fun hlt => Exec.Sat.pure ?_) fun hge => ?_
  · exact ⟨fun _ => (hinv.snoc_lt hc hlt).tail (by omega),
      fun hnot => absurd (Or.inr (Or.inl (of_decide_eq_true hlt))) hnot⟩
  have hnlt : ¬ f (i + 1) < f c := fun hlt => hge (decide_eq_true hlt)
  -- the rescan compares the values as counters, not as doubles
  refine Exec.Sat.ite (fun heq => ?_) fun hne' => Exec.Sat.pure ?_
  · refine (minScan_orders hh.asCounters (orders_counts _) (by omega) hin
      (okFrom_window (Nat.le_succ_of_le hold))).mono fun r hr => ⟨?_, fun _ => hr⟩
    rintro (h | h | h)
    · exact absurd h hne
    · exact absurd h hnlt
    · exact absurd heq h
  · exact ⟨fun _ => (hinv.snoc_ge hc (Bool.eq_false_iff.mpr hge)).tail hne',
      fun hnot => absurd (Or.inr (Or.inr hne')) hnot⟩

theorem historyMinDbl_first (hf : ∀ m, (f m).isFinite = true) (hw : HoldsWindow f h j i)
    (hji : j ≤ i) : ∃ r, (historyMinDbl h j i).res = some r ∧ FirstMin (doubles f) j i r :=
  hw.scan (orders_doubles hf) hji

/-- From the index that the scan of the old window gives, and from the value there, the slides find
the index that the scan of the new window gives, and the value there. -/
def SlidesDbl (f : Nat → Float) (h : History Float) (c j i : Nat) : Prop :=
  ∃ r, (historyMinDbl h (j + 1) (i + 1)).res = some r ∧
    (historyMinSlideDbl h c j i : Algo Float Nat).res = some r ∧
    (historyMinSlideValueDbl h (f c) j i).res = some (f r)

/-- The slides of finite doubles agree with the scan unless the minimum leaves the window, nothing
below it enters, and the slid window has a double with its sign set. -/
theorem slideDbl_iff (hf : ∀ m, (f m).isFinite = true) (hji : j ≤ i)
    (hw : HoldsWindow f h j (i + 1)) (hc : (historyMinDbl h j i).res = some c) :
    SlidesDbl f h c j i ↔
      i = j ∨ f (i + 1) < f c ∨ j ≠ c ∨ UnsignedOrConst f (j + 1) (i + 1) := by
  have ho := orders_doubles hf
  obtain ⟨n, hh, hold, hin⟩ := hw
  -- both sides are about the same first minimum
  have hmin : FirstMin (doubles f) j i c := by
    obtain ⟨c', hc', hmin⟩ := historyMinDbl_first hf ⟨n, hh, hold, Nat.lt_of_succ_lt hin⟩ hji
    obtain rfl := Option.some.inj (hc.symm.trans hc')
    exact hmin
  obtain ⟨r, hr, hrmin⟩ := historyMinDbl_first hf (HoldsWindow.tail ⟨n, hh, hold, hin⟩)
    (Nat.succ_le_succ hji)
  have hvalue : (historyMinSlideValueDbl h (f c) j i).res = some (f r) := by
    obtain ⟨v, hv, k, hk, rfl⟩ := HoldsWindow.slideValue (D := Float) (v := f c) ⟨n, hh, hold, hin⟩
      ho (fun m => Float.beq_self_iff_isNaN.mpr (isNaN_of_isFinite (hf m))) ⟨c, hmin, rfl⟩
    obtain rfl := hk.unique hrmin
    exact hv
  obtain ⟨s, hs, hfast, hscan⟩ := (slideDbl_sat (D := Float) hf hh hold hin hmin).exists_res
  -- on the fast path the slide is right whatever the bit patterns
  by_cases hcond : i = j ∨ f (i + 1) < f c ∨ j ≠ c
  · obtain rfl := (hfast hcond).unique hrmin
    refine iff_of_true ⟨s, hr, hs, hvalue⟩ ?_
    rcases hcond with h | h | h
    · exact Or.inl h
    · exact Or.inr (Or.inl h)
    · exact Or.inr (Or.inr (Or.inl h))
  · -- on the rescan it is right exactly where patterns and doubles agree
    have hpat := hscan hcond
    constructor
    · rintro ⟨r', hr', hs', -⟩
      obtain rfl := Option.some.inj (hs.symm.trans hs')
      obtain rfl := Option.some.inj (hr.symm.trans hr')
      exact Or.inr (Or.inr (Or.inr (unsignedOrConst_of_firstMin hpat hrmin)))
    · rintro (h | h | h | h)
      · exact absurd (Or.inl h) hcond
      · exact absurd (Or.inr (Or.inl h)) hcond
      · exact absurd (Or.inr (Or.inr h)) hcond
      · obtain rfl := (firstMin_of_patterns hpat h).unique hrmin
        exact ⟨s, hr, hs, hvalue⟩

end Slide

/-! ## Three doubles -/

/-- A history of three doubles. -/
def three (x y z : Float) : History Float :=
  historyAdd (historyAdd (historyAdd (historyInit .Df 3) 0 x) 1 y) 2 z

/-- The series whose first items they are. -/
def threeSeries (x y z : Float) : Nat → Float
  | 0 => x
  | 1 => y
  | 2 => z
  | _ => 0.0

section Three

variable {x y z : Float}

theorem holdsWindow_three : HoldsWindow (threeSeries x y z) (three x y z) 0 2 :=
  ⟨3, (((holds_init _ .Df 3).add rfl).add rfl).add rfl, Nat.le_of_eq rfl, by decide⟩

theorem finite_three (hx : x.isFinite = true) (hy : y.isFinite = true) (hz : z.isFinite = true) :
    ∀ m, (threeSeries x y z m).isFinite = true
  | 0 => hx
  | 1 => hy
  | 2 => hz
  | _ + 3 => show (0.0 : Float).isFinite = true from rfl

end Three

/-- No sign is set in the slid window, and it is scanned. -/
theorem slideDbl_unsigned :
    SlidesDbl (threeSeries 1.0 2.0 3.0) (three 1.0 2.0 3.0) 0 0 1 := by
  have hsign : ¬ Signed 2.0 ∧ ¬ Signed 3.0 ∧
      (historyMinDbl (three 1.0 2.0 3.0) 0 1).res = some 0 := by decide +kernel
  refine (slideDbl_iff (finite_three rfl rfl rfl) (by decide) holdsWindow_three hsign.2.2).mpr
    (.inr (.inr (.inr (.inl fun m h1 h2 hm => ?_))))
  obtain rfl | rfl : m = 1 ∨ m = 2 := by omega
  · exact absurd hm hsign.1
  · exact absurd hm hsign.2.1

/-- When `-3` leaves the window of `-3` and `-2` and `1` enters, `1` is found. -/
theorem not_slideDbl : ¬ ∀ (f : Nat → Float) (h : History Float) (c j i : Nat),
    (∀ m, (f m).isFinite = true) → j ≤ i → HoldsWindow f h j (i + 1) →
      (historyMinDbl h j i).res = some c → SlidesDbl f h c j i := by
  intro hall
  have hrun : (historyMinDbl (three (-3.0) (-2.0) 1.0) 0 1).res = some 0 ∧
      (historyMinDbl (three (-3.0) (-2.0) 1.0) 1 2).res = some 1 ∧
      (historyMinSlideDbl (three (-3.0) (-2.0) 1.0) 0 0 1 : Algo Float Nat).res = some 2 := by
    decide +kernel
  obtain ⟨r, hr, hs, -⟩ := hall (threeSeries (-3.0) (-2.0) 1.0) (three (-3.0) (-2.0) 1.0) 0 0 1
    (finite_three rfl rfl rfl) (by decide) holdsWindow_three hrun.1
  rw [hrun.2.1] at hr
  rw [hrun.2.2, ← hr] at hs
  cases hs

end RADclock
