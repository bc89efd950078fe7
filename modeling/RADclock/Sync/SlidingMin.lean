import RADclock.Lib.FirstMin
import RADclock.Sync.History

/-!
# Sliding the minimum of a window (`sync_history.c`)

The scan of a window returns the first index of a minimum. A slide is given that index, or the
value there, and looks at the values that enter and leave before it scans the slid window.

- `Orders`: the comparison of a scan orders the items as a series of keys.
- `minScan_orders`, `minSlide_orders`, `minSlideValue_orders`: the rules for the three, for counters
  and doubles alike.
- `minSlides`, `minSlideValues`: successive slides, while items may be added between them.
- `slides_eq_scan`: on counters any number of slides gives what a scan of the slid window gives.
-/

namespace RADclock

open Lib

variable {D α κ : Type} [LinearOrder κ]

/-! ## Rules -/

/-- `lt` orders the items of `f` as the keys `g` are. -/
def Orders (lt : α → α → Bool) (f : Nat → α) (g : Nat → κ) : Prop :=
  ∀ m m', lt (f m) (f m') = true ↔ g m < g m'

/-- An order that the comparison follows gives the rules of a window: its first minimum. -/
theorem Orders.windowInv {lt : α → α → Bool} {f : Nat → α} {g : Nat → κ} (ho : Orders lt f g) :
    WindowInv lt f (FirstMin g) where
  self := firstMin_self g
  snoc_lt h hlt := h.snoc_lt ((ho _ _).mp hlt)
  snoc_ge h hge := h.snoc_ge (not_lt.mp fun hlt => Bool.false_ne_true (hge.symm.trans
    ((ho _ _).mpr hlt)))

section Rules

variable {P : Event D → Prop} {H : Prop} {f : Nat → α} {g : Nat → κ} {n : Nat} {h : History α}
  {lt eq : α → α → Bool} {c j i : Nat}

/-- A scan of a window that is held finds its first minimum. -/
theorem minScan_orders (hh : Holds f n h) (ho : Orders lt f g) (hji : j ≤ i) (hin : i < n)
    (hok : OkFrom P H h j n) : Exec.Sat P H (minScan lt h j i) (FirstMin g j i) :=
  minScan_rule hh ho.windowInv hji hin hok

/-- A slide by index turns the first minimum of a window into that of the next one. -/
theorem minSlide_orders (hh : Holds f n h) (ho : Orders lt f g) (hc : FirstMin g j i c)
    (hin : i + 1 < n) (hok : OkFrom P H h j n) :
    Exec.Sat P H (minSlide lt h c j i) (FirstMin g (j + 1) (i + 1)) := by
  have hji := hc.left.trans hc.right
  have hcn := Nat.lt_of_le_of_lt hc.right (Nat.lt_of_succ_lt hin)
  refine Exec.Sat.ite (fun hlt => absurd hlt (by omega)) fun _ => ?_
  refine Exec.Sat.ite (fun heq => ?_) fun hne => ?_
  · subst heq
    exact Exec.Sat.pure (firstMin_self g (i + 1))
  refine Exec.Sat.bind (historyFind_points hh hin (hok _ (by omega) hin)) fun new hnew => ?_
  refine Exec.Sat.bind (historyFind_points hh hcn (hok c hc.left hcn)) fun cur hcur => ?_
  refine Exec.Sat.bind hnew.deref_sat fun nv hnv => ?_
  refine Exec.Sat.bind hcur.deref_sat fun cv hcv => ?_
  subst hnv hcv
  refine Exec.Sat.ite (fun hlt => Exec.Sat.pure ?_) fun hge => ?_
  · -- the new item is below the minimum
    exact (ho.windowInv.snoc_lt hc hlt).tail (by omega)
  refine Exec.Sat.ite (fun _ => ?_) fun hne' => Exec.Sat.pure ?_
  · -- the minimum leaves the window, and the rest is scanned
    exact minScan_orders hh ho (by omega) hin (hok.mono (by omega) le_rfl)
  · exact (ho.windowInv.snoc_ge hc (Bool.eq_false_iff.mpr hge)).tail hne'

/-- The value at the first index of a minimum. -/
def ValueAtMin (f : Nat → α) (g : Nat → κ) (j i : Nat) (v : α) : Prop :=
  ∃ k, FirstMin g j i k ∧ v = f k

/-- So does a slide by value, for the value at the first minimum. -/
theorem minSlideValue_orders (hh : Holds f n h) (ho : Orders lt f g)
    (heq : ∀ m, eq (f m) (f m) = true) {v : α} (hv : ValueAtMin f g j i v) (hin : i + 1 < n)
    (hok : OkFrom P H h j n) :
    Exec.Sat P H (minSlideValue lt eq h v j i) (ValueAtMin f g (j + 1) (i + 1)) := by
  obtain ⟨k, hk, rfl⟩ := hv
  have hji := hk.left.trans hk.right
  refine Exec.Sat.bind (historyFind_points hh hin (hok _ (by omega) hin)) fun new hnew => ?_
  refine Exec.Sat.ite (fun hlt => absurd hlt (by omega)) fun _ => ?_
  refine Exec.Sat.ite (fun hij => ?_) fun hne => ?_
  · -- a window of one item: the new one
    subst hij
    exact hnew.deref_sat.mono fun v hv => ⟨i + 1, firstMin_self g (i + 1), hv⟩
  refine Exec.Sat.bind hnew.deref_sat fun nv hnv => ?_
  subst hnv
  refine Exec.Sat.ite (fun hlt => Exec.Sat.pure ?_) fun hge => ?_
  · -- the new item is below the minimum
    exact ⟨i + 1, (ho.windowInv.snoc_lt hk hlt).tail (by omega), rfl⟩
  refine Exec.Sat.bind (Q := fun e => e = f j)
    (historyGet_sat hh (by omega) (hok j le_rfl (by omega)) rfl) fun e he => ?_
  subst he
  refine Exec.Sat.ite (fun _ => ?_) fun hexit => Exec.Sat.pure ?_
  · -- the minimum leaves the window, and the rest is scanned
    refine Exec.Sat.bind (minScan_orders hh ho (by omega) hin (hok.mono (by omega) le_rfl))
      fun r hr => ?_
    have hrn := Nat.lt_of_le_of_lt hr.right hin
    exact historyGet_sat hh hrn (hok r (Nat.le_of_succ_le hr.left) hrn) ⟨r, hr, rfl⟩
  · -- the minimum stays: its value is not that of the item that left
    refine ⟨k, (ho.windowInv.snoc_ge hk (Bool.eq_false_iff.mpr hge)).tail ?_, rfl⟩
    rintro rfl
    exact hexit (heq j)

end Rules

/-! ## Any number of slides -/

/-- Slide the window `[j, i]` by `k`; the `t`-th slide finds the history `hs t`. -/
def minSlides (lt : α → α → Bool) (hs : Nat → History α) (indexCurr j i : Nat) : Nat → Algo D Nat
  | 0 => pure indexCurr
  | k + 1 => do
    let r ← minSlides lt hs indexCurr j i k
    minSlide lt (hs k) r (j + k) (i + k)

/-- The same, by value. -/
def minSlideValues (lt eq : α → α → Bool) (hs : Nat → History α) (minCurr : α) (j i : Nat) :
    Nat → Algo D α
  | 0 => pure minCurr
  | k + 1 => do
    let v ← minSlideValues lt eq hs minCurr j i k
    minSlideValue lt eq (hs k) v (j + k) (i + k)

/-- The history holds the items `[j, i]` of the series. -/
def HoldsWindow (f : Nat → α) (h : History α) (j i : Nat) : Prop :=
  ∃ n, Holds f n h ∧ h.oldestI ≤ j ∧ i < n

/-- Without a condition on the lookups every window is fine to look into. -/
theorem okFrom_window {h : History α} {j n : Nat} (hold : h.oldestI ≤ j) :
    OkFrom (fun _ : Event D => True) False h j n :=
  fun _ h1 _ => ⟨trivial, fun hlt => absurd (hold.trans h1) (Nat.not_le.mpr hlt)⟩

section Window

variable {f : Nat → α} {g : Nat → κ} {h : History α} {lt eq : α → α → Bool} {c j i : Nat}

/-- A scan of a window that is held returns its first minimum. -/
theorem HoldsWindow.scan (hw : HoldsWindow f h j i) (ho : Orders lt f g) (hji : j ≤ i) :
    ∃ r, (minScan lt h j i : Algo D Nat).res = some r ∧ FirstMin g j i r := by
  obtain ⟨n, hh, hold, hin⟩ := hw
  exact (minScan_orders hh ho hji hin (okFrom_window hold)).exists_res

/-- One slide over a window that is held returns the first minimum of the next one. -/
theorem HoldsWindow.slide (hw : HoldsWindow f h j (i + 1)) (ho : Orders lt f g)
    (hc : FirstMin g j i c) :
    ∃ r, (minSlide lt h c j i : Algo D Nat).res = some r ∧ FirstMin g (j + 1) (i + 1) r := by
  obtain ⟨n, hh, hold, hin⟩ := hw
  exact (minSlide_orders hh ho hc hin (okFrom_window hold)).exists_res

/-- One slide by value returns the value at the first minimum of the next one. -/
theorem HoldsWindow.slideValue (hw : HoldsWindow f h j (i + 1)) (ho : Orders lt f g)
    (heq : ∀ m, eq (f m) (f m) = true) {v : α} (hv : ValueAtMin f g j i v) :
    ∃ w, (minSlideValue lt eq h v j i : Algo D α).res = some w ∧
      ValueAtMin f g (j + 1) (i + 1) w := by
  obtain ⟨n, hh, hold, hin⟩ := hw
  exact (minSlideValue_orders hh ho heq hv hin (okFrom_window hold)).exists_res

/-- A window that is held without its left end. -/
theorem HoldsWindow.tail (hw : HoldsWindow f h j i) : HoldsWindow f h (j + 1) i := by
  obtain ⟨n, hh, hold, hin⟩ := hw
  exact ⟨n, hh, Nat.le_succ_of_le hold, hin⟩

end Window

section Runs

variable {f : Nat → α} {g : Nat → κ} {hs : Nat → History α} {lt eq : α → α → Bool} {j i : Nat}

/-- Any number of slides by index, over histories that hold the windows as they come. -/
theorem minSlides_first (ho : Orders lt f g) {c : Nat} (hc : FirstMin g j i c) {k : Nat}
    (hw : ∀ t < k, HoldsWindow f (hs t) (j + t) (i + t + 1)) :
    ∃ r, (minSlides lt hs c j i k : Algo D Nat).res = some r ∧ FirstMin g (j + k) (i + k) r := by
  induction k with
  | zero => exact ⟨c, rfl, hc⟩
  | succ k ih =>
    obtain ⟨r, hr, hmin⟩ := ih fun t ht => hw t (Nat.lt_succ_of_lt ht)
    -- the next slide finds the window that the slides before it have reached
    obtain ⟨r', hr', hmin'⟩ := (hw k (Nat.lt_succ_self k)).slide ho hmin
    exact ⟨r', Exec.bind_res_some.mpr ⟨r, hr, hr'⟩, hmin'⟩

/-- Any number of slides by value. -/
theorem minSlideValues_first (ho : Orders lt f g) (heq : ∀ m, eq (f m) (f m) = true) {v : α}
    (hv : ValueAtMin f g j i v) {k : Nat}
    (hw : ∀ t < k, HoldsWindow f (hs t) (j + t) (i + t + 1)) :
    ∃ w, (minSlideValues lt eq hs v j i k : Algo D α).res = some w ∧
      ValueAtMin f g (j + k) (i + k) w := by
  induction k with
  | zero => exact ⟨v, rfl, hv⟩
  | succ k ih =>
    obtain ⟨w, hw', hmin⟩ := ih fun t ht => hw t (Nat.lt_succ_of_lt ht)
    obtain ⟨w', hr', hmin'⟩ := (hw k (Nat.lt_succ_self k)).slideValue ho heq hmin
    exact ⟨w', Exec.bind_res_some.mpr ⟨w, hw', hr'⟩, hmin'⟩

end Runs

/-! ## Counters -/

/-- The counter readings, as numbers. -/
def counts (f : Nat → VCounter) (m : Nat) : Nat := (f m).toNat

/-- The comparison of counter values follows their order as numbers. -/
theorem orders_counts (f : Nat → VCounter) : Orders ltVC f (counts f) :=
  fun _ _ => decide_eq_true_iff.trans UInt64.lt_iff_toNat_lt

/-- From the first index of a minimum, or from the minimum, one slide finds that of the slid window
as a scan does, and so does any number of slides. -/
theorem slides_eq_scan (f : Nat → VCounter) :
    (∀ h j i c, HoldsWindow f h j (i + 1) → FirstMin (counts f) j i c →
      ∃ r, FirstMin (counts f) (j + 1) (i + 1) r ∧
        (historyMinSlide h c j i : Algo D Nat).res = some r ∧
        (historyMin h (j + 1) (i + 1) : Algo D Nat).res = some r) ∧
    (∀ h j i v, HoldsWindow f h j (i + 1) → ValueAtMin f (counts f) j i v →
      ∃ w, ValueAtMin f (counts f) (j + 1) (i + 1) w ∧
        (historyMinSlideValue h v j i : Algo D VCounter).res = some w) ∧
    (∀ hs j i k, (∀ t < k, HoldsWindow f (hs t) (j + t) (i + t + 1)) →
      ∀ c, FirstMin (counts f) j i c →
        ∃ r, FirstMin (counts f) (j + k) (i + k) r ∧
          (minSlides ltVC hs c j i k : Algo D Nat).res = some r ∧
          (minSlideValues ltVC (fun a b => decide (a = b)) hs (f c) j i k : Algo D VCounter).res =
            some (f r) ∧
          ∀ h, HoldsWindow f h (j + k) (i + k) →
            (historyMin h (j + k) (i + k) : Algo D Nat).res = some r) := by
  have ho := orders_counts f
  refine ⟨fun h j i c hw hc => ?_, fun h j i v hw hv => ?_, fun hs j i k hw c hc => ?_⟩
  · obtain ⟨r, hr, hmin⟩ := hw.slide (D := D) ho hc
    obtain ⟨r', hr', hmin'⟩ := hw.tail.scan (D := D) ho (Nat.succ_le_succ (hc.left.trans hc.right))
    obtain rfl := hmin.unique hmin'
    exact ⟨r, hmin, hr, hr'⟩
  · obtain ⟨w, hw', hmin⟩ : ∃ w, (historyMinSlideValue h v j i : Algo D VCounter).res = some w ∧
        ValueAtMin f (counts f) (j + 1) (i + 1) w :=
      hw.slideValue ho (fun _ => decide_eq_true rfl) hv
    exact ⟨w, hmin, hw'⟩
  · obtain ⟨r, hr, hmin⟩ := minSlides_first (D := D) ho hc hw
    obtain ⟨w, hw', r', hmin', rfl⟩ : ∃ w, (minSlideValues ltVC (fun a b => decide (a = b)) hs (f c)
        j i k : Algo D VCounter).res = some w ∧ ValueAtMin f (counts f) (j + k) (i + k) w :=
      minSlideValues_first ho (fun _ => decide_eq_true rfl) ⟨c, hc, rfl⟩ hw
    obtain rfl := hmin.unique hmin'
    refine ⟨r, hmin, hr, hw', fun h hh => ?_⟩
    obtain ⟨s, hs', hmin''⟩ := hh.scan (D := D) ho (Nat.add_le_add_right (hc.left.trans hc.right) k)
    obtain rfl := hmin.unique hmin''
    exact hs'

end RADclock
