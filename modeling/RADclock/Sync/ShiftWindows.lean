import RADclock.Lib.Double
import RADclock.Sync.Availability

/-!
# Shift windows over a configuration change

`update_state` gives new sizes to the histories, and starts the shift window of the RTT again within
what is left. The one of the OWDs is not started again: it keeps its left end and its minima, be the
delays there still held or not.

- `ShiftValid`: a window that is held, and the minimum over it.
- `Tracked`: the same, in terms of the series; what an addition, a slide and a resize make of it.
- `Restarted.valid`, `Restarted.reachBack`: both windows are valid after a change, and stay valid
  with the next stamp, if and only if the resized histories reach back to their left ends.
-/

namespace RADclock

open Lib Lib.Exec

/-! ## The order of the delays -/

/-- The values on which `<` is a strict linear order, up to values that are `==`. -/
structure Ordered {D : Type} [Arith D] (num : D → Prop) : Prop where
  strict : StrictLt (ltDbl : D → D → Bool)
  between : ∀ a b c : D, num c → a < b → a < c ∨ c < b
  refl : ∀ a : D, num a → (a == a) = true

/-- A double that is a number. -/
def IsNumber (x : Float) : Prop := x.isNaN = false

/-- The floats that are numbers are in a strict order. -/
theorem ordered_float : Ordered IsNumber where
  strict := {
    irrefl := fun a => decide_eq_false (Float.lt_irrefl a)
    trans := fun _ _ _ hab hbc =>
      decide_eq_true (Float.lt_trans (of_decide_eq_true hab) (of_decide_eq_true hbc)) }
  between := fun _ _ _ hc hlt => Float.lt_or_lt hlt hc
  refl := fun _ ha => Float.beq_self_iff_isNaN.mpr ha

section Minimum

variable {α : Type} {lt : α → α → Bool} {f g : Nat → α} {j i : Nat} {v : α}

/-- A minimum depends on the items of its window. -/
theorem MinVal.congr (h : MinVal lt f j i v) (heq : ∀ k, j ≤ k → k ≤ i → f k = g k) :
    MinVal lt g j i v := by
  obtain ⟨k, hk, rfl⟩ := h
  refine ⟨k, ⟨hk.left, hk.right, fun hs m h1 h2 => ?_⟩, heq k hk.left hk.right⟩
  rw [← heq m h1 h2, ← heq k hk.left hk.right]
  exact hk.le hs m h1 h2

/-- Growing the window by one item. -/
theorem MinVal.cmin {D : Type} [Arith D] {num : D → Prop} (ho : Ordered num) {f : Nat → D} {v : D}
    (h : MinVal ltDbl f j i v) (hv : num v) :
    MinVal ltDbl f j (i + 1) (Arith.cmin v (f (i + 1))) := by
  obtain ⟨k, hk, rfl⟩ := h
  unfold Arith.cmin
  have hki := hk.right
  by_cases hlt : f k < f (i + 1)
  · rw [if_pos hlt]
    refine ⟨k, hk.snoc_ge (Bool.eq_false_iff.mpr fun hgt => ?_), rfl⟩
    have htrans := ho.strict.trans _ _ _ (decide_eq_true hlt) hgt
    rw [ho.strict.irrefl] at htrans
    cases htrans
  · rw [if_neg hlt]
    refine ⟨i + 1, ⟨Nat.le_trans hk.left (by omega), Nat.le_refl _, fun hs m h1 h2 => ?_⟩, rfl⟩
    rcases Nat.lt_or_eq_of_le h2 with hm | rfl
    · -- below the new item would be below the minimum, or the minimum below the new item
      refine decide_eq_false fun hless => ?_
      rcases ho.between _ _ (f k) hv hless with h3 | h3
      · exact absurd h3 (of_decide_eq_false (hk.le hs m h1 (by omega)))
      · exact hlt h3
    · exact hs.irrefl _

end Minimum

/-! ## A window of one history -/

section Window

variable {α : Type} {lt : α → α → Bool} {h : History α} {e n : Nat} {v : α}

/-- The items `e, …, n - 1` are held, and `v` is a minimum of them. -/
structure ShiftValid (lt : α → α → Bool) (h : History α) (e n : Nat) (v : α) : Prop where
  left : e < n
  held : ∀ k, e ≤ k → k < n → h.Has k
  attained : ∃ k, e ≤ k ∧ k < n ∧ v = h.item k
  least : ∀ k, e ≤ k → k < n → lt (h.item k) v = false

/-- The same of the last items added to `h`, of `n`, whatever their number. -/
structure Tracked (lt : α → α → Bool) (h : History α) (e n : Nat) (v : α) : Prop where
  left : e < n
  held : h.oldestI ≤ e
  isMin : ∃ f, Holds f n h ∧ MinVal lt f e (n - 1) v

/-- A window that is tracked is valid. -/
theorem Tracked.valid (hs : Tracked lt h e n v) (hlt : StrictLt lt) : ShiftValid lt h e n v := by
  obtain ⟨f, hh, k, hk, rfl⟩ := hs.isMin
  have hleft := hs.left
  have hhas : ∀ m, e ≤ m → m < n → h.Has m := by
    intro m h1 h2
    have hnew := hh.newest
    exact ⟨Nat.le_trans hs.held h1, by omega⟩
  have hright := hk.right
  refine ⟨hleft, hhas, ⟨k, hk.left, by omega, ?_⟩, fun m h1 h2 => ?_⟩
  · exact ((hh.item_eq (hhas k hk.left (by omega))).2).symm
  · rw [(hh.item_eq (hhas m h1 h2)).2]
    exact hk.le hlt m h1 (by omega)

/-- A capacity that reaches back to the left end keeps it. -/
theorem historyResize_oldest_le [Zero α] {f : Nat → α} (hh : Holds f n h) {sz : Nat}
    (hold : h.oldestI ≤ e) (hfit : n ≤ e + sz) : (historyResize h sz).oldestI ≤ e := by
  have hnew := hh.newest
  unfold historyResize
  split
  · exact hold
  · split
    · exact hold
    · show resizeOldest h sz ≤ e
      unfold resizeOldest
      split
      · omega
      · exact hold

/-- A resize keeps a window that fits. -/
theorem Tracked.resize [Zero α] (hs : Tracked lt h e n v) {sz : Nat} (hfit : n ≤ e + sz) :
    Tracked lt (historyResize h sz) e n v := by
  obtain ⟨f, hh, hmin⟩ := hs.isMin
  exact ⟨hs.left, historyResize_oldest_le hh hs.held hfit, f, hh.resize sz, hmin⟩

/-- A window that is held after a resize fits. -/
theorem ShiftValid.fits [Zero α] {sz : Nat} (hs : Tracked lt h e n v)
    (hv : ShiftValid lt (historyResize h sz) e n v) : n ≤ e + sz := by
  obtain ⟨f, hh, -⟩ := hs.isMin
  have hold := (hv.held e (Nat.le_refl e) hv.left).1
  have hrange := (hh.resize sz).range
  have hfits := (hh.resize sz).fits
  rw [historyResize_bufferSz] at hfits
  omega

/-- With room for one item more the left end is held still. -/
theorem historyAdd_oldest_fits {f : Nat → α} (hh : Holds f n h) (hold : h.oldestI ≤ e)
    (hroom : n + 1 ≤ e + h.bufferSz) (x : α) : (historyAdd h n x).oldestI ≤ e := by
  have hnew := hh.newest
  have hrange := hh.range
  unfold historyAdd
  rw [if_neg (by omega)]
  dsimp only
  split
  · exact hold
  · omega

/-- An item more. -/
theorem Holds.snoc {f : Nat → α} (hh : Holds f n h) (x : α) :
    Holds (Function.update f n x) (n + 1) (historyAdd h n x) := by
  refine Holds.add ⟨hh.newest, hh.range, hh.fits, fun j h1 h2 => ?_⟩ (Function.update_self _ _ _)
  rw [Function.update_of_ne (by omega)]
  exact hh.slot j h1 h2

/-- A new item beyond the window does not change its minimum. -/
theorem MinVal.update {f : Nat → α} (hn : e < n) (hmin : MinVal lt f e (n - 1) v) (x : α) :
    MinVal lt (Function.update f n x) e (n - 1) v :=
  hmin.congr fun k _ hk => (Function.update_of_ne (show k ≠ n by omega) _ _).symm

/-- Growing the window, in general: what is kept has to be the minimum with the new item. -/
theorem Tracked.grow_of (hs : Tracked lt h e n v) (hroom : n + 1 ≤ e + h.bufferSz) {x w : α}
    (hmin : ∀ f : Nat → α, f n = x → MinVal lt f e (n - 1) v → MinVal lt f e n w) :
    Tracked lt (historyAdd h n x) e (n + 1) w := by
  obtain ⟨f, hh, hk⟩ := hs.isMin
  have hleft := hs.left
  refine ⟨Nat.lt_succ_of_lt hleft, historyAdd_oldest_fits hh hs.held hroom x, _, hh.snoc x, ?_⟩
  exact hmin _ (Function.update_self _ _ _) (hk.update hleft x)

/-- Sliding the window, in general: the item that leaves has to equal itself. -/
theorem Tracked.slide_of {D : Type} [Arith D] {P : Event D → Prop} {H : Prop}
    {eq : α → α → Bool} (hs : Tracked lt h e n v) (hself : eq (h.item e) (h.item e) = true) (x : α)
    (hok : OkFrom P H (historyAdd h n x) e (n + 1)) :
    Sat P H (minSlideValue lt eq (historyAdd h n x) v e (n - 1))
      (Tracked lt (historyAdd h n x) (e + 1) (n + 1)) := by
  obtain ⟨f, hh, hmin⟩ := hs.isMin
  have hleft := hs.left
  have hhas : h.Has e := ⟨hs.held, by have := hh.newest; omega⟩
  have hsame : eq (Function.update f n x e) (Function.update f n x e) = true := by
    rw [Function.update_of_ne (by omega), ← (hh.item_eq hhas).2]
    exact hself
  have hold : (historyAdd h n x).oldestI ≤ e + 1 :=
    Nat.le_trans (historyAdd_oldest_le h n x) (Nat.succ_le_succ hs.held)
  refine minSlideValue_sat (hh.snoc x) (by omega) (by omega) hok fun r hr => ?_
  have hslid := hr hsame (hmin.update hleft x)
  rw [show n - 1 + 1 = n by omega] at hslid
  exact ⟨by omega, hold, _, hh.snoc x, hslid⟩

/-- With room for one item more, the whole window and the new item are held. -/
theorem Tracked.okFrom {D : Type} [Arith D] (hs : Tracked lt h e n v)
    (hroom : n + 1 ≤ e + h.bufferSz) (x : α) :
    OkFrom (D := D) Event.Held False (historyAdd h n x) e (n + 1) := by
  obtain ⟨f, hh, -⟩ := hs.isMin
  exact okFrom_of_held (hh.snoc x) (fun _ _ _ _ h1 h2 => ⟨h1, h2⟩)
    (historyAdd_oldest_fits hh hs.held hroom x)

/-- There is room if the left end is still held after an item more. -/
theorem Tracked.room (hs : Tracked lt h e n v) {x : α} (hold : (historyAdd h n x).oldestI ≤ e) :
    n + 1 ≤ e + h.bufferSz := by
  obtain ⟨f, hh, -⟩ := hs.isMin
  have hrange := (hh.snoc x).range
  have hfits := (hh.snoc x).fits
  rw [historyAdd_bufferSz] at hfits
  omega

/-- A slide looks up the left end, if the new item is no new minimum. -/
theorem Tracked.room_of_slide {D : Type} [Arith D] {eq : α → α → Bool} {x : α}
    (hs : Tracked lt h e n v) (hwide : e + 1 < n) (hx : lt x v = false)
    (hlog : ∀ ev ∈ (minSlideValue lt eq (historyAdd h n x) v e (n - 1) : Algo D α).log, ev.Held) :
    n + 1 ≤ e + h.bufferSz := by
  obtain ⟨f, hh, -⟩ := hs.isMin
  have hnext := hh.snoc x
  have hold : (historyAdd h n x).oldestI ≤ n := by
    have hadd := historyAdd_oldest_le h n x
    have hleft := hs.left
    have hheld := hs.held
    omega
  have hnew : lt (Function.update f n x (n - 1 + 1)) v = false := by
    rw [show n - 1 + 1 = n by omega, Function.update_self]
    exact hx
  have hread := hlog _ (minSlideValue_reads_left hnext (show e < n - 1 by omega)
    (by omega) (by omega) hnew)
  exact hs.room hread.1

end Window

section Delays

variable {D : Type} [Arith D] {num : D → Prop} {h : History D} {e n : Nat} {v : D}

/-- All items held are numbers. -/
def AllNumbers (num : D → Prop) (h : History D) : Prop := ∀ k, h.Has k → num (h.item k)

/-- The minimum of numbers is a number. -/
theorem Tracked.isNumber (hs : Tracked ltDbl h e n v) (hnum : AllNumbers num h) : num v := by
  obtain ⟨f, hh, k, hk, rfl⟩ := hs.isMin
  have hnew := hh.newest
  have hleft := hs.left
  have hright := hk.right
  have hhas : h.Has k := ⟨Nat.le_trans hs.held hk.left, by omega⟩
  rw [← (hh.item_eq hhas).2]
  exact hnum k hhas

omit [Arith D] in
/-- An addition brings no old item back. -/
theorem historyAdd_oldest_ge {f : Nat → D} (hh : Holds f n h) (x : D) :
    h.oldestI ≤ (historyAdd h n x).oldestI := by
  have hnew := hh.newest
  have hrange := hh.range
  unfold historyAdd
  rw [if_neg (by omega)]
  dsimp only
  split <;> omega

omit [Arith D] in
/-- Nor does a resize. -/
theorem historyResize_oldest_ge {α : Type} [Zero α] {f : Nat → α} {h : History α}
    (hh : Holds f n h) (sz : Nat) : h.oldestI ≤ (historyResize h sz).oldestI := by
  have hnew := hh.newest
  have hrange := hh.range
  unfold historyResize
  split
  · exact Nat.le_refl _
  · split
    · exact Nat.le_refl _
    · show h.oldestI ≤ resizeOldest h sz
      unfold resizeOldest
      split
      · omega
      · exact Nat.le_refl _

omit [Arith D] in
/-- One more number. -/
theorem AllNumbers.add {f : Nat → D} (hh : Holds f n h) (hnum : AllNumbers num h) {x : D}
    (hx : num x) : AllNumbers num (historyAdd h n x) := by
  intro k hk
  have hnew := (hh.snoc x).newest
  obtain ⟨hlt, hitem⟩ := (hh.snoc x).item_eq hk
  rw [hitem]
  by_cases hkn : k = n
  · rw [hkn, Function.update_self]
    exact hx
  · rw [Function.update_of_ne hkn]
    have hold : h.oldestI ≤ (historyAdd h n x).oldestI := historyAdd_oldest_ge hh x
    have hhas : h.Has k := ⟨Nat.le_trans hold hk.1, by have := hh.newest; omega⟩
    rw [← (hh.item_eq hhas).2]
    exact hnum k hhas

/-- A resize brings no new item in. -/
theorem AllNumbers.resize {f : Nat → D} (hh : Holds f n h)
    (hnum : AllNumbers num h) (sz : Nat) : AllNumbers num (historyResize h sz) := by
  intro k hk
  have hnew := hh.newest
  have hnew' := (hh.resize sz).newest
  have hhas : h.Has k := by
    obtain ⟨h1, h2⟩ := hk
    exact ⟨Nat.le_trans (historyResize_oldest_ge hh sz) h1, by omega⟩
  rw [((hh.resize sz).item_eq hk).2, ← (hh.item_eq hhas).2]
  exact hnum k hhas

/-- The window grows. -/
theorem Tracked.grow (ho : Ordered num) (hs : Tracked ltDbl h e n v) (hnum : AllNumbers num h)
    (hroom : n + 1 ≤ e + h.bufferSz) (x : D) :
    Tracked ltDbl (historyAdd h n x) e (n + 1) (Arith.cmin v x) := by
  have hleft := hs.left
  refine hs.grow_of hroom fun f hf hk => ?_
  have hgrow := hk.cmin ho (hs.isNumber hnum)
  rw [show n - 1 + 1 = n by omega, hf] at hgrow
  exact hgrow

/-- The window slides. -/
theorem Tracked.slide {P : Event D → Prop} {H : Prop} (ho : Ordered num)
    (hs : Tracked ltDbl h e n v) (hnum : AllNumbers num h) (x : D)
    (hok : OkFrom P H (historyAdd h n x) e (n + 1)) :
    Sat P H (historyMinSlideValueDbl (historyAdd h n x) v e (n - 1))
      (Tracked ltDbl (historyAdd h n x) (e + 1) (n + 1)) := by
  obtain ⟨f, hh, -⟩ := hs.isMin
  have hleft := hs.left
  have hhas : h.Has e := ⟨hs.held, by have := hh.newest; omega⟩
  exact hs.slide_of (ho.refl _ (hnum e hhas)) x hok

end Delays

/-! ## The window of the OWDs -/

section State

variable {D : Type} [Arith D] {num : D → Prop} {n : Nat} {s : AlgoState D} {mp : Metaparam D}

/-- The shift window of the OWDs, of the first `n` delays, and room for it to grow. -/
structure OWDHeld (n : Nat) (s : AlgoState D) : Prop where
  shift : 1 ≤ s.win.shiftWin
  Df : Tracked ltDbl s.hist.Df s.win.shiftEndOWD n s.owd.DfhatShift
  Db : Tracked ltDbl s.hist.Db s.win.shiftEndOWD n s.owd.DbhatShift
  roomDf : s.win.shiftWin ≤ s.hist.Df.bufferSz
  roomDb : s.win.shiftWin ≤ s.hist.Db.bufferSz

/-- All delays held are numbers. -/
structure DelayNumbers (num : D → Prop) (h : Hists D) : Prop where
  Df : AllNumbers num h.Df
  Db : AllNumbers num h.Db

/-- One more stamp: the window grows, for which there has to be room, or it slides. -/
theorem processOWDAsymFull_sat {P : Event D → Prop} {H : Prop} (ho : Ordered num) (hsi : s.si = n)
    (hshift : 1 ≤ s.win.shiftWin)
    (hDf : Tracked ltDbl s.hist.Df s.win.shiftEndOWD n s.owd.DfhatShift)
    (hDb : Tracked ltDbl s.hist.Db s.win.shiftEndOWD n s.owd.DbhatShift)
    (hnum : DelayNumbers num s.hist) (st : BidirStamp D)
    (hgrow : n + 1 < s.win.shiftWin + s.win.shiftEndOWD →
      n + 1 ≤ s.win.shiftEndOWD + s.hist.Df.bufferSz ∧
        n + 1 ≤ s.win.shiftEndOWD + s.hist.Db.bufferSz)
    (hokF : OkFrom P H (historyAdd s.hist.Df n (rawOWD s st).1) s.win.shiftEndOWD (n + 1))
    (hokB : OkFrom P H (historyAdd s.hist.Db n (rawOWD s st).2) s.win.shiftEndOWD (n + 1)) :
    Sat P H (processOWDAsymFull st s) fun s' =>
      (Tracked ltDbl s'.hist.Df s'.win.shiftEndOWD (n + 1) s'.owd.DfhatShift ∧
        Tracked ltDbl s'.hist.Db s'.win.shiftEndOWD (n + 1) s'.owd.DbhatShift) ∧
      s'.win.shiftWin = s.win.shiftWin ∧ s'.hist.Df.bufferSz = s.hist.Df.bufferSz ∧
        s'.hist.Db.bufferSz = s.hist.Db.bufferSz := by
  have hleft := hDf.left
  generalize hd : rawOWD s st = d at hokF hokB
  have hhist : (updateOWDMinima d (recordOWD d s)).hist = { s.hist with
      Df := historyAdd s.hist.Df n d.1
      Db := historyAdd s.hist.Db n d.2 } := by
    rw [← hsi]
    rfl
  have hsz : (historyAdd s.hist.Df n d.1).bufferSz = s.hist.Df.bufferSz ∧
      (historyAdd s.hist.Db n d.2).bufferSz = s.hist.Db.bufferSz :=
    ⟨historyAdd_bufferSz _ _ _, historyAdd_bufferSz _ _ _⟩
  unfold processOWDAsymFull
  rw [hd]
  refine Sat.bind (Q := fun s' =>
      (Tracked ltDbl s'.hist.Df s'.win.shiftEndOWD (n + 1) s'.owd.DfhatShift ∧
        Tracked ltDbl s'.hist.Db s'.win.shiftEndOWD (n + 1) s'.owd.DbhatShift) ∧
      s'.win.shiftWin = s.win.shiftWin ∧ s'.hist.Df.bufferSz = s.hist.Df.bufferSz ∧
        s'.hist.Db.bufferSz = s.hist.Db.bufferSz) ?_ fun s1 h1 => Sat.pure h1
  refine Sat.ite (fun hlt => Sat.pure ?_) fun _ => ?_
  · -- the windows grow to the right, their left ends stay
    change s.si < wsub s.win.shiftWin 1 + s.win.shiftEndOWD at hlt
    rw [hsi, wsub_of_le hshift] at hlt
    obtain ⟨hroomF, hroomB⟩ := hgrow (by omega)
    refine ⟨⟨?_, ?_⟩, rfl, ?_, ?_⟩
    · show Tracked ltDbl (updateOWDMinima d (recordOWD d s)).hist.Df _ _ _
      rw [hhist]
      exact hDf.grow ho hnum.Df hroomF d.1
    · show Tracked ltDbl (updateOWDMinima d (recordOWD d s)).hist.Db _ _ _
      rw [hhist]
      exact hDb.grow ho hnum.Db hroomB d.2
    · show (updateOWDMinima d (recordOWD d s)).hist.Df.bufferSz = _
      rw [hhist]
      exact hsz.1
    · show (updateOWDMinima d (recordOWD d s)).hist.Db.bufferSz = _
      rw [hhist]
      exact hsz.2
  · rw [hhist, show (updateOWDMinima d (recordOWD d s)).si = n from hsi, wsub_of_le (by omega)]
    -- both slide by one
    refine Sat.bind (hDf.slide ho hnum.Df d.1 hokF) fun f hf => ?_
    refine Sat.bind (hDb.slide ho hnum.Db d.2 hokB) fun b hb => Sat.pure ?_
    exact ⟨⟨hf, hb⟩, rfl, hsz⟩

/-- `process_OWDAsym_full` keeps both delays tracked. -/
theorem processOWDAsymFull_tracked (ho : Ordered num) (hsi : s.si = n) (h : OWDHeld n s)
    (hnum : DelayNumbers num s.hist) (st : BidirStamp D) :
    Returns (processOWDAsymFull st s) (OWDHeld (n + 1)) := by
  obtain ⟨hshift, hDf, hDb, hroomDf, hroomDb⟩ := h
  refine (processOWDAsymFull_sat (P := fun _ => True) (H := True) ho hsi hshift hDf hDb hnum st
    (fun hlt => ⟨by omega, by omega⟩) (okFrom_lax (fun _ _ _ _ => True.intro) _ _ _)
    (okFrom_lax (fun _ _ _ _ => True.intro) _ _ _)).returns.mono ?_
  rintro s' ⟨⟨hf, hb⟩, hwin, hszF, hszB⟩
  refine ⟨?_, hf, hb, ?_, ?_⟩
  · rw [hwin]
    exact hshift
  · rw [hwin, hszF]
    exact hroomDf
  · rw [hwin, hszB]
    exact hroomDb

/-- Inside the call for stamp `n`, before its delays are recorded. -/
structure OWDGoing (num : D → Prop) (n : Nat) (s : AlgoState D) : Prop extends OWDHeld n s where
  si : s.si = n
  numbers : DelayNumbers num s.hist

/-- The history window does not touch the shift windows. -/
theorem manageHistorywin_tracked (h : OWDGoing num n s) (st : BidirStamp D) (RTT : VCounter) :
    Returns (manageHistorywin st RTT s) (OWDGoing num n) := by
  refine (manageHistorywin_cases _ _ _).mono ?_
  rintro s' ⟨s1, hs1, hcase⟩
  have h1 : OWDGoing num n s1 := by
    rw [hs1]
    split
    · exact ⟨⟨h.shift, h.Df, h.Db, h.roomDf, h.roomDb⟩, h.si, h.numbers⟩
    · exact h
  rcases hcase with ⟨-, Df, Db, rfl⟩ | ⟨-, rfl⟩
  · exact ⟨⟨h1.shift, h1.Df, h1.Db, h1.roomDf, h1.roomDb⟩, h1.si, h1.numbers⟩
  · exact h1

/-- A stamp of the full phase. -/
theorem fullPhase_tracked (ho : Ordered num) (h : OWDGoing num n s) (inp : Input D) :
    Returns (fullPhase mp inp s) (OWDHeld (n + 1)) := by
  refine Returns.bind (manageHistorywin_tracked h _ _) fun s1 h1 => ?_
  refine Returns.bind (Q := OWDGoing num n) ?_ fun s2 h2 => ?_
  · refine (processRTTFull_frame _ _).mono ?_
    rintro s2 ⟨rtt, e, perr, nhat, h', stt, rfl⟩
    exact ⟨⟨h1.shift, h1.Df, h1.Db, h1.roomDf, h1.roomDb⟩, h1.si, h1.numbers.Df, h1.numbers.Db⟩
  refine Returns.bind (processOWDAsymFull_tracked ho h2.si h2.toOWDHeld h2.numbers _)
    fun s3 h3 => ?_
  refine Returns.bind (Q := OWDHeld (n + 1)) ?_ fun s4 h4 => ?_
  · refine (updateNextPstamp_cases _ _ _).mono ?_
    rintro s4 ⟨c, rfl | ⟨-, -, perr, nhat, rfl⟩⟩
    · exact ⟨h3.shift, h3.Df, h3.Db, h3.roomDf, h3.roomDb⟩
    · exact ⟨h3.shift, h3.Df, h3.Db, h3.roomDf, h3.roomDb⟩
  refine Returns.bind (processPhatFull_frame _ _ _ _) ?_
  rintro s5 ⟨K, phat, perr, c, stt, rfl⟩
  refine Returns.bind (processPlocalFull_frame _ _) ?_
  rintro s6 ⟨en, ends, ploc, out, stt, rfl⟩
  refine Returns.bind (processThetahatFull_frame _ _ _ _ _) ?_
  rintro s7 ⟨t, off, bound, stt, out, rfl, -⟩
  refine (updatePathpenaltyFull_frame _ _ _).mono ?_
  rintro s8 ⟨pen, out, rfl⟩
  exact ⟨h4.shift, h4.Df, h4.Db, h4.roomDf, h4.roomDb⟩

/-! ## The end of warmup -/

/-- A scan gives the minimum that a slide starts from. -/
theorem tracked_scan {z : Nat} {h : History D} {e : Nat} (hk : Kept (some z) (n + 1) h)
    (hfit : n + 1 ≤ z) (he : e ≤ n) : Returns (do
      let k ← historyMinDbl h e n
      historyGet h k) (Tracked ltDbl h e (n + 1)) := by
  have hold := hk.oldest hfit
  obtain ⟨⟨f, hh, -⟩, -⟩ := hk
  have hok : OkFrom (D := D) (fun _ => True) True h e (n + 1) :=
    okFrom_lax (fun _ _ _ _ => True.intro) _ _ _
  refine Returns.bind (Q := MinAt ltDbl f e n)
    (minScan_sat hh he (Nat.lt_succ_self n) hok).returns fun k hk => ?_
  have hkn := hk.right
  refine (historyGet_sat hh (Nat.lt_succ_of_le hkn) (hok k hk.left (by omega)) ?_).returns
  exact ⟨Nat.lt_succ_of_le he, by omega, f, hh, k, hk, rfl⟩

/-- The start of the full phase tracks all three windows. -/
theorem initRTTOWDAsymFull_tracked {F : Nat → BidirStamp D} {W : Nat} (hsi : s.si = n)
    (hfit : n + 1 ≤ W) (hs : Series F (some W) (n + 1) (n + 1) (n + 1) s.hist)
    (hshift : 1 ≤ s.win.shiftWin) (hroom : s.win.shiftWin ≤ W) :
    Returns (initRTTOWDAsymFull s) (OWDHeld (n + 1)) := by
  have hold := hs.RTT.oldest hfit
  obtain ⟨-, hsize⟩ := hs.RTT
  obtain ⟨hW, hdense⟩ := hsize W rfl
  have hend : initShiftEnd s ≤ n := by
    unfold initShiftEnd
    rw [historyOld_eq (hdense.itemCount_ne_zero (Nat.succ_pos n) (by omega)), hold, hsi]
    split <;> omega
  have hDf := (hs.Df.2 W rfl).1
  have hDb := (hs.Db.2 W rfl).1
  unfold initRTTOWDAsymFull
  rw [hsi]
  dsimp only
  rw [← bind_assoc]
  refine Returns.bind (tracked_scan hs.Df hfit hend) fun f hf => ?_
  rw [← bind_assoc]
  refine Returns.bind (tracked_scan hs.Db hfit hend) fun b hb => ?_
  refine Returns.skip fun kr => Returns.skip fun r => Returns.pure ⟨hshift, hf, hb, ?_, ?_⟩
  · exact Nat.le_trans hroom (Nat.le_of_eq hDf.symm)
  · exact Nat.le_trans hroom (Nat.le_of_eq hDb.symm)

/-- A stamp of warmup; the last one starts the shift windows. -/
theorem warmupPhase_tracked {F : Nat → BidirStamp D} {W : Nat} (hsi : s.si = n)
    (hwin : WarmWin s.win) (hW : s.win.warmupWin = W) (hlt : n < W) (st : BidirStamp D)
    (hs : Series F (some W) (n + 1) n n s.hist) :
    Returns (warmupPhase mp st s) fun s' =>
      (n + 1 < W → s'.win = s.win) ∧ (n + 1 = W → OWDHeld (n + 1) s') := by
  have hundred := hwin.hundred
  have hshift := hwin.shift
  have hfit := hwin.shift_le
  refine Returns.bind (warmupAlgos_series hsi st hs) ?_
  rintro s1 ⟨hidx, hwin1, hs1, -⟩
  have hsi1 : s1.si = n := by
    unfold AlgoState.si
    rw [hidx]
    exact hsi
  have hpred : wsub s1.win.warmupWin 1 = W - 1 := by
    rw [hwin1, hW]
    exact wsub_of_le (by omega)
  -- at the last stamp the windows are scanned for the first time
  refine Returns.ite (fun hlast => ?_) fun hmore => ?_
  · rw [hsi1, hpred] at hlast
    refine Returns.bind (initRTTOWDAsymFull_tracked
      (s := { s1 with win := { s1.win with historyEnd := wsub s1.win.hWin 1 } }) hsi1 hlt hs1
      (by show 1 ≤ s1.win.shiftWin; rw [hwin1]; omega)
      (by show s1.win.shiftWin ≤ W; rw [hwin1]; omega)) fun s2 h2 => ?_
    refine Returns.bind (initPhatFull_frame _) ?_
    rintro s3 ⟨pst, perr, rfl⟩
    refine Returns.bind (initPlocalFull_frame _) ?_
    rintro s4 ⟨e, ends, ploc, rfl⟩
    exact Returns.pure ⟨fun h => absurd h (by omega),
      fun _ => ⟨h2.shift, h2.Df, h2.Db, h2.roomDf, h2.roomDb⟩⟩
  · rw [hsi1, hpred] at hmore
    exact Returns.pure ⟨fun _ => hwin1, fun h => absurd h (by omega)⟩

/-! ## A configuration change -/

/-- The RTTs are held at the end of the series. -/
def RTTHeld (n : Nat) (s : AlgoState D) : Prop :=
  s.hist.RTT.oldestI < n ∧ ∃ f, Holds f n s.hist.RTT

/-- Both shift windows are valid. -/
structure ShiftsValid (n : Nat) (s : AlgoState D) : Prop where
  RTT : ShiftValid ltVC s.hist.RTT s.win.shiftEnd n s.rtt.RTThatShift
  Df : ShiftValid ltDbl s.hist.Df s.win.shiftEndOWD n s.owd.DfhatShift
  Db : ShiftValid ltDbl s.hist.Db s.win.shiftEndOWD n s.owd.DbhatShift

/-- Whatever stamp comes next, the shift window of `processRTTFull` and that of
`processOWDAsymFull` move over entries that are held, and what they keep are the minima again. -/
structure NextValid (n : Nat) (s : AlgoState D) : Prop where
  RTT : ∀ st : BidirStamp D, Sat Event.Held False
    (updateRTTShift st.RTT (updateRTTMinima st.RTT (recordStamp st s))) fun s' =>
      ShiftValid ltVC s'.hist.RTT s'.win.shiftEnd (n + 1) s'.rtt.RTThatShift
  OWD : ∀ st : BidirStamp D, Sat Event.Held False
    (processOWDAsymFull st (recordStamp st s)) fun s' =>
      ShiftValid ltDbl s'.hist.Df s'.win.shiftEndOWD (n + 1) s'.owd.DfhatShift ∧
        ShiftValid ltDbl s'.hist.Db s'.win.shiftEndOWD (n + 1) s'.owd.DbhatShift

/-- The size an update gives to the RTT and delay histories in the full phase. -/
def resizedTo (conf : Config D) : Nat := histSz (requiredWarmup conf)

/-- Where the shift window of the RTT starts again, before stamp `n`. -/
def restartedEnd (conf : Config D) (n : Nat) (s : AlgoState D) : Nat :=
  max (n - baseShiftWin conf.metaparam conf.pollPeriod) s.hist.RTT.oldestI

omit [Arith D] in
/-- The capacity of the RTT history, once the warmup is over. -/
theorem histSizes_RTT {si : Nat} {w : Windows} (hle : w.warmupWin ≤ si) :
    (histSizes si w).RTT = histSz (neededWarmup w) := by
  have hmax : max (plocalSpan w) (max w.offsetWin w.shiftWin) = neededWarmup w := by
    unfold neededWarmup
    omega
  unfold histSizes
  rw [if_neg (Nat.not_lt.mpr hle), ← hmax]

omit [Arith D] in
/-- Start the shift window of the RTT again. -/
theorem restartShift_tracked (hsi : s.si = n) (hr : RTTHeld n s) (hshift : 1 ≤ s.win.shiftWin) :
    Sat Event.Held False (restartShift s) fun s' => ∃ v e,
      e = max (n - s.win.shiftWin) s.hist.RTT.oldestI ∧ Tracked ltVC s.hist.RTT e n v ∧ s' =
        { s with
        win := { s.win with shiftEnd := e }
        rtt := { s.rtt with RTThatShift := v } } := by
  obtain ⟨hold, f, hh⟩ := hr
  have hrange := hh.range
  have holdest : historyOld s.hist.RTT = s.hist.RTT.oldestI := historyOld_eq (by omega)
  -- the width back, but not beyond the oldest item
  have hend : restartShiftEnd s = max (n - s.win.shiftWin) s.hist.RTT.oldestI := by
    unfold restartShiftEnd
    dsimp only
    rw [hsi, holdest, wsub_of_le hshift, wsub_of_le (show 1 ≤ n by omega)]
    split
    · rw [wsub_of_le (by omega)]
      omega
    · omega
  generalize he : max (n - s.win.shiftWin) s.hist.RTT.oldestI = e at hend ⊢
  have hok : OkFrom (D := D) Event.Held False s.hist.RTT e n :=
    okFrom_of_held hh (fun _ _ _ _ h1 h2 => ⟨h1, h2⟩) (by omega)
  -- the new window is scanned
  refine Sat.bind (Q := MinAt ltVC f e (n - 1)) ?_ fun k hk => ?_
  · show Sat Event.Held False (minScan ltVC s.hist.RTT (restartShiftEnd s) (wsub s.si 1)) _
    rw [hsi, hend, wsub_of_le (by omega)]
    exact minScan_sat hh (by omega) (by omega) hok
  · have hkn := hk.right
    refine Sat.bind (historyGet_sat hh (show k < n by omega) (hok k hk.left (by omega))
      rfl) fun v hv => Sat.pure ?_
    rw [hend]
    exact ⟨v, e, rfl, ⟨by omega, by omega, f, hh, k, hk, hv.symm⟩, rfl⟩

/-- What an update in the full phase makes of the shift windows. -/
structure Restarted (conf : Config D) (n : Nat) (s s' : AlgoState D) : Prop where
  idx : s'.stampI = s.stampI
  warmupWin : s'.win.warmupWin = s.win.warmupWin
  shiftWin : s'.win.shiftWin = baseShiftWin conf.metaparam conf.pollPeriod
  shiftEnd : s'.win.shiftEnd = restartedEnd conf n s
  started : Tracked ltVC s.hist.RTT (restartedEnd conf n s) n s'.rtt.RTThatShift
  shiftEndOWD : s'.win.shiftEndOWD = s.win.shiftEndOWD
  owd : s'.owd = s.owd
  RTT : s'.hist.RTT = historyResize s.hist.RTT (resizedTo conf)
  Df : s'.hist.Df = historyResize s.hist.Df (resizedTo conf)
  Db : s'.hist.Db = historyResize s.hist.Db (resizedTo conf)

/-- An update restarts the RTT window where it is held. -/
theorem reactToUpdate_restarted (conf : Config D) (hidx : s.stampI = n) (hW : s.win.warmupWin ≤ n)
    (hr : RTTHeld n s) (hupd : conf.algoUpdate = true) :
    Sat Event.Held False (reactToUpdate conf s) (Restarted conf n s) := by
  have hsi : s.si = n := si_of_idx hidx
  have hok := newWindows_ok conf.metaparam conf.pollPeriod s.win
  obtain ⟨poll, -, hset⟩ := newParams_frame conf.metaparam conf.pollPeriod s
  unfold reactToUpdate updateState
  rw [if_pos hupd, hset]
  refine Sat.bind (Sat.ite (fun hlt => absurd (hsi ▸ hlt) (Nat.not_lt.mpr hW)) fun _ =>
    restartShift_tracked hsi hr (Nat.le_trans (by decide) hok.shift)) ?_
  rintro s1 ⟨v, e, he, htracked, rfl⟩
  have hsizes : (histSizes s.si { newWindows conf.metaparam conf.pollPeriod s.win with
      shiftEnd := e }).RTT = resizedTo conf :=
    histSizes_RTT (hsi.symm ▸ hW)
  refine Sat.pure ⟨rfl, rfl, rfl, he, ?_, rfl, rfl, ?_, ?_, ?_⟩
  · rw [he] at htracked
    exact htracked
  · exact congrArg (historyResize s.hist.RTT) hsizes
  · exact congrArg (historyResize s.hist.Df) hsizes
  · exact congrArg (historyResize s.hist.Db) hsizes

/-- It keeps the one-way windows if the new capacity reaches back to them. -/
theorem Restarted.held {conf : Config D} {s' : AlgoState D} (h : Restarted conf n s s')
    (hs : OWDHeld n s) (hreach : n ≤ s.win.shiftEndOWD + resizedTo conf)
    (hroom : baseShiftWin conf.metaparam conf.pollPeriod ≤ resizedTo conf) : OWDHeld n s' := by
  have hundred : 100 ≤ baseShiftWin conf.metaparam conf.pollPeriod := Nat.le_max_right _ _
  refine ⟨?_, ?_, ?_, ?_, ?_⟩
  · rw [h.shiftWin]
    omega
  · rw [h.Df, h.shiftEndOWD, h.owd]
    exact hs.Df.resize hreach
  · rw [h.Db, h.shiftEndOWD, h.owd]
    exact hs.Db.resize hreach
  · rw [h.Df, historyResize_bufferSz, h.shiftWin]
    exact hroom
  · rw [h.Db, historyResize_bufferSz, h.shiftWin]
    exact hroom

/-! ## The stamp after a change -/

/-- The shift window of the RTT, with room for one more item. -/
theorem updateRTTShift_tracked (hsi : s.si = n)
    (hs : Tracked ltVC s.hist.RTT s.win.shiftEnd n s.rtt.RTThatShift)
    (hroom : n + 1 ≤ s.win.shiftEnd + s.hist.RTT.bufferSz) (st : BidirStamp D) :
    Sat Event.Held False (updateRTTShift st.RTT (updateRTTMinima st.RTT (recordStamp st s)))
      fun s' => Tracked ltVC s'.hist.RTT s'.win.shiftEnd (n + 1) s'.rtt.RTThatShift := by
  have hleft := hs.left
  have hhist : (updateRTTMinima st.RTT (recordStamp st s)).hist.RTT =
      historyAdd s.hist.RTT n st.RTT := by
    rw [← hsi]
    rfl
  refine Sat.ite (fun _ => Sat.pure ?_) fun _ => ?_
  · show Tracked ltVC (updateRTTMinima st.RTT (recordStamp st s)).hist.RTT _ _ _
    rw [hhist]
    refine hs.grow_of hroom fun f hf hk => ?_
    have hgrow := hk.snoc_min
    rw [show n - 1 + 1 = n by omega, hf] at hgrow
    exact hgrow
  · rw [hhist, show (updateRTTMinima st.RTT (recordStamp st s)).si = n from hsi,
      wsub_of_le (by omega)]
    refine Sat.bind (hs.slide_of (decide_eq_true rfl) st.RTT (hs.okFrom hroom st.RTT))
      fun v hv => Sat.pure ?_
    show Tracked ltVC (updateRTTMinima st.RTT (recordStamp st s)).hist.RTT _ _ _
    rw [hhist]
    exact hv

/-- A stamp with the largest RTT shows whether there is room. -/
theorem updateRTTShift_room (hsi : s.si = n) (hshift : 3 ≤ s.win.shiftWin)
    (hs : Tracked ltVC s.hist.RTT s.win.shiftEnd n s.rtt.RTThatShift) {st : BidirStamp D}
    (hmax : ¬ st.RTT < s.rtt.RTThatShift)
    (hsat : Sat Event.Held False
      (updateRTTShift st.RTT (updateRTTMinima st.RTT (recordStamp st s))) fun s' =>
        ShiftValid ltVC s'.hist.RTT s'.win.shiftEnd (n + 1) s'.rtt.RTThatShift) :
    n + 1 ≤ s.win.shiftEnd + s.hist.RTT.bufferSz := by
  have hleft := hs.left
  have hhist : (updateRTTMinima st.RTT (recordStamp st s)).hist.RTT =
      historyAdd s.hist.RTT n st.RTT := by
    rw [← hsi]
    rfl
  unfold updateRTTShift at hsat
  split at hsat
  · -- the window grows, and its left end has to be held still
    have hv := hsat.res rfl
    have hheld := (hv.held s.win.shiftEnd (Nat.le_refl _) (by omega)).1
    change (updateRTTMinima st.RTT (recordStamp st s)).hist.RTT.oldestI ≤ _ at hheld
    rw [hhist] at hheld
    exact hs.room hheld
  · next hslide =>
    change ¬ s.si < wsub s.win.shiftWin 1 + s.win.shiftEnd at hslide
    rw [hsi, wsub_of_le (by omega)] at hslide
    rw [hhist, show (updateRTTMinima st.RTT (recordStamp st s)).si = n from hsi,
      wsub_of_le (by omega)] at hsat
    exact hs.room_of_slide (by omega) (decide_eq_false hmax) fun ev hev =>
      hsat.1 ev (mem_bind_log_left hev)

/-- A stamp that is sent off later than any clock can tell has no new minimum of `Df`. -/
theorem processOWDAsymFull_room (hsi : s.si = n) (hshift : 3 ≤ s.win.shiftWin)
    (hs : Tracked ltDbl s.hist.Df s.win.shiftEndOWD n s.owd.DfhatShift) {st : BidirStamp D}
    (hmax : ¬ (rawOWD s st).1 < s.owd.DfhatShift)
    (hsat : Sat Event.Held False (processOWDAsymFull st (recordStamp st s)) fun s' =>
      ShiftValid ltDbl s'.hist.Df s'.win.shiftEndOWD (n + 1) s'.owd.DfhatShift) :
    n + 1 ≤ s.win.shiftEndOWD + s.hist.Df.bufferSz := by
  have hleft := hs.left
  unfold processOWDAsymFull at hsat
  generalize hd : rawOWD (recordStamp st s) st = d at hsat
  change rawOWD s st = d at hd
  have hhist : (updateOWDMinima d (recordOWD d (recordStamp st s))).hist.Df =
      historyAdd s.hist.Df n d.1 := by
    rw [← hsi]
    rfl
  dsimp only at hsat
  by_cases hgrow : s.si < wsub s.win.shiftWin 1 + s.win.shiftEndOWD
  · -- the window grows, and its left end has to be held still
    have hpure : updateOWDShift d (updateOWDMinima d (recordOWD d (recordStamp st s))) = pure _ :=
      if_pos hgrow
    rw [hpure] at hsat
    have hv := hsat.res rfl
    have hheld := (hv.held s.win.shiftEndOWD (Nat.le_refl _) (by omega)).1
    change (updateOWDMinima d (recordOWD d (recordStamp st s))).hist.Df.oldestI ≤ _ at hheld
    rw [hhist] at hheld
    exact hs.room hheld
  · have hslide : updateOWDShift d (updateOWDMinima d (recordOWD d (recordStamp st s))) = _ :=
      if_neg hgrow
    rw [hslide, hhist, show (updateOWDMinima d (recordOWD d (recordStamp st s))).si = n from hsi,
      wsub_of_le (by omega)] at hsat
    rw [hsi, wsub_of_le (by omega)] at hgrow
    rw [hd] at hmax
    exact hs.room_of_slide (by omega) (decide_eq_false hmax) fun ev hev =>
      hsat.1 ev (mem_bind_log_left (mem_bind_log_left hev))

/-- The resized histories reach back to the left ends of both windows, and have room for the next
item beside. -/
structure ReachBack (conf : Config D) (n : Nat) (s : AlgoState D) : Prop where
  OWD : n + 1 ≤ s.win.shiftEndOWD + resizedTo conf
  RTT : n + 1 ≤ restartedEnd conf n s + resizedTo conf

section Valid

variable {conf : Config D} {s' : AlgoState D}

/-- And the stamp counter. -/
theorem Restarted.si (h : Restarted conf n s s') (hsi : s.si = n) : s'.si = n := by
  unfold AlgoState.si
  rw [h.idx]
  exact hsi

/-- Windows that fit are valid, and the next stamp keeps them valid. -/
theorem Restarted.valid (ho : Ordered num) (h : Restarted conf n s s') (hsi : s.si = n)
    (hs : OWDHeld n s) (hnum : DelayNumbers num s.hist) (hr : ReachBack conf n s) :
    ShiftsValid n s' ∧ NextValid n s' := by
  obtain ⟨hOWD, hRTT⟩ := hr
  have hundred : 100 ≤ baseShiftWin conf.metaparam conf.pollPeriod := Nat.le_max_right _ _
  have hR : Tracked ltVC s'.hist.RTT s'.win.shiftEnd n s'.rtt.RTThatShift := by
    rw [h.RTT, h.shiftEnd]
    exact h.started.resize (Nat.le_of_succ_le hRTT)
  have hDf : Tracked ltDbl s'.hist.Df s'.win.shiftEndOWD n s'.owd.DfhatShift := by
    rw [h.Df, h.shiftEndOWD, h.owd]
    exact hs.Df.resize (Nat.le_of_succ_le hOWD)
  have hDb : Tracked ltDbl s'.hist.Db s'.win.shiftEndOWD n s'.owd.DbhatShift := by
    rw [h.Db, h.shiftEndOWD, h.owd]
    exact hs.Db.resize (Nat.le_of_succ_le hOWD)
  have hroomR : n + 1 ≤ s'.win.shiftEnd + s'.hist.RTT.bufferSz := by
    rw [h.RTT, h.shiftEnd, historyResize_bufferSz]
    exact hRTT
  have hroomF : n + 1 ≤ s'.win.shiftEndOWD + s'.hist.Df.bufferSz := by
    rw [h.Df, h.shiftEndOWD, historyResize_bufferSz]
    exact hOWD
  have hroomB : n + 1 ≤ s'.win.shiftEndOWD + s'.hist.Db.bufferSz := by
    rw [h.Db, h.shiftEndOWD, historyResize_bufferSz]
    exact hOWD
  have hnum' : DelayNumbers num s'.hist := by
    obtain ⟨f, hf, -⟩ := hs.Df.isMin
    obtain ⟨b, hb, -⟩ := hs.Db.isMin
    constructor
    · rw [h.Df]
      exact hnum.Df.resize hf _
    · rw [h.Db]
      exact hnum.Db.resize hb _
  have hshift : 1 ≤ s'.win.shiftWin := by
    rw [h.shiftWin]
    omega
  -- valid now, and held at the next stamp
  refine ⟨⟨hR.valid strictLt_ltVC, hDf.valid ho.strict, hDb.valid ho.strict⟩, fun st => ?_,
    fun st => ?_⟩
  · exact (updateRTTShift_tracked (h.si hsi) hR hroomR st).mono fun _ h1 => h1.valid strictLt_ltVC
  · refine (processOWDAsymFull_sat (s := recordStamp st s') ho (h.si hsi) hshift hDf hDb
      ⟨hnum'.Df, hnum'.Db⟩ st (fun _ => ⟨hroomF, hroomB⟩) (hDf.okFrom hroomF _)
      (hDb.okFrom hroomB _)).mono ?_
    rintro s'' ⟨⟨hf, hb⟩, -⟩
    exact ⟨hf.valid ho.strict, hb.valid ho.strict⟩

/-- Conversely: of `far`, every raw forward delay is as long as any other. -/
theorem Restarted.reachBack {far : BidirStamp D} (h : Restarted conf n s s') (hsi : s.si = n)
    (hs : OWDHeld n s) (hfar : ∀ (s : AlgoState D) (v : D), ¬ (rawOWD s far).1 < v)
    (hv : ShiftsValid n s') (hnext : NextValid n s') : ReachBack conf n s := by
  have hundred : 100 ≤ baseShiftWin conf.metaparam conf.pollPeriod := Nat.le_max_right _ _
  have hshift : 3 ≤ s'.win.shiftWin := by
    rw [h.shiftWin]
    omega
  have hfitF : n ≤ s.win.shiftEndOWD + resizedTo conf := by
    have hDf := hv.Df
    rw [h.Df, h.shiftEndOWD, h.owd] at hDf
    exact hDf.fits hs.Df
  have hfitR : n ≤ restartedEnd conf n s + resizedTo conf := by
    have hRTT := hv.RTT
    rw [h.RTT, h.shiftEnd] at hRTT
    exact hRTT.fits h.started
  constructor
  · have hDf : Tracked ltDbl s'.hist.Df s'.win.shiftEndOWD n s'.owd.DfhatShift := by
      rw [h.Df, h.shiftEndOWD, h.owd]
      exact hs.Df.resize hfitF
    have hroom := processOWDAsymFull_room (h.si hsi) hshift hDf (hfar s' _)
      ((hnext.OWD far).mono fun _ h1 => h1.1)
    rw [h.Df, h.shiftEndOWD, historyResize_bufferSz] at hroom
    exact hroom
  · have hR : Tracked ltVC s'.hist.RTT s'.win.shiftEnd n s'.rtt.RTThatShift := by
      rw [h.RTT, h.shiftEnd]
      exact h.started.resize hfitR
    -- the RTT of this stamp is the largest counter value, and no new minimum
    have hmax : ¬ ({ (0 : BidirStamp D) with Ta := 1, Tf := 0 } : BidirStamp D).RTT <
        s'.rtt.RTThatShift :=
      UInt64.not_lt.mpr (UInt64.le_iff_toNat_le.mpr (Nat.le_pred_of_lt (UInt64.toNat_lt _)))
    have hroom := updateRTTShift_room (h.si hsi) hshift hR hmax (hnext.RTT _)
    rw [h.RTT, h.shiftEnd, historyResize_bufferSz] at hroom
    exact hroom

end Valid

end State

/-! ## Calls -/

section Call

variable {D : Type} [Arith D] {num : D → Prop} {F : Nat → BidirStamp D} {n : Nat}
  {s : AlgoState D} {mp : Metaparam D}

/-- In a call with an update in the full phase, the resized histories have room for a shift window,
and reach back to the left end of the one of the OWDs. In all calls of the full phase the delays so
far are numbers, and in warmup the windows fit the histories. -/
structure KeepsShifts (num : D → Prop) (c : Call D) (s : AlgoState D) : Prop where
  warmup : WarmupFits c.conf s
  numbers : NextFull s → DelayNumbers num s.hist
  room : c.conf.algoUpdate = true → NextFull s →
    baseShiftWin c.conf.metaparam c.conf.pollPeriod ≤ resizedTo c.conf
  reach : c.conf.algoUpdate = true → NextFull s →
    s.stampI + 1 ≤ s.win.shiftEndOWD + resizedTo c.conf

/-- The invariant between calls, after `n` stamps. -/
structure ShiftInv (F : Nat → BidirStamp D) (n : Nat) (s : AlgoState D) : Prop
    extends HistInv F true n s where
  warmWin : n < s.win.warmupWin → WarmWin s.win
  rtt : s.win.warmupWin ≤ n → s.hist.RTT.oldestI < n
  tracked : s.win.warmupWin ≤ n → OWDHeld n s

/-- A call keeps the windows of warmup fit for one another. -/
theorem reactToUpdate_warmWin (conf : Config D) (hsi : s.si = n) (hlt : n < s.win.warmupWin)
    (hwin : WarmWin s.win) : Returns (reactToUpdate conf s) fun s' => WarmWin s'.win := by
  refine Returns.ite (fun _ => ?_) fun _ => Returns.pure hwin
  refine (updateState_cases _ _ _).mono ?_
  rintro s' ⟨poll, -, ⟨-, rfl⟩ | ⟨hge, -⟩⟩
  · exact warmWindows_ok conf.minPoll (newWindows_ok _ _ _) fun _ => hwin.hundred
  · rw [hsi] at hge
    exact absurd hlt (Nat.not_lt.mpr hge)

/-- The end of a call leaves histories, windows and minima alone. -/
theorem endCall_owd (st : BidirStamp D) : Returns (endCall mp st s) fun s' =>
    s'.hist = s.hist ∧ s'.win = s.win ∧ s'.owd = s.owd := by
  obtain ⟨stats, hcopy⟩ := copyStamp_frame st s
  unfold endCall
  rw [hcopy]
  refine Returns.bind (updateErrors_frame _ _ _) ?_
  rintro s1 ⟨err, rfl⟩
  exact Returns.pure ⟨rfl, rfl, rfl⟩

/-- The one-way windows are a matter of three fields. -/
theorem OWDHeld.congr {s' : AlgoState D} (h : OWDHeld n s) (hhist : s'.hist = s.hist)
    (hwin : s'.win = s.win) (howd : s'.owd = s.owd) : OWDHeld n s' := by
  constructor
  · rw [hwin]
    exact h.shift
  · rw [hhist, hwin, howd]
    exact h.Df
  · rw [hhist, hwin, howd]
    exact h.Db
  · rw [hhist, hwin]
    exact h.roomDf
  · rw [hhist, hwin]
    exact h.roomDb

/-- A call in warmup, after the first stamp. -/
theorem RADalgoBidir_tracked_warm (conf : Config D) (inp : Input D) (hinp : inp.stamp = F n)
    (h : ShiftInv F n s) (hlt : n < s.win.warmupWin) (hfit : WarmupFits conf s) :
    Returns (RADalgoBidir conf inp s) fun s' => n + 1 ≤ s'.win.warmupWin ∧
      (n + 1 < s'.win.warmupWin → WarmWin s'.win) ∧
        (s'.win.warmupWin ≤ n + 1 → OWDHeld (n + 1) s') := by
  have hidx := h.idx
  have hpos := h.pos
  have hnext : nextStamp conf s = { s with stampI := s.stampI + 1 } :=
    nextStamp_later conf (by omega)
  obtain ⟨hhalf, hsmall, hseries⟩ := h.warm (Nat.le_of_lt hlt)
  have hlate := h.late
  rw [Nat.sub_eq_zero_of_le (Nat.le_of_lt hlt)] at hlate
  have hw : Warming F true n { s with stampI := s.stampI + 1 } :=
    ⟨hidx, hlt, h.hundred, hhalf, hsmall, hseries, h.noHats hlt, hlate⟩
  have hfits : conf.algoUpdate = true → requiredWarmup conf + n < 2 ^ 32 := by
    intro hupd
    have hfits := hfit (Or.inr ⟨hupd, by omega⟩)
    rw [hidx] at hfits
    exact hfits
  -- the update, and then the phase
  have hphases : Returns (beginCall ⟨conf, inp⟩ s >>= phases conf inp) fun s' =>
      n + 1 ≤ s'.win.warmupWin ∧ (n + 1 < s'.win.warmupWin → WarmWin s'.win) ∧
        (s'.win.warmupWin ≤ n + 1 → OWDHeld (n + 1) s') := by
    unfold beginCall
    rw [hnext, bind_assoc]
    refine Returns.bind ((reactToUpdate_warming conf hw fun _ => hfits).and
      (reactToUpdate_warmWin conf (si_of_idx hidx) hlt (h.warmWin hlt))) fun s0 h0 => ?_
    obtain ⟨h0, hwin0⟩ := h0
    rw [pure_bind]
    have hsi0 := si_of_idx h0.idx
    have hidx0 := h0.idx
    have hmore := h0.more
    have hlate0 := h0.late
    have hseries0 := hinp ▸ h0.series.record h0.idx
    refine Returns.ite (fun hz => absurd (h0.idx.symm.trans hz) (by omega)) fun _ => ?_
    refine Returns.ite (fun _ => ?_) fun hge => absurd (show s0.si < s0.win.warmupWin by omega) hge
    refine ((warmupPhase_tracked (s := recordStamp inp.stamp s0) hsi0 hwin0 rfl hmore inp.stamp
      hseries0).and (warmupPhase_series (s := recordStamp inp.stamp s0) hsi0 hmore inp.stamp
        hseries0 h0.noHats ⟨hlate0.Dfhat, hlate0.Dbhat, hlate0.Asymhat⟩)).mono ?_
    rintro s1 ⟨⟨hwarm1, hfull1⟩, -, hW1, -⟩
    rw [hW1]
    refine ⟨hmore, fun hlt1 => ?_, fun hle1 => hfull1 ?_⟩
    · rw [hwarm1 hlt1]
      exact hwin0
    · show n + 1 = s0.win.warmupWin
      change s0.win.warmupWin ≤ n + 1 at hle1
      omega
  rw [RADalgoBidir_eq ⟨conf, inp⟩]
  refine Returns.bind hphases fun s1 h1 => (endCall_owd inp.stamp).mono ?_
  rintro s2 ⟨hhist2, hwin2, howd2⟩
  rw [hwin2]
  exact ⟨h1.1, h1.2.1, fun hle => (h1.2.2 hle).congr hhist2 hwin2 howd2⟩

/-- At the start of a call in the full phase, once its update is done. -/
structure FullStart (num : D → Prop) (n : Nat) (s : AlgoState D) : Prop where
  idx : s.stampI = n
  full : s.win.warmupWin ≤ n
  rtt : s.hist.RTT.oldestI < n
  held : OWDHeld n s
  numbers : DelayNumbers num s.hist

/-- After an update or none the full phase may start. -/
theorem reactToUpdate_fullStart (conf : Config D) (inp : Input D) (h : ShiftInv F n s)
    (hW : s.win.warmupWin ≤ n) (hc : KeepsShifts num ⟨conf, inp⟩ s) :
    Returns (reactToUpdate conf { s with stampI := s.stampI + 1 }) (FullStart num n) := by
  have hidx := h.idx
  have hpos := h.pos
  have hheld := h.tracked hW
  have hheld' : OWDHeld n { s with stampI := s.stampI + 1 } :=
    ⟨hheld.shift, hheld.Df, hheld.Db, hheld.roomDf, hheld.roomDb⟩
  obtain ⟨⟨fR, hR, -⟩, -⟩ := h.series.RTT
  obtain ⟨⟨fF, hF, -⟩, -⟩ := h.series.Df
  obtain ⟨⟨fB, hB, -⟩, -⟩ := h.series.Db
  have hfullNext : NextFull s := ⟨by omega, by omega⟩
  have hnumbers := hc.numbers hfullNext
  by_cases hupd : conf.algoUpdate = true
  · have hreach := hc.reach hupd hfullNext
    rw [hidx] at hreach
    have hroom : baseShiftWin conf.metaparam conf.pollPeriod ≤ resizedTo conf :=
      hc.room hupd hfullNext
    have hundred : 100 ≤ baseShiftWin conf.metaparam conf.pollPeriod := Nat.le_max_right _ _
    refine (reactToUpdate_restarted (s := { s with stampI := s.stampI + 1 }) conf hidx hW
      ⟨h.rtt hW, fR, hR⟩ hupd).returns.mono fun s0 h0 => ?_
    refine ⟨h0.idx.trans hidx, h0.warmupWin ▸ hW, ?_, h0.held hheld' ?_ hroom, ?_, ?_⟩
    · -- of a history with slots the newest item is left
      rw [h0.RTT]
      have hlast : (historyResize s.hist.RTT (resizedTo conf)).oldestI ≤ n - 1 :=
        historyResize_oldest_le hR (Nat.le_sub_one_of_lt (h.rtt hW)) (by omega)
      exact Nat.lt_of_le_of_lt hlast (by omega)
    · show n ≤ s.win.shiftEndOWD + resizedTo conf
      exact_mod_cast hreach
    · rw [h0.Df]
      exact hnumbers.Df.resize hF _
    · rw [h0.Db]
      exact hnumbers.Db.resize hB _
  · unfold reactToUpdate
    rw [if_neg hupd]
    exact Returns.pure ⟨hidx, hW, h.rtt hW, hheld', hnumbers⟩

/-- Either phase keeps the windows tracked. -/
theorem phases_tracked (ho : Ordered num) (conf : Config D) (inp : Input D) (hn : 0 < n)
    (h : FullStart num n s) :
    Returns (phases conf inp (recordStamp inp.stamp s)) fun s' =>
      s'.win.warmupWin ≤ n + 1 ∧ s'.hist.RTT.oldestI < n + 1 ∧ OWDHeld (n + 1) s' := by
  obtain ⟨hidx, hW, hrtt, hheld, hnum⟩ := h
  have hsi : s.si = n := si_of_idx hidx
  have hne : (recordStamp inp.stamp s).stampI ≠ 0 := by
    show s.stampI ≠ 0
    omega
  -- the warmup is over
  have hfull : phases conf inp (recordStamp inp.stamp s) =
      fullPhase conf.metaparam inp (recordStamp inp.stamp s) := by
    unfold phases
    rw [if_neg hne]
    exact if_neg (show ¬ s.si < s.win.warmupWin by omega)
  have howd : Returns (phases conf inp (recordStamp inp.stamp s)) (OWDHeld (n + 1)) := by
    rw [hfull]
    exact fullPhase_tracked (s :=
      recordStamp inp.stamp s) ho ⟨⟨hheld.shift, hheld.Df, hheld.Db, hheld.roomDf, hheld.roomDb⟩,
      hsi, hnum.Df, hnum.Db⟩ inp
  refine ((phases_series conf inp hne).and howd).mono ?_
  rintro s1 ⟨⟨hsame, -⟩, hheld1⟩
  have hadd := historyAdd_oldest_le s.hist.RTT s.si inp.stamp.RTT
  refine ⟨?_, ?_, hheld1⟩
  · rw [hsame.warmupWin]
    exact Nat.le_succ_of_le hW
  rw [hsame.RTT]
  show (historyAdd s.hist.RTT s.si inp.stamp.RTT).oldestI < n + 1
  omega

/-- A call in the full phase. -/
theorem RADalgoBidir_tracked_full (ho : Ordered num) (conf : Config D) (inp : Input D)
    (h : ShiftInv F n s) (hW : s.win.warmupWin ≤ n) (hc : KeepsShifts num ⟨conf, inp⟩ s) :
    Returns (RADalgoBidir conf inp s) fun s' => s'.win.warmupWin ≤ n + 1 ∧
      s'.hist.RTT.oldestI < n + 1 ∧ OWDHeld (n + 1) s' := by
  have hidx := h.idx
  have hpos := h.pos
  have hnext : nextStamp conf s = { s with stampI := s.stampI + 1 } :=
    nextStamp_later conf (by omega)
  have hbegin : Returns (beginCall ⟨conf, inp⟩ s >>= phases conf inp) fun s' =>
      s'.win.warmupWin ≤ n + 1 ∧ s'.hist.RTT.oldestI < n + 1 ∧ OWDHeld (n + 1) s' := by
    unfold beginCall
    rw [hnext, bind_assoc]
    refine Returns.bind (reactToUpdate_fullStart conf inp h hW hc) fun s0 h0 => ?_
    rw [pure_bind]
    exact phases_tracked ho conf inp hpos h0
  rw [RADalgoBidir_eq ⟨conf, inp⟩]
  refine Returns.bind hbegin fun s1 h1 => (endCall_owd inp.stamp).mono ?_
  rintro s2 ⟨hhist2, hwin2, howd2⟩
  exact ⟨hwin2 ▸ h1.1, hhist2 ▸ h1.2.1, h1.2.2.congr hhist2 hwin2 howd2⟩

/-- One call. -/
theorem RADalgoBidir_shiftInv (ho : Ordered num) (c : Call D) (hinp : c.inp.stamp = F n)
    (h : ShiftInv F n s) (hc : KeepsShifts num c s) :
    Returns (RADalgoBidir c.conf c.inp s) (ShiftInv F (n + 1)) := by
  have hhist := RADalgoBidir_hist c.conf c.inp hinp h.toHistInv fun _ => hc.warmup
  by_cases hW : n < s.win.warmupWin
  · refine (hhist.and (RADalgoBidir_tracked_warm c.conf c.inp hinp h hW hc.warmup)).mono ?_
    rintro s' ⟨hinv, hmore, hwarm, hfull⟩
    refine ⟨hinv, hwarm, fun hle => ?_, hfull⟩
    -- the last stamp of warmup: nothing has been lost yet
    obtain ⟨-, -, hseries⟩ := hinv.warm hmore
    rw [hseries.RTT.oldest hmore]
    exact Nat.succ_pos n
  · refine (hhist.and (RADalgoBidir_tracked_full ho c.conf c.inp h (Nat.not_lt.mp hW) hc)).mono ?_
    rintro s' ⟨hinv, hle, hrtt, hheld⟩
    exact ⟨hinv, fun hlt => absurd hle (Nat.not_le.mpr hlt), fun _ => hrtt, fun _ => hheld⟩

/-- The first stamp. -/
theorem RADalgoBidir_shiftInv_first (c : Call D) (hinp : c.inp.stamp = F 0)
    (hc : KeepsShifts num c (AlgoState.zero : AlgoState D)) :
    Returns (RADalgoBidir c.conf c.inp AlgoState.zero) (ShiftInv F 1) := by
  have hinv : Returns (RADalgoBidir c.conf c.inp AlgoState.zero) (Inv (fun _ => c.inp.stamp) 1) :=
    (inv_init (accepts_any _ _) c.conf c.inp rfl).returns
  have hhist : Returns (RADalgoBidir c.conf c.inp AlgoState.zero) (HistInv F true 1) :=
    RADalgoBidir_hist_first c.conf c.inp hinp fun _ => hc.warmup
  refine (hhist.and hinv).mono ?_
  rintro s ⟨hhist, hinv⟩
  have hundred := hhist.hundred
  refine ⟨hhist, fun hlt => ?_, fun hle => absurd hle (by omega), fun hle => absurd hle (by omega)⟩
  rcases hinv.phase with ⟨hwarm, -⟩ | ⟨-, hle⟩
  · exact hwarm.win
  · exact absurd hle (by omega)

end Call

/-! ## Runs -/

section Run

variable {D : Type} [Arith D] {num : D → Prop}

/-- A run from its first stamp. -/
theorem run_shiftInv (ho : Ordered num) {cs : List (Call D)} (hne : cs ≠ [])
    (hm : RunMeets (KeepsShifts num) cs AlgoState.zero) :
    Returns (run cs) (ShiftInv (stampsOf cs) cs.length) := by
  cases cs with
  | nil => exact absurd rfl hne
  | cons c cs =>
    exact run_returns (fun hinp hc => RADalgoBidir_shiftInv_first c hinp hc)
      (fun n c' s hinp h hc => RADalgoBidir_shiftInv ho c' hinp h hc) (follows_stampsOf (c :: cs))
      hm

end Run

end RADclock
