import Mathlib.Logic.Function.Basic
import RADclock.Sync.Types

/-!
# Per-stamp histories (`sync_history.c`)

A `history` is a circular buffer indexed by the global stamp number: item `i` lives
in slot `i % buffer_sz`, and the range `[oldest_i, newest_i]` says which indices are
still there. `history_find` checks the left end of that range only.

- The functions of `sync_history.c`, as the source has them. The scans that return
  the index or the value of a minimum exist in two versions, for counters and for
  doubles, which differ in the comparison alone.
- `Holds f n h`: the history `h` stores the last items of the series `f`, of which
  `n` have been added. `history_add` and `history_resize` keep it, and under it a
  lookup of a held index returns the item of that index.
- `Ok`: what a proof has to supply for one lookup. Each scan then has one rule, which
  asks `Ok` for the indices it may visit.
-/

namespace RADclock

open Lib

/-- `history`: `buffer` is read at slots below `bufferSz` only. Two fields are not in the source:
the name, which labels the events, and the ghost `added`, the last item that `history_add` was
given for each index, which no function reads. -/
structure History (α : Type) where
  name : HistName
  buffer : Nat → α
  bufferSz : Nat
  itemCount : Nat
  oldestI : Nat
  newestI : Int
  added : Nat → Option α

variable {D α : Type}

/-! ## Storage -/

/-- `history_init`: an empty history over a zeroed buffer. -/
def historyInit [Zero α] (name : HistName) (bufferSz : Nat) : History α where
  name := name
  buffer := fun _ => 0
  bufferSz := bufferSz
  itemCount := 0
  oldestI := 0
  newestI := -1
  added := fun _ => none

/-- `history_add`: insert the item with index `i`; when the buffer is full the oldest
item is lost. -/
def historyAdd (h : History α) (i : Nat) (item : α) : History α :=
  if (i : Int) = h.newestI then h  -- already stored, aborting
  else
    { h with
      buffer := Function.update h.buffer (i % h.bufferSz) item
      newestI := h.newestI + 1
      itemCount := if h.itemCount < h.bufferSz then h.itemCount + 1 else h.itemCount
      oldestI := if h.itemCount < h.bufferSz then h.oldestI else h.oldestI + 1
      added := Function.update h.added i (some item) }

/-- `history_old`: the oldest index held, or `-1` as an `unsigned long` when empty. -/
def historyOld (h : History α) : Nat :=
  if h.itemCount = 0 then 2 ^ 64 - 1 else h.oldestI

/-- `history_find`: a pointer to the slot of index `i`, or null below `oldest_i`. -/
def historyFind (h : History α) (i : Nat) : Algo D (Option α) := do
  Exec.emit (.find h.name i h.oldestI h.newestI)
  if i < h.oldestI then pure none
  else pure (some (h.buffer (i % h.bufferSz)))

/-- `*history_find(h, i)`, the way nearly every caller reads an item. -/
def historyGet (h : History α) (i : Nat) : Algo D α := do
  let p ← historyFind h i
  Exec.deref p

/-- `*history_find(h, i) = item`: overwrite in place. -/
def historySet (h : History α) (i : Nat) (item : α) : Algo D (History α) := do
  let p ← historyFind h i
  let _ ← Exec.deref p
  pure { h with buffer := Function.update h.buffer (i % h.bufferSz) item }

/-- The copy loop of `history_resize` over `n` items from index `j` on. -/
def copyItems (old : Nat → α) (oldSz newSz : Nat) : Nat → Nat → (Nat → α) → Nat → α
  | _, 0, b => b
  | j, n + 1, b =>
    copyItems old oldSz newSz (j + 1) n (Function.update b (j % newSz) (old (j % oldSz)))

/-- The oldest index that survives a resize to `newSize`. -/
def resizeOldest (h : History α) (newSize : Nat) : Nat :=
  if newSize < h.itemCount then (h.newestI - newSize + 1).toNat else h.oldestI

/-- `history_resize`: keep as many of the newest items as fit. -/
def historyResize [Zero α] (h : History α) (newSize : Nat) : History α :=
  if newSize = h.bufferSz then h  -- nothing to do
  else if h.itemCount = 0 then { h with buffer := fun _ => 0, bufferSz := newSize }
  else
    { h with
      buffer := copyItems h.buffer h.bufferSz newSize (resizeOldest h newSize)
        (h.newestI + 1 - resizeOldest h newSize).toNat (fun _ => 0)
      bufferSz := newSize
      itemCount := min h.itemCount newSize
      oldestI := resizeOldest h newSize }

/-! ## Minimum detection and tracking -/

/-- The loop of `history_min`: `j` is the last index seen, `minCurr` and `indCurr` the
best so far. -/
def minLoop (lt : α → α → Bool) (h : History α) :
    Nat → Nat → Option α → Nat → Algo D Nat
  | 0, _, _, indCurr => pure indCurr
  | k + 1, j, minCurr, indCurr => do
    let tmp ← historyFind h (j + 1)
    let t ← Exec.deref tmp
    let m ← Exec.deref minCurr
    if lt t m then minLoop lt h k (j + 1) tmp (j + 1)
    else minLoop lt h k (j + 1) minCurr indCurr

/-- Scan `[j, i]` for the first index of a minimum, by the comparison `lt`. -/
def minScan (lt : α → α → Bool) (h : History α) (j i : Nat) : Algo D Nat := do
  let minCurr ← historyFind h j
  minLoop lt h (i - j) j minCurr j

/-- Slide the window `[j, i]` by one, given and returning the index of a minimum. -/
def minSlide (lt : α → α → Bool) (h : History α) (indexCurr j i : Nat) : Algo D Nat := do
  if i < j then pure (i + 1)
  else if i = j then pure (i + 1)  -- window only 1 wide
  else
    let new ← historyFind h (i + 1)
    let tmpCurr ← historyFind h indexCurr
    let n ← Exec.deref new
    let c ← Exec.deref tmpCurr
    if lt n c then pure (i + 1)
    -- the one being dropped was the minimum, must do work
    else if j = indexCurr then minScan lt h (j + 1) (i + 1)
    else pure indexCurr

/-- Slide the window `[j, i]` by one, given and returning the value of a minimum. -/
def minSlideValue (lt eq : α → α → Bool) (h : History α) (minCurr : α) (j i : Nat) :
    Algo D α := do
  let tmp ← historyFind h (i + 1)
  if i < j then Exec.deref tmp
  else if i = j then Exec.deref tmp  -- window only 1 wide
  else
    let new ← Exec.deref tmp
    if lt new minCurr then pure new
    else
      let exiting ← historyGet h j
      if eq exiting minCurr then
        let tmpI ← minScan lt h (j + 1) (i + 1)
        historyGet h tmpI
      else pure minCurr

/-- `<` on counters as the scans use it. -/
def ltVC (a b : VCounter) : Bool := decide (a < b)

/-- `history_min`, on counters. -/
def historyMin (h : History VCounter) (j i : Nat) : Algo D Nat := minScan ltVC h j i

/-- `history_min_slide`, on counters. -/
def historyMinSlide (h : History VCounter) (indexCurr j i : Nat) : Algo D Nat :=
  minSlide ltVC h indexCurr j i

/-- `history_min_slide_value`, on counters. -/
def historyMinSlideValue (h : History VCounter) (minCurr : VCounter) (j i : Nat) :
    Algo D VCounter :=
  minSlideValue ltVC (fun a b => decide (a = b)) h minCurr j i

section Double

variable [Arith D]

/-- `<` on doubles as the scans use it. -/
def ltDbl (a b : D) : Bool := decide (a < b)

/-- `history_min_dbl`. -/
def historyMinDbl (h : History D) (j i : Nat) : Algo D Nat := minScan ltDbl h j i

/-- `history_min_slide_value_dbl`. -/
def historyMinSlideValueDbl (h : History D) (minCurr : D) (j i : Nat) : Algo D D :=
  minSlideValue ltDbl (fun a b => a == b) h minCurr j i

end Double

/-! ## What a history holds -/

/-- `h` stores the last items of the series `f`, of which `n` have been added. -/
structure Holds (f : Nat → α) (n : Nat) (h : History α) : Prop where
  newest : h.newestI = (n : Int) - 1
  range : h.oldestI + h.itemCount = n
  fits : h.itemCount ≤ h.bufferSz
  slot : ∀ j, h.oldestI ≤ j → j < n → h.buffer (j % h.bufferSz) = f j

/-- The history has lost no more items than its size forces it to. -/
def Dense (n : Nat) (h : History α) : Prop := h.itemCount = min n h.bufferSz

/-- Item `j` is held. -/
def History.Has (h : History α) (j : Nat) : Prop :=
  h.oldestI ≤ j ∧ (j : Int) ≤ h.newestI

/-- What is stored as item `j`. -/
def History.item (h : History α) (j : Nat) : α := h.buffer (j % h.bufferSz)

/-- A lookup finds the slot of its index, or nothing below the oldest one. -/
theorem historyFind_res (h : History α) (i : Nat) : (historyFind h i : Algo D (Option α)).res =
    some (if i < h.oldestI then none else some (h.item i)) := by
  show (Exec.bind (Exec.emit _) fun _ => _).res = _
  split <;> rfl

/-- An item that is held is the one that was added at its index. -/
theorem Holds.item_eq {f : Nat → α} {n j : Nat} {h : History α} (hh : Holds f n h)
    (hj : h.Has j) : j < n ∧ h.item j = f j := by
  have hn := hh.newest
  have hlt : j < n := by
    have := hj.2
    omega
  exact ⟨hlt, hh.slot j hj.1 hlt⟩

/-- Indices less than one buffer apart live in different slots. -/
theorem slot_ne {j n sz : Nat} (hj : j < n) (hn : n < j + sz) : j % sz ≠ n % sz := by
  intro he
  have hd : sz ∣ n - j := Nat.dvd_of_mod_eq_zero (Nat.sub_mod_eq_zero_of_mod_eq he.symm)
  have hz : n - j = 0 := Nat.eq_zero_of_dvd_of_lt hd (by omega)
  omega

/-- A new history holds nothing. -/
theorem holds_init [Zero α] (f : Nat → α) (name : HistName) (sz : Nat) :
    Holds f 0 (historyInit name sz) where
  newest := rfl
  range := rfl
  fits := Nat.zero_le sz
  slot := fun j _ hj => absurd hj (Nat.not_lt_zero j)

/-- A new history is as full as it can be. -/
theorem dense_init [Zero α] (name : HistName) (sz : Nat) :
    Dense 0 (historyInit name sz : History α) :=
  (Nat.zero_min sz).symm

/-- The oldest item is one that was added. -/
theorem Holds.old_le {f : Nat → α} {n : Nat} {h : History α} (hh : Holds f n h) :
    h.oldestI ≤ n := by
  have := hh.range
  omega

/-- The oldest index is the one kept, once there is an item. -/
theorem historyOld_eq {h : History α} (hc : h.itemCount ≠ 0) : historyOld h = h.oldestI :=
  if_neg hc

/-- Adding item `n` after items `0, …, n - 1`. -/
theorem Holds.add {f : Nat → α} {n : Nat} {h : History α} (hh : Holds f n h) {item : α}
    (hf : f n = item) : Holds f (n + 1) (historyAdd h n item) := by
  have hnew : ¬ ((n : Int) = h.newestI) := by
    rw [hh.newest]
    omega
  have hr := hh.range
  have hfit := hh.fits
  unfold historyAdd
  rw [if_neg hnew]
  refine { newest := ?_, range := ?_, fits := ?_, slot := fun j hj hjn => ?_ }
  · show h.newestI + 1 = _
    rw [hh.newest]
    omega
  · dsimp only
    split <;> omega
  · dsimp only
    split <;> omega
  · dsimp only at hj ⊢
    rcases Nat.lt_succ_iff_lt_or_eq.mp hjn with hlt | rfl
    · -- an older item: its slot is not the one just written
      have hold : h.oldestI ≤ j := by
        split at hj <;> omega
      have hspan : n < j + h.bufferSz := by
        split at hj <;> omega
      rw [Function.update_of_ne (slot_ne hlt hspan), hh.slot j hold hlt]
    · rw [Function.update_self, hf]

/-- One item more, up to the capacity. -/
theorem Dense.add {f : Nat → α} {n : Nat} {h : History α} (hh : Holds f n h)
    (hd : Dense n h) (item : α) : Dense (n + 1) (historyAdd h n item) := by
  have hnew : ¬ ((n : Int) = h.newestI) := by
    rw [hh.newest]
    omega
  unfold Dense at hd ⊢
  unfold historyAdd
  rw [if_neg hnew]
  dsimp only
  split <;> omega

/-- An addition drops one item at most. -/
theorem historyAdd_oldest_le (h : History α) (i : Nat) (item : α) :
    (historyAdd h i item).oldestI ≤ h.oldestI + 1 := by
  unfold historyAdd
  split
  · exact Nat.le_succ _
  · dsimp only
    split
    · exact Nat.le_succ _
    · exact Nat.le_refl _

/-- An item for a new index is on record under it. -/
theorem historyAdd_added {h : History α} {i : Nat} (hi : (i : Int) ≠ h.newestI) (item : α) :
    (historyAdd h i item).added = Function.update h.added i (some item) := by
  unfold historyAdd
  rw [if_neg hi]

@[simp] theorem historyAdd_bufferSz (h : History α) (i : Nat) (item : α) :
    (historyAdd h i item).bufferSz = h.bufferSz := by
  unfold historyAdd
  split <;> rfl

@[simp] theorem historyAdd_name (h : History α) (i : Nat) (item : α) :
    (historyAdd h i item).name = h.name := by
  unfold historyAdd
  split <;> rfl

/-- Under `Dense`, the oldest index is one buffer back, or `0`. -/
theorem Dense.oldest {f : Nat → α} {n : Nat} {h : History α} (hh : Holds f n h)
    (hd : Dense n h) : h.oldestI = n - h.bufferSz := by
  have := hh.range
  unfold Dense at hd
  omega

/-- A nonempty series in a buffer of positive size leaves the history nonempty. -/
theorem Dense.itemCount_ne_zero {n : Nat} {h : History α} (hd : Dense n h) (hn : 0 < n)
    (hs : 0 < h.bufferSz) : h.itemCount ≠ 0 := by
  unfold Dense at hd
  omega

/-- Overwriting a held item changes the series at that index only. -/
theorem Holds.set {f : Nat → α} {n : Nat} {h : History α} (hh : Holds f n h) {i : Nat}
    (hi : h.oldestI ≤ i) (hin : i < n) (item : α) :
    Holds (Function.update f i item) n
      { h with buffer := Function.update h.buffer (i % h.bufferSz) item } := by
  have hr := hh.range
  have hfit := hh.fits
  refine { newest := hh.newest, range := hh.range, fits := hh.fits, slot := fun j hj hjn => ?_ }
  show Function.update h.buffer (i % h.bufferSz) item (j % h.bufferSz) = _
  dsimp only at hj
  rcases Nat.lt_trichotomy j i with hlt | rfl | hlt
  · rw [Function.update_of_ne (slot_ne hlt (by omega)), Function.update_of_ne (by omega),
      hh.slot j hj hjn]
  · rw [Function.update_self, Function.update_self]
  · rw [Function.update_of_ne (slot_ne hlt (by omega)).symm, Function.update_of_ne (by omega),
      hh.slot j hj hjn]

/-! ## Resizing -/

/-- The copy loop writes the slots of `[j, j + n)` and no others. -/
theorem copyItems_apply (old : Nat → α) (oldSz newSz : Nat) (n : Nat) :
    ∀ (j : Nat) (b : Nat → α), n ≤ newSz → ∀ k, j ≤ k → k < j + n →
      copyItems old oldSz newSz j n b (k % newSz) = old (k % oldSz) := by
  -- A slot written at step `k` is not written again: the remaining indices are less
  -- than one new buffer away from it.
  have keep : ∀ (n j : Nat) (b : Nat → α) (k : Nat), k < j → j + n ≤ k + newSz →
      copyItems old oldSz newSz j n b (k % newSz) = b (k % newSz) := by
    intro n
    induction n with
    | zero => intros; rfl
    | succ n ih =>
      intro j b k hk hspan
      show copyItems old oldSz newSz (j + 1) n _ (k % newSz) = _
      rw [ih (j + 1) _ k (by omega) (by omega)]
      exact Function.update_of_ne (slot_ne hk (by omega)) _ _
  induction n with
  | zero => intro j b _ k h1 h2; omega
  | succ n ih =>
    intro j b hn k h1 h2
    show copyItems old oldSz newSz (j + 1) n _ (k % newSz) = _
    rcases Nat.eq_or_lt_of_le h1 with rfl | hlt
    · rw [keep n (j + 1) _ j (by omega) (by omega), Function.update_self]
    · exact ih (j + 1) _ (by omega) k hlt (by omega)

/-- A resize keeps the newest items that fit, at their indices. -/
theorem Holds.resize [Zero α] {f : Nat → α} {n : Nat} {h : History α} (hh : Holds f n h)
    (sz : Nat) : Holds f n (historyResize h sz) := by
  have hr := hh.range
  have hfit := hh.fits
  have hnew := hh.newest
  unfold historyResize
  -- the two early returns of the source
  by_cases hsame : sz = h.bufferSz
  · rw [if_pos hsame]
    exact hh
  by_cases hempty : h.itemCount = 0
  · rw [if_neg hsame, if_pos hempty]
    refine { newest := hh.newest, range := hh.range, fits := ?_, slot := fun j hj hjn => ?_ }
    · show h.itemCount ≤ sz
      omega
    · dsimp only at hj
      omega
  rw [if_neg hsame, if_neg hempty]
  -- the newest items that fit are kept, so the range still ends at n
  have hold : resizeOldest h sz + min h.itemCount sz = n := by
    unfold resizeOldest
    split <;> omega
  refine { newest := hh.newest, range := hold, fits := Nat.min_le_right _ _,
           slot := fun j hj hjn => ?_ }
  dsimp only at hj ⊢
  rw [copyItems_apply h.buffer h.bufferSz sz _ _ _ (by omega) j hj (by omega)]
  -- every index kept was held before
  refine hh.slot j ?_ hjn
  have : h.oldestI ≤ resizeOldest h sz := by
    unfold resizeOldest
    split <;> omega
  omega

@[simp] theorem historyResize_bufferSz [Zero α] (h : History α) (sz : Nat) :
    (historyResize h sz).bufferSz = sz := by
  unfold historyResize
  split
  · next he => exact he.symm
  · split <;> rfl

@[simp] theorem historyResize_name [Zero α] (h : History α) (sz : Nat) :
    (historyResize h sz).name = h.name := by
  unfold historyResize
  split
  · rfl
  · split <;> rfl

/-- Resizing does not touch the newest index. -/
theorem historyResize_newestI [Zero α] (h : History α) (sz : Nat) :
    (historyResize h sz).newestI = h.newestI := by
  unfold historyResize
  split
  · rfl
  · split <;> rfl

/-- A resize adds nothing. -/
theorem historyResize_added [Zero α] (h : History α) (sz : Nat) :
    (historyResize h sz).added = h.added := by
  unfold historyResize
  split
  · rfl
  · split <;> rfl

/-- A dense history stays dense when it is resized downwards, or while it has lost
nothing yet. -/
theorem Dense.resize [Zero α] {n : Nat} {h : History α} (hd : Dense n h) {sz : Nat}
    (hsz : sz ≤ h.bufferSz ∨ n ≤ h.bufferSz) : Dense n (historyResize h sz) := by
  unfold Dense at hd ⊢
  rw [historyResize_bufferSz]
  unfold historyResize
  split
  · next he => rw [hd, he]
  · split
    · next hz =>
      show h.itemCount = _
      omega
    · show min h.itemCount sz = _
      omega

/-! ## Rules for the lookups -/

variable {P : Event D → Prop} {H : Prop}

/-- What a proof owes for one lookup of index `i`: the event is acceptable, and a null
pointer is only an option where halting is. -/
def Ok (P : Event D → Prop) (H : Prop) (h : History α) (i : Nat) : Prop :=
  P (.find h.name i h.oldestI h.newestI) ∧ (i < h.oldestI → H)

/-- A held index is `Ok` when all that is asked is that lookups be held. -/
theorem ok_of_held {f : Nat → α} {n : Nat} {h : History α} (hh : Holds f n h) {i : Nat}
    (hP : ∀ name (i oldest : Nat) (newest : Int), oldest ≤ i → (i : Int) ≤ newest →
      P (.find name i oldest newest))
    (hold : h.oldestI ≤ i) (hin : i < n) : Ok P H h i := by
  refine ⟨hP _ _ _ _ hold ?_, fun hlt => absurd hlt (Nat.not_lt.mpr hold)⟩
  rw [hh.newest]
  omega

/-- `Ok` for every index in `[lo, n)`. -/
def OkFrom (P : Event D → Prop) (H : Prop) (h : History α) (lo n : Nat) : Prop :=
  ∀ k, lo ≤ k → k < n → Ok P H h k

/-- Fewer indices are asked about. -/
theorem OkFrom.mono {h : History α} {lo lo' n n' : Nat} (hok : OkFrom P H h lo n)
    (hlo : lo ≤ lo') (hn : n' ≤ n) : OkFrom P H h lo' n' :=
  fun k h1 h2 => hok k (Nat.le_trans hlo h1) (Nat.lt_of_lt_of_le h2 hn)

/-- Where halting is an option and lookups are not constrained, everything is `Ok`. -/
theorem okFrom_lax (hP : ∀ name (i oldest : Nat) (newest : Int), P (.find name i oldest newest))
    (h : History α) (lo n : Nat) : OkFrom P True h lo n :=
  fun _ _ _ => ⟨hP _ _ _ _, fun _ => True.intro⟩

/-- Indices from the oldest item on may be looked up. -/
theorem okFrom_of_held {f : Nat → α} {n lo : Nat} {h : History α} (hh : Holds f n h)
    (hP : ∀ name (i oldest : Nat) (newest : Int), oldest ≤ i → (i : Int) ≤ newest →
      P (.find name i oldest newest))
    (hold : h.oldestI ≤ lo) : OkFrom P H h lo n :=
  fun _ h1 h2 => ok_of_held hh hP (Nat.le_trans hold h1) h2

/-- A lookup about whose value nothing needs to be known. -/
theorem historyFind_ok {h : History α} {i : Nat} (hok : Ok P H h i) :
    Exec.Sat P H (historyFind h i) (fun p => p = none → H) := by
  refine Exec.Sat.bind (Q := fun _ => True) (Exec.Sat.emit hok.1 True.intro) fun _ _ => ?_
  refine Exec.Sat.ite (fun hlt => Exec.Sat.pure fun _ => hok.2 hlt) fun _ => ?_
  exact Exec.Sat.pure fun h => (nomatch h)

/-- An item that may be looked up may be read. -/
theorem historyGet_ok {h : History α} {i : Nat} (hok : Ok P H h i) :
    Exec.Sat P H (historyGet h i) (fun _ => True) :=
  Exec.Sat.bind (historyFind_ok hok) fun _ hp => Exec.Sat.deref hp fun _ _ => True.intro

/-- A lookup below the number of items points to the item that was added there. -/
theorem historyFind_sat {f : Nat → α} {n : Nat} {h : History α} (hh : Holds f n h) {i : Nat}
    (hin : i < n) (hok : Ok P H h i) {Q : Option α → Prop} (hnull : H → Q none)
    (hq : Q (some (f i))) : Exec.Sat P H (historyFind h i) Q := by
  refine Exec.Sat.bind (Q := fun _ => True) (Exec.Sat.emit hok.1 True.intro) fun _ _ => ?_
  refine Exec.Sat.ite (fun hlt => Exec.Sat.pure (hnull (hok.2 hlt))) fun hge => ?_
  refine Exec.Sat.pure ?_
  rw [hh.slot i (Nat.not_lt.mp hge) hin]
  exact hq

/-- Reading returns it. -/
theorem historyGet_sat {f : Nat → α} {n : Nat} {h : History α} (hh : Holds f n h) {i : Nat}
    (hin : i < n) (hok : Ok P H h i) {Q : α → Prop} (hq : Q (f i)) :
    Exec.Sat P H (historyGet h i) Q := by
  refine Exec.Sat.bind (Q := fun p => (p = none → H) ∧ ∀ a, p = some a → Q a)
    (historyFind_sat hh hin hok (fun hH => ⟨fun _ => hH, fun _ h => (nomatch h)⟩) ?_) ?_
  · exact ⟨fun h => (nomatch h), fun a ha => Option.some.inj ha ▸ hq⟩
  · exact fun p hp => Exec.Sat.deref hp.1 hp.2

/-- Writing replaces it. -/
theorem historySet_sat {h : History α} {i : Nat} (hok : Ok P H h i) (item : α)
    {Q : History α → Prop}
    (hq : h.oldestI ≤ i →
      Q { h with buffer := Function.update h.buffer (i % h.bufferSz) item }) :
    Exec.Sat P H (historySet h i item) Q := by
  refine Exec.Sat.bind (Q := fun p => (p = none → H) ∧ (p ≠ none → h.oldestI ≤ i)) ?_ ?_
  · refine Exec.Sat.bind (Q := fun _ => True) (Exec.Sat.emit hok.1 True.intro) fun _ _ => ?_
    refine Exec.Sat.ite (fun hlt => ?_) fun hge => ?_
    · exact Exec.Sat.pure ⟨fun _ => hok.2 hlt, fun h => absurd rfl h⟩
    · exact Exec.Sat.pure ⟨fun h => (nomatch h), fun _ => Nat.not_lt.mp hge⟩
  · intro p hp
    refine Exec.Sat.bind (Q := fun _ => p ≠ none)
      (Exec.Sat.deref hp.1 fun a ha => by rw [ha]; exact Option.some_ne_none a) fun _ hne => ?_
    exact Exec.Sat.pure (hq (hp.2 hne))

/-! ## Rules for the scans

A scan visits indices of its window only, and returns one of them whatever the
comparison does. That the result is a minimum needs the comparison to be a strict
order, which is why it is stated under `StrictLt`. -/

/-- `lt` is a strict order. -/
structure StrictLt (lt : α → α → Bool) : Prop where
  irrefl : ∀ a, lt a a = false
  trans : ∀ a b c, lt a b = true → lt b c = true → lt a c = true

/-- Counter values are in a strict order. -/
theorem strictLt_ltVC : StrictLt ltVC where
  irrefl a := by
    show decide (a < a) = false
    exact decide_eq_false (UInt64.lt_irrefl a)
  trans a b c hab hbc :=
    decide_eq_true (UInt64.lt_trans (of_decide_eq_true hab) (of_decide_eq_true hbc))

/-- `k` is the index of a minimum of `f` over `[j, i]`. -/
structure MinAt (lt : α → α → Bool) (f : Nat → α) (j i k : Nat) : Prop where
  left : j ≤ k
  right : k ≤ i
  le : StrictLt lt → ∀ m, j ≤ m → m ≤ i → lt (f m) (f k) = false

/-- The minimum of one item. -/
theorem minAt_self (lt : α → α → Bool) (f : Nat → α) (j : Nat) : MinAt lt f j j j where
  left := Nat.le_refl j
  right := Nat.le_refl j
  le hs m h1 h2 := by
    rw [Nat.le_antisymm h2 h1]
    exact hs.irrefl _

/-- A new item below the minimum is the minimum of the longer window. -/
theorem MinAt.snoc_lt {lt : α → α → Bool} {f : Nat → α} {j i k : Nat} (h : MinAt lt f j i k)
    (hlt : lt (f (i + 1)) (f k) = true) : MinAt lt f j (i + 1) (i + 1) where
  left := Nat.le_trans (Nat.le_trans h.left h.right) (Nat.le_succ i)
  right := Nat.le_refl _
  le hs m h1 h2 := by
    rcases Nat.lt_or_eq_of_le h2 with hm | rfl
    · have hk := h.le hs m h1 (Nat.le_of_lt_succ hm)
      cases hc : lt (f m) (f (i + 1)) with
      | false => rfl
      | true => exact absurd (hs.trans _ _ _ hc hlt) (by simp [hk])
    · exact hs.irrefl _

/-- A new item not below the minimum leaves it in place. -/
theorem MinAt.snoc_ge {lt : α → α → Bool} {f : Nat → α} {j i k : Nat} (h : MinAt lt f j i k)
    (hge : lt (f (i + 1)) (f k) = false) : MinAt lt f j (i + 1) k where
  left := h.left
  right := Nat.le_trans h.right (Nat.le_succ i)
  le hs m h1 h2 := by
    rcases Nat.lt_or_eq_of_le h2 with hm | rfl
    · exact h.le hs m h1 (Nat.le_of_lt_succ hm)
    · exact hge

/-- Dropping the left end keeps a minimum that lies further right. -/
theorem MinAt.tail {lt : α → α → Bool} {f : Nat → α} {j i k : Nat} (h : MinAt lt f j i k)
    (hk : j ≠ k) : MinAt lt f (j + 1) i k where
  left := Nat.lt_of_le_of_ne h.left hk
  right := h.right
  le hs m h1 h2 := h.le hs m (Nat.le_of_succ_le h1) h2

/-- `I j i k`, of a window `[j, i]` and the best index `k` of it so far, is what the comparisons of
a scan keep up. -/
structure WindowInv (lt : α → α → Bool) (f : Nat → α) (I : Nat → Nat → Nat → Prop) : Prop where
  self : ∀ j, I j j j
  snoc_lt : ∀ {j i k}, I j i k → lt (f (i + 1)) (f k) = true → I j (i + 1) (i + 1)
  snoc_ge : ∀ {j i k}, I j i k → lt (f (i + 1)) (f k) = false → I j (i + 1) k

/-- Minima follow the rules of a window. -/
theorem windowInv_minAt (lt : α → α → Bool) (f : Nat → α) : WindowInv lt f (MinAt lt f) where
  self := minAt_self lt f
  snoc_lt := MinAt.snoc_lt
  snoc_ge := MinAt.snoc_ge

section Scan

variable {f : Nat → α} {n : Nat} {h : History α} {lt : α → α → Bool} {I : Nat → Nat → Nat → Prop}

/-- The pointer `p` a scan keeps to its best item: item `k`, or null where halting is
an option. -/
def Points (H : Prop) (f : Nat → α) (k : Nat) (p : Option α) : Prop :=
  (p = none → H) ∧ ∀ a, p = some a → a = f k

/-- What a lookup points to. -/
theorem historyFind_points (hh : Holds f n h) {i : Nat} (hin : i < n) (hok : Ok P H h i) :
    Exec.Sat P H (historyFind h i) (Points H f i) :=
  historyFind_sat hh hin hok (fun hH => ⟨fun _ => hH, fun _ h => (nomatch h)⟩)
    ⟨fun h => (nomatch h), fun _ ha => (Option.some.inj ha).symm⟩

/-- Reading through it gives the item. -/
theorem Points.deref_sat {k : Nat} {p : Option α} (hp : Points H f k p) :
    Exec.Sat P H (Exec.deref p) (fun a => a = f k) :=
  Exec.Sat.deref hp.1 hp.2

/-- The scan keeps what is known of the window up to the index it has reached. -/
theorem minLoop_rule (hh : Holds f n h) (hI : WindowInv lt f I) (j : Nat) :
    ∀ (k i ind : Nat) (p : Option α), I j i ind → Points H f ind p → i + k < n →
      (∀ m, i < m → m ≤ i + k → Ok P H h m) →
      Exec.Sat P H (minLoop lt h k i p ind) (I j (i + k)) := by
  intro k
  induction k with
  | zero => exact fun i ind p hind _ _ _ => Exec.Sat.pure hind
  | succ k ih =>
    intro i ind p hind hp hin hok
    rw [show i + (k + 1) = i + 1 + k from by omega] at hin hok ⊢
    refine Exec.Sat.bind (historyFind_points hh (by omega) (hok (i + 1) (by omega) (by omega)))
      fun tmp htmp => ?_
    refine Exec.Sat.bind htmp.deref_sat fun t ht => ?_
    refine Exec.Sat.bind hp.deref_sat fun m hm => ?_
    subst ht hm
    have hrest : ∀ m, i + 1 < m → m ≤ i + 1 + k → Ok P H h m :=
      fun m h1 h2 => hok m (by omega) h2
    refine Exec.Sat.ite (fun hlt => ?_) fun hge => ?_
    · exact ih (i + 1) (i + 1) tmp (hI.snoc_lt hind hlt) htmp hin hrest
    · exact ih (i + 1) ind p (hI.snoc_ge hind (Bool.eq_false_iff.mpr hge)) hp hin hrest

/-- A scan of the whole window. -/
theorem minScan_rule (hh : Holds f n h) (hI : WindowInv lt f I) {j i : Nat} (hji : j ≤ i)
    (hin : i < n) (hok : OkFrom P H h j n) : Exec.Sat P H (minScan lt h j i) (I j i) := by
  refine Exec.Sat.bind (historyFind_points hh (by omega) (hok j (Nat.le_refl j) (by omega)))
    fun p hp => ?_
  have hloop := minLoop_rule hh hI j (i - j) j j p (hI.self j) hp (by omega)
    fun m h1 h2 => hok m (by omega) (by omega)
  rw [Nat.add_sub_cancel' hji] at hloop
  exact hloop

/-- A scan finds an index of a minimum. -/
theorem minScan_sat (hh : Holds f n h) {j i : Nat} (hji : j ≤ i) (hin : i < n)
    (hok : OkFrom P H h j n) : Exec.Sat P H (minScan lt h j i) (MinAt lt f j i) :=
  minScan_rule hh (windowInv_minAt lt f) hji hin hok

/-- What a slide of the window `[j, i]` makes of the index `c`: an index of the new window,
or `c` itself if it lies further right, and a minimum if `c` was one. -/
structure Slid (lt : α → α → Bool) (f : Nat → α) (j i c r : Nat) : Prop where
  left : j + 1 ≤ r
  right : r ≤ i + 1 ∨ r = c
  isMin : MinAt lt f j i c → MinAt lt f (j + 1) (i + 1) r

/-- A slide finds one again, unless the window had none. -/
theorem minSlide_sat (hh : Holds f n h) {c j i : Nat} (hjc : j ≤ c) (hcn : c < n)
    (hji : j ≤ i) (hin : i + 1 < n) (hok : OkFrom P H h j n) :
    Exec.Sat P H (minSlide lt h c j i) (Slid lt f j i c) := by
  refine Exec.Sat.ite (fun hlt => absurd hlt (by omega)) fun _ => ?_
  refine Exec.Sat.ite (fun heq => ?_) fun hne => ?_
  · subst heq
    exact Exec.Sat.pure ⟨Nat.le_refl _, Or.inl (Nat.le_refl _), fun _ => minAt_self lt f (i + 1)⟩
  refine Exec.Sat.bind (historyFind_points hh hin (hok _ (by omega) hin)) fun new hnew => ?_
  refine Exec.Sat.bind (historyFind_points hh hcn (hok c hjc hcn)) fun cur hcur => ?_
  refine Exec.Sat.bind hnew.deref_sat fun nv hnv => ?_
  refine Exec.Sat.bind hcur.deref_sat fun cv hcv => ?_
  subst hnv hcv
  refine Exec.Sat.ite (fun hlt => Exec.Sat.pure ?_) fun hge => ?_
  · exact ⟨by omega, Or.inl (Nat.le_refl _), fun hc => (hc.snoc_lt hlt).tail (by omega)⟩
  refine Exec.Sat.ite (fun _ => ?_) fun hne' => Exec.Sat.pure ?_
  · refine (minScan_sat hh (by omega) hin (hok.mono (by omega) (Nat.le_refl n))).mono ?_
    exact fun r hr => ⟨hr.left, Or.inl hr.right, fun _ => hr⟩
  · exact ⟨by omega, Or.inr rfl,
      fun hc => (hc.snoc_ge (Bool.eq_false_iff.mpr hge)).tail hne'⟩

/-- `v` is the minimum of `f` over `[j, i]`. -/
def MinVal (lt : α → α → Bool) (f : Nat → α) (j i : Nat) (v : α) : Prop :=
  ∃ k, MinAt lt f j i k ∧ v = f k

/-- Sliding by value, given a minimum of the old window. The item that leaves has to be equal to
itself, which a double need not be. -/
theorem minSlideValue_sat (hh : Holds f n h) {eq : α → α → Bool} {c : α} {j i : Nat}
    (hji : j ≤ i) (hin : i + 1 < n) (hok : OkFrom P H h j n) {Q : α → Prop}
    (hq : ∀ v, (eq (f j) (f j) = true → MinVal lt f j i c →
      MinVal lt f (j + 1) (i + 1) v) → Q v) :
    Exec.Sat P H (minSlideValue lt eq h c j i) Q := by
  refine Exec.Sat.bind (historyFind_points hh hin (hok _ (by omega) (by omega)))
    fun new hnew => ?_
  refine Exec.Sat.ite (fun hlt => absurd hlt (by omega)) fun _ => ?_
  -- a window of one element: the new value is the minimum
  refine Exec.Sat.ite (fun heq => ?_) fun hne => ?_
  · subst heq
    refine hnew.deref_sat.mono fun v hv => hq v fun _ _ => ?_
    exact ⟨i + 1, minAt_self lt f (i + 1), hv⟩
  refine Exec.Sat.bind hnew.deref_sat fun nv hnv => ?_
  subst hnv
  -- a new value below the old minimum needs no look at the window
  refine Exec.Sat.ite (fun hlt => Exec.Sat.pure (hq _ fun _ hc => ?_)) fun hge => ?_
  · obtain ⟨k, hk, rfl⟩ := hc
    exact ⟨i + 1, (hk.snoc_lt hlt).tail (by omega), rfl⟩
  -- otherwise the leaving value decides whether to scan
  refine Exec.Sat.bind (Q := fun e => e = f j)
    (historyGet_sat hh (by omega) (hok j (by omega) (by omega)) rfl) fun e he => ?_
  subst he
  refine Exec.Sat.ite (fun _ => ?_) fun hexit => Exec.Sat.pure (hq _ fun heq hc => ?_)
  · refine Exec.Sat.bind
      (minScan_sat hh (by omega) hin (hok.mono (by omega) (Nat.le_refl n))) fun k hk => ?_
    have hkn := Nat.lt_of_le_of_lt hk.right hin
    exact historyGet_sat hh hkn (hok k (Nat.le_of_succ_le hk.left) hkn)
      (hq _ fun _ _ => ⟨k, hk, rfl⟩)
  · obtain ⟨k, hk, rfl⟩ := hc
    have hjk : j ≠ k := by
      rintro rfl
      exact hexit heq
    exact ⟨k, (hk.snoc_ge (Bool.eq_false_iff.mpr hge)).tail hjk, rfl⟩

/-- Unless the new item is the new minimum, the item that leaves the window is looked up. -/
theorem minSlideValue_reads_left (hh : Holds f n h) {eq : α → α → Bool} {c : α} {j i : Nat}
    (hji : j < i) (hin : i + 1 < n) (hold : h.oldestI ≤ i + 1) (hge : lt (f (i + 1)) c = false) :
    Event.find h.name j h.oldestI h.newestI ∈ (minSlideValue lt eq h c j i : Algo D α).log := by
  refine Exec.mem_bind_log_right (P := fun _ => True) (Q := fun p => p = some (f (i + 1)))
    (historyFind_sat hh hin ⟨True.intro, fun hlt => absurd hlt (Nat.not_lt.mpr hold)⟩ False.elim
      rfl) ?_
  rintro p rfl
  rw [if_neg (Nat.not_lt.mpr (Nat.le_of_lt hji)), if_neg (Nat.ne_of_gt hji)]
  refine Exec.mem_bind_log_right (P := fun _ => True) (Q := fun a => a = f (i + 1))
    (Exec.Sat.pure rfl) ?_
  rintro a rfl
  rw [if_neg (Bool.eq_false_iff.mp hge)]
  refine Exec.mem_bind_log_left (Exec.mem_bind_log_left (Exec.mem_bind_log_left ?_))
  exact List.mem_singleton.mpr rfl

end Scan

end RADclock
