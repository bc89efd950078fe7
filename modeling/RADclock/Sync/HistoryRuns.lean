import Mathlib.Data.List.GetD
import RADclock.Lib.Runs
import RADclock.Sync.History

/-!
# Runs of the history operations (`sync_history.c`)

Every algorithm adds one item a stamp, and the daemon resizes the histories when the polling
period changes. A resize moves every item to another slot, and may be followed by another before
the buffer has filled again.

- `Filled`: a history, with the items that were added to it.
- `Filled.Sound`: what every operation keeps.
- `history_sound`: what may be found in a history after any operations, and what a resize keeps of
  it.
-/

namespace RADclock

open Lib

variable {D α : Type}

/-- An operation on an initialised history. -/
inductive HistoryOp (α : Type) where
  | add (item : α)
  | resize (newSize : Nat)

/-- A history and the items that were added to it, whose number is the index of the next. -/
structure Filled (α : Type) where
  items : List α
  hist : History α

/-- A history in which nothing has been put yet. -/
def Filled.init [Zero α] (name : HistName) (bufferSz : Nat) : Filled α where
  items := []
  hist := historyInit name bufferSz

def Filled.step [Zero α] (r : Filled α) : HistoryOp α → Filled α
  | .add item => { items := r.items ++ [item], hist := historyAdd r.hist r.items.length item }
  | .resize newSize => { items := r.items, hist := historyResize r.hist newSize }

/-- The sizes asked for are positive. -/
def HistoryOp.Valid : HistoryOp α → Prop
  | .add _ => True
  | .resize newSize => 0 < newSize

/-! ## The invariant -/

/-- The history stores the last of the items, and at least one if there is one. -/
structure Filled.Sound [Zero α] (r : Filled α) : Prop where
  holds : Holds (r.items.getD · 0) r.items.length r.hist
  size : 0 < r.hist.bufferSz
  kept : r.items ≠ [] → 0 < r.hist.itemCount

/-- Only the items that have been added matter. -/
theorem Holds.congr {f g : Nat → α} {n : Nat} {h : History α} (hh : Holds f n h)
    (hfg : ∀ j < n, f j = g j) : Holds g n h where
  newest := hh.newest
  range := hh.range
  fits := hh.fits
  slot j hj hjn := (hh.slot j hj hjn).trans (hfg j hjn)

theorem historyAdd_itemCount_pos {h : History α} {i : Nat} (hi : (i : Int) ≠ h.newestI)
    (hs : 0 < h.bufferSz) (item : α) : 0 < (historyAdd h i item).itemCount := by
  unfold historyAdd
  rw [if_neg hi]
  dsimp only
  split <;> omega

theorem historyResize_itemCount [Zero α] {h : History α} (hfit : h.itemCount ≤ h.bufferSz)
    (sz : Nat) : (historyResize h sz).itemCount = min h.itemCount sz := by
  unfold historyResize
  split
  · omega
  · split
    · next hz =>
      show h.itemCount = _
      omega
    · rfl

variable [Zero α] {r : Filled α}

theorem Filled.sound_init (name : HistName) {sz : Nat} (hsz : 0 < sz) :
    (Filled.init name sz : Filled α).Sound where
  holds := holds_init _ name sz
  size := hsz
  kept h := absurd rfl h

theorem Filled.Sound.add (hr : r.Sound) (item : α) : (r.step (.add item)).Sound := by
  have hnew : ((r.items.length : Nat) : Int) ≠ r.hist.newestI := by
    rw [hr.holds.newest]
    omega
  refine { holds := ?_, size := ?_, kept := fun _ => historyAdd_itemCount_pos hnew hr.size item }
  · have hlen : (r.step (.add item)).items.length = r.items.length + 1 := List.length_append
    rw [hlen]
    refine Holds.add (hr.holds.congr fun j hj => ?_) ?_
    · exact (List.getD_append _ _ _ _ hj).symm
    · exact (List.getD_append_right _ _ _ _ (Nat.le_refl _)).trans (by simp)
  · exact (historyAdd_bufferSz _ _ _).symm ▸ hr.size

theorem Filled.Sound.resize (hr : r.Sound) {sz : Nat} (hsz : 0 < sz) :
    (r.step (.resize sz)).Sound where
  holds := hr.holds.resize sz
  size := (historyResize_bufferSz r.hist sz).symm ▸ hsz
  kept hne := by
    have hpos := hr.kept hne
    show 0 < (historyResize r.hist sz).itemCount
    rw [historyResize_itemCount hr.holds.fits]
    omega

theorem Filled.Sound.step (hr : r.Sound) {op : HistoryOp α} (hop : op.Valid) :
    (r.step op).Sound := by
  cases op with
  | add item => exact hr.add item
  | resize sz => exact hr.resize hop

theorem Filled.Sound.run (hr : r.Sound) {ops : List (HistoryOp α)} (hops : ∀ op ∈ ops, op.Valid) :
    (runSteps Filled.step r ops).Sound := by
  induction ops generalizing r with
  | nil => exact hr
  | cons op ops ih =>
    have hmem := List.forall_mem_cons.mp hops
    exact ih (hr.step hmem.1) hmem.2

/-! ## What is found -/

/-- The items that a resize keeps are the newest, each where it was. -/
theorem Filled.Sound.resize_has (hr : r.Sound) {sz : Nat} (hsz : 0 < sz) (i : Nat) :
    (historyResize r.hist sz).Has i ↔ (i : Int) ≤ r.hist.newestI ∧
      r.hist.newestI - (min r.hist.itemCount sz : Nat) < i := by
  have hh := (hr.resize hsz).holds
  have hrange := hh.range
  have hcount := historyResize_itemCount hr.holds.fits sz
  have hnewest := hr.holds.newest
  change (historyResize r.hist sz).oldestI + (historyResize r.hist sz).itemCount =
    r.items.length at hrange
  unfold History.Has
  rw [historyResize_newestI]
  omega

/-- After `history_init`, any additions under consecutive indices and any resizes: the count and
the range agree, every index of the range finds the item that was added for it, older indices find
nothing, and one more resize keeps the newest items that fit. -/
theorem history_sound (name : HistName) {sz : Nat} (hsz : 0 < sz) (ops : List (HistoryOp α))
    (hops : ∀ op ∈ ops, op.Valid) :
    let r := runSteps Filled.step (Filled.init name sz) ops
    (r.hist.itemCount = 0 ↔ r.items = []) ∧
    (r.hist.itemCount ≠ 0 → (r.hist.itemCount : Int) = r.hist.newestI - r.hist.oldestI + 1 ∧
      r.hist.itemCount ≤ r.hist.bufferSz) ∧
    (∀ i, r.hist.Has i → ∃ item, r.items[i]? = some item ∧
      (historyFind r.hist i : Algo D (Option α)).res = some (some item)) ∧
    (∀ i < r.hist.oldestI, (historyFind r.hist i : Algo D (Option α)).res = some none) ∧
    ∀ newSize, 0 < newSize →
      (historyResize r.hist newSize).itemCount = min r.hist.itemCount newSize ∧
      (historyResize r.hist newSize).newestI = r.hist.newestI ∧
      (∀ i, (historyResize r.hist newSize).Has i ↔ (i : Int) ≤ r.hist.newestI ∧
        r.hist.newestI - (min r.hist.itemCount newSize : Nat) < i) ∧
      ∀ i, (historyResize r.hist newSize).Has i →
        (historyFind (historyResize r.hist newSize) i : Algo D (Option α)).res =
          (historyFind r.hist i : Algo D (Option α)).res := by
  intro r
  -- every run of additions and resizes keeps the invariant
  have hr : r.Sound := (Filled.sound_init name hsz).run hops
  have hrange := hr.holds.range
  refine ⟨⟨fun hz => ?_, fun hz => ?_⟩, fun _ => ⟨?_, hr.holds.fits⟩, fun i hi =>
    ?_, fun i hi => ?_,
    fun sz' hsz' => ⟨historyResize_itemCount hr.holds.fits sz', historyResize_newestI r.hist sz',
      hr.resize_has hsz', fun i hi => ?_⟩⟩
  · by_contra hne
    exact absurd hz (Nat.pos_iff_ne_zero.mp (hr.kept hne))
  · rw [hz] at hrange
    exact (Nat.add_eq_zero_iff.mp hrange).2
  · have hnewest := hr.holds.newest
    omega
  · obtain ⟨hlt, hitem⟩ := hr.holds.item_eq hi
    refine ⟨r.items[i], List.getElem?_eq_getElem hlt, ?_⟩
    rw [historyFind_res, if_neg (Nat.not_lt.mpr hi.1), hitem, List.getD_eq_getElem _ _ hlt]
  · rw [historyFind_res, if_pos hi]
  · -- what one more resize keeps was held before, with the same value
    have hold := (hr.resize_has hsz' i).mp hi
    have hhas : r.hist.Has i := by
      have hnewest := hr.holds.newest
      unfold History.Has
      omega
    have hitem : (historyResize r.hist sz').item i = r.items.getD i 0 :=
      ((hr.resize hsz').holds.item_eq hi).2
    rw [historyFind_res, historyFind_res, if_neg (Nat.not_lt.mpr hi.1),
      if_neg (Nat.not_lt.mpr hhas.1), hitem, (hr.holds.item_eq hhas).2]

/-- Two items, and a size that lets only the second stay. -/
theorem history_sound_shrunk :
    (historyFind (runSteps Filled.step (Filled.init .RTT 2) [.add 5, .resize 1, .add 7]).hist 0 :
      Algo Unit (Option Nat)).res = some none :=
  (history_sound .RTT (by decide) _ (by simp [HistoryOp.Valid])).2.2.2.1 0 (by decide)

end RADclock
