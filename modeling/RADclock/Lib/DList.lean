import Mathlib.Data.UInt
import Mathlib.Data.List.Nodup
import Mathlib.Data.Finset.Card

/-!
# Doubly linked lists in a heap

A heap of cells with `prev` and `next` pointers, and a list header with pointers to both ends and a
count. `none` is the outcome of following a null pointer, or one that was never handed out. A freed
cell can still be read; what is left in it is a parameter.

- `DLinked h p xs n`: a segment of the heap that holds the addressed values `xs`, entered from `p`
  and left to `n`.
- `IsList d h xs`: the header `d` with the whole list.
- `pushFront`, `trimLast`, `unlink`: pointer surgery at the head, at the tail, and anywhere.
- `findNext`, `foldPrev`, `sweepPrev`: the scans of such lists, in either direction. The last one
  unlinks cells on its way, among them the one it compares the others with.

Every operation is specified by what it makes of `xs`. Scans carry fuel, of which the number of
addresses handed out so far is always enough.
-/

namespace Lib

/-- A pointer; `none` is null. -/
abbrev Ptr := Option Nat

/-- A list element. -/
structure Cell (α : Type) where
  val : α
  prev : Ptr
  next : Ptr

/-- Cells by address. Addresses from `fresh` on have not been handed out yet. -/
structure Heap (α : Type) where
  cell : Nat → Option (Cell α)
  fresh : Nat

/-- A list header. -/
structure DList where
  start : Ptr
  stop : Ptr
  size : Int

variable {α β : Type}

namespace Heap

def empty : Heap α := ⟨fun _ => none, 0⟩

def set (h : Heap α) (a : Nat) (c : Cell α) : Heap α :=
  { h with cell := Function.update h.cell a (some c) }

/-- Read a cell. -/
def load (h : Heap α) (p : Ptr) : Option (Cell α) := p.bind h.cell

/-- Write a cell. -/
def modify (h : Heap α) (p : Ptr) (f : Cell α → Cell α) : Option (Heap α) := do
  let a ← p
  let c ← h.cell a
  pure (h.set a (f c))

/-- Free a cell, of which `scrub` is left. -/
def free (scrub : Nat → Cell α → Cell α) (h : Heap α) (p : Ptr) : Option (Heap α) := do
  let a ← p
  let c ← h.cell a
  pure (h.set a (scrub a c))

/-- A new cell. -/
def alloc (h : Heap α) (c : Cell α) : Heap α :=
  { cell := Function.update h.cell h.fresh (some c), fresh := h.fresh + 1 }

/-- The value at an address. -/
def val (h : Heap α) (a : Nat) : Option α := (h.cell a).map Cell.val

variable {h : Heap α} {a b : Nat} {c : Cell α}

/-- Writing a cell allocates nothing. -/
@[simp]
theorem set_fresh (h : Heap α) (a : Nat) (c : Cell α) : (h.set a c).fresh = h.fresh := rfl

/-- The cell that was written. -/
@[simp]
theorem set_cell_self (h : Heap α) (a : Nat) (c : Cell α) : (h.set a c).cell a = some c :=
  Function.update_self _ _ _

/-- The other cells stay. -/
theorem set_cell_of_ne (hb : b ≠ a) (c : Cell α) : (h.set a c).cell b = h.cell b :=
  Function.update_of_ne hb _ _

/-- So do their values. -/
theorem val_set_of_ne (hb : b ≠ a) (c : Cell α) : (h.set a c).val b = h.val b := by
  rw [val, set_cell_of_ne hb, val]

/-- A write to the pointers only. -/
theorem val_set_of_val (hc : h.cell a = some c) {c' : Cell α} (hval : c'.val = c.val) (b : Nat) :
    (h.set a c').val b = h.val b := by
  by_cases hb : b = a
  · rw [hb, val, set_cell_self, val, hc, Option.map_some, Option.map_some, hval]
  · exact val_set_of_ne hb c'

/-- A cell that is there can be read. -/
theorem load_some (hc : h.cell a = some c) : h.load (some a) = some c := hc

/-- And changed. -/
theorem modify_some (hc : h.cell a = some c) (f : Cell α → Cell α) :
    h.modify (some a) f = some (h.set a (f c)) := by
  simp [modify, hc]

/-- And given back, whatever then becomes of it. -/
theorem free_some (scrub : Nat → Cell α → Cell α) (hc : h.cell a = some c) :
    h.free scrub (some a) = some (h.set a (scrub a c)) := by
  simp [free, hc]

end Heap

/-! ## Segments -/

/-- Where a segment `xs` followed by `n` starts. -/
def firstOr (xs : List (Nat × α)) (n : Ptr) : Ptr :=
  match xs with
  | [] => n
  | x :: _ => some x.1

/-- Where a segment `xs` preceded by `p` ends. -/
def lastOr (p : Ptr) : List (Nat × α) → Ptr
  | [] => p
  | x :: xs => lastOr (some x.1) xs

/-- The cells `xs`, linked both ways, between `p` and `n`. -/
def DLinked (h : Heap α) : Ptr → List (Nat × α) → Ptr → Prop
  | _, [], _ => True
  | p, x :: xs, n => h.cell x.1 = some ⟨x.2, p, firstOr xs n⟩ ∧ DLinked h (some x.1) xs n

/-- The cells met from `p` on along `next`, to the end. -/
inductive NextChain (h : Heap α) : Ptr → List Nat → Prop where
  | nil : NextChain h none []
  | cons {a : Nat} {c : Cell α} {as : List Nat} (hc : h.cell a = some c)
      (hrest : NextChain h c.next as) : NextChain h (some a) (a :: as)

/-- The cells met from `p` on along `prev`, to the end. -/
inductive PrevChain (h : Heap α) : Ptr → List Nat → Prop where
  | nil : PrevChain h none []
  | cons {a : Nat} {c : Cell α} {as : List Nat} (hc : h.cell a = some c)
      (hrest : PrevChain h c.prev as) : PrevChain h (some a) (a :: as)

section Segments

variable {h h' : Heap α} {p n : Ptr} {xs ys : List (Nat × α)} {x : Nat × α}

/-- The first cell of two segments. -/
@[simp]
theorem firstOr_append : firstOr (xs ++ ys) n = firstOr xs (firstOr ys n) := by
  cases xs <;> rfl

/-- The last cell of two segments. -/
@[simp]
theorem lastOr_append : lastOr p (xs ++ ys) = lastOr (lastOr p xs) ys := by
  induction xs generalizing p with
  | nil => rfl
  | cons x xs ih => exact ih

/-- A segment with cells ends at one of them. -/
theorem exists_lastOr_eq (hne : xs ≠ []) : ∃ w ∈ xs, lastOr p xs = some w.1 := by
  induction xs generalizing p with
  | nil => exact absurd rfl hne
  | cons x xs ih =>
    cases xs with
    | nil => exact ⟨x, List.mem_cons_self, rfl⟩
    | cons y ys =>
      obtain ⟨w, hw, heq⟩ := ih (p := some x.1) (List.cons_ne_nil y ys)
      exact ⟨w, List.mem_cons_of_mem x hw, heq⟩

/-- And starts at one of them. -/
theorem exists_firstOr_eq (hne : xs ≠ []) : ∃ w ∈ xs, firstOr xs n = some w.1 := by
  cases xs with
  | nil => exact absurd rfl hne
  | cons x xs => exact ⟨x, List.mem_cons_self, rfl⟩

/-- Two segments linked at the seam. -/
theorem dlinked_append :
    DLinked h p (xs ++ ys) n ↔ DLinked h p xs (firstOr ys n) ∧ DLinked h (lastOr p xs) ys n := by
  induction xs generalizing p with
  | nil => simp [DLinked, lastOr]
  | cons x xs ih => simp [DLinked, lastOr, ih, and_assoc]

/-- The cell of an element. -/
theorem DLinked.cell (hl : DLinked h p (xs ++ x :: ys) n) :
    h.cell x.1 = some ⟨x.2, lastOr p xs, firstOr ys n⟩ := (dlinked_append.mp hl).2.1

/-- A segment depends on its own cells only. -/
theorem DLinked.frame (hl : DLinked h p xs n) (hsame : ∀ x ∈ xs, h'.cell x.1 = h.cell x.1) :
    DLinked h' p xs n := by
  induction xs generalizing p with
  | nil => exact True.intro
  | cons x xs ih =>
    refine ⟨?_, ih hl.2 fun y hy => hsame y (List.mem_cons_of_mem x hy)⟩
    rw [hsame x List.mem_cons_self]
    exact hl.1

/-- A heap holds one segment from a pointer to the end. -/
theorem DLinked.unique {p' : Ptr} (hl : DLinked h p xs none) (hl' : DLinked h p' ys none)
    (hfirst : firstOr xs none = firstOr ys none) : xs = ys := by
  induction xs generalizing p p' ys with
  | nil =>
    cases ys with
    | nil => rfl
    | cons y ys => exact nomatch hfirst
  | cons x xs ih =>
    cases ys with
    | nil => exact nomatch hfirst
    | cons y ys =>
      obtain ⟨a, v⟩ := x
      obtain ⟨b, w⟩ := y
      obtain rfl : a = b := Option.some.inj hfirst
      have hcell := Option.some.inj (hl.1.symm.trans hl'.1)
      rw [Cell.mk.injEq] at hcell
      obtain ⟨rfl, -, hnext⟩ := hcell
      rw [ih hl.2 hl'.2 hnext]

/-- A write to an address that is not in the segment. -/
theorem DLinked.set (hl : DLinked h p xs n) {a : Nat} (ha : a ∉ xs.map Prod.fst) (c : Cell α) :
    DLinked (h.set a c) p xs n := by
  refine hl.frame fun x hx => Heap.set_cell_of_ne ?_ c
  rintro rfl
  exact ha (List.mem_map_of_mem hx)

/-- Enter a segment from elsewhere. -/
theorem DLinked.set_first (hl : DLinked h p (x :: xs) n) (hx : x.1 ∉ xs.map Prod.fst) (p' : Ptr) :
    DLinked (h.set x.1 ⟨x.2, p', firstOr xs n⟩) p' (x :: xs) n :=
  ⟨Heap.set_cell_self _ _ _, hl.2.set hx _⟩

/-- Leave a segment to elsewhere. -/
theorem DLinked.set_last (hl : DLinked h p (xs ++ [x]) n) (hx : x.1 ∉ xs.map Prod.fst) (n' : Ptr) :
    DLinked (h.set x.1 ⟨x.2, lastOr p xs, n'⟩) p (xs ++ [x]) n' := by
  rw [dlinked_append] at hl ⊢
  exact ⟨hl.1.set hx _, Heap.set_cell_self _ _ _, True.intro⟩

/-- Forwards, the cells in order. -/
theorem DLinked.nextChain (hl : DLinked h p xs none) :
    NextChain h (firstOr xs none) (xs.map Prod.fst) := by
  induction xs generalizing p with
  | nil => exact .nil
  | cons x xs ih => exact .cons hl.1 (ih hl.2)

/-- Backwards, the cells in reverse. -/
theorem DLinked.prevChain (hl : DLinked h none xs n) :
    PrevChain h (lastOr none xs) (xs.map Prod.fst).reverse := by
  induction xs using List.reverseRecOn generalizing n with
  | nil => exact .nil
  | append_singleton xs x ih =>
    simp only [lastOr_append, lastOr, List.map_append, List.map_singleton, List.reverse_append,
      List.reverse_singleton, List.singleton_append]
    exact .cons hl.cell (ih (dlinked_append.mp hl).1)

end Segments

/-! ## Lists -/

/-- The list `xs` of addressed values, with its header. -/
structure IsList (d : DList) (h : Heap α) (xs : List (Nat × α)) : Prop where
  start : d.start = firstOr xs none
  stop : d.stop = lastOr none xs
  size : d.size = xs.length
  linked : DLinked h none xs none
  nodup : (xs.map Prod.fst).Nodup
  fresh : ∀ x ∈ xs, x.1 < h.fresh

namespace DList

/-- The empty list. -/
def empty : DList := ⟨none, none, 0⟩

/-- Insert a new cell at the head; its address is `h.fresh`. -/
def pushFront (v : α) (d : DList) (h : Heap α) : Option (DList × Heap α) :=
  let h' := h.alloc ⟨v, none, d.start⟩
  match d.start with
  | none => some (⟨some h.fresh, some h.fresh, d.size + 1⟩, h')
  | some _ => do
    let h' ← h'.modify d.start fun c => { c with prev := some h.fresh }
    pure (⟨some h.fresh, d.stop, d.size + 1⟩, h')

variable (scrub : Nat → Cell α → Cell α)

/-- Remove the cell at the tail, of a list of two cells at least. -/
def trimLast (d : DList) (h : Heap α) : Option (DList × Heap α) := do
  let c ← h.load d.stop
  let c' ← h.load c.prev
  let h ← h.free scrub c'.next
  let h ← h.modify c.prev fun c => { c with next := none }
  pure (⟨d.start, c.prev, d.size - 1⟩, h)

/-- Remove the cell at `p`, and move on towards the head. -/
def unlink (p : Ptr) (d : DList) (h : Heap α) : Option (Ptr × DList × Heap α) :=
  if p = d.stop then
    if p = d.start then do
      let h ← h.free scrub p
      pure (none, ⟨none, none, d.size - 1⟩, h)
    else do
      let c ← h.load p
      let c' ← h.load c.prev
      let h ← h.free scrub c'.next
      let h ← h.modify c.prev fun c => { c with next := none }
      pure (c.prev, ⟨d.start, c.prev, d.size - 1⟩, h)
  else
    if p = d.start then do
      let c ← h.load p
      let h ← h.modify c.next fun c => { c with prev := none }
      let h ← h.free scrub p
      pure (none, ⟨c.next, d.stop, d.size - 1⟩, h)
    else do
      let c ← h.load p
      let h ← h.modify c.next fun c' => { c' with prev := c.prev }
      let h ← h.modify c.prev fun c' => { c' with next := c.next }
      let h ← h.free scrub p
      pure (c.prev, ⟨d.start, d.stop, d.size - 1⟩, h)

/-! ### Scans -/

/-- The first cell from `p` on whose value passes the test; null if there is none. -/
def findNext (test : α → Bool) (h : Heap α) : Nat → Ptr → Option Ptr
  | _, none => some none
  | 0, some _ => none
  | fuel + 1, some a => do
    let c ← h.cell a
    if test c.val then pure (some a) else findNext test h fuel c.next

/-- Fold over the cells from `p` on towards the head. -/
def foldPrev (f : β → Nat → α → β) (h : Heap α) : Nat → Ptr → β → Option β
  | _, none, b => some b
  | 0, some _, _ => none
  | fuel + 1, some a, b => do
    let c ← h.cell a
    foldPrev f h fuel c.prev (f b a c.val)

/-- Visit the cells from `p` on towards the head, unlinking those of which `test` says so. It
compares them with what the cell at `ref` holds at that time. -/
def sweepPrev (test : α → Nat → α → Bool) (ref : Ptr) :
    Nat → Ptr → DList → Heap α → Option (DList × Heap α)
  | _, none, d, h => some (d, h)
  | 0, some _, _, _ => none
  | fuel + 1, some a, d, h => do
    let r ← h.load ref
    let c ← h.cell a
    if test r.val a c.val then
      let (p, d, h) ← unlink scrub (some a) d h
      sweepPrev test ref fuel p d h
    else sweepPrev test ref fuel c.prev d h

end DList

/-! ## What the operations make of a list -/

section Spec

variable (scrub : Nat → Cell α → Cell α) {d : DList} {h : Heap α} {xs ys zs : List (Nat × α)}
    {x y z : Nat × α}

/-- The empty list. -/
theorem isList_empty : IsList DList.empty (Heap.empty : Heap α) [] :=
  ⟨rfl, rfl, rfl, True.intro, List.nodup_nil, fun _ hx => (nomatch hx)⟩

/-- The cell of an item in the middle. -/
theorem IsList.cell (hl : IsList d h (xs ++ x :: ys)) :
    h.cell x.1 = some ⟨x.2, lastOr none xs, firstOr ys none⟩ := hl.linked.cell

/-- The value of an item. -/
theorem IsList.val (hl : IsList d h xs) (hx : x ∈ xs) : h.val x.1 = some x.2 := by
  obtain ⟨us, vs, rfl⟩ := List.append_of_mem hx
  rw [Heap.val, hl.cell, Option.map_some]

/-- A list has one content. -/
theorem IsList.unique (hl : IsList d h xs) (hl' : IsList d h ys) : xs = ys :=
  hl.linked.unique hl'.linked (hl.start.symm.trans hl'.start)

/-- Both ends are null exactly when the list is empty. -/
theorem IsList.start_eq_none (hl : IsList d h xs) : d.start = none ↔ xs = [] := by
  rw [hl.start]
  cases xs <;> simp [firstOr]

/-- The list is empty exactly if it has no end. -/
theorem IsList.stop_eq_none (hl : IsList d h xs) : d.stop = none ↔ xs = [] := by
  rw [hl.stop]
  constructor
  · intro hnone
    by_contra hne
    obtain ⟨w, -, heq⟩ := exists_lastOr_eq (p := none) hne
    exact nomatch heq.symm.trans hnone
  · rintro rfl
    rfl

/-- A new item is the first. -/
theorem DList.pushFront_spec (hl : IsList d h xs) (v : α) :
    ∃ d' h', DList.pushFront v d h = some (d', h') ∧ IsList d' h' ((h.fresh, v) :: xs) := by
  have hnew : h.fresh ∉ xs.map Prod.fst := by
    intro hmem
    obtain ⟨x, hx, heq⟩ := List.mem_map.mp hmem
    exact absurd (hl.fresh x hx) (heq ▸ Nat.lt_irrefl _)
  have hlinked : DLinked (h.alloc ⟨v, none, d.start⟩) none xs none := by
    refine hl.linked.frame fun x hx => Function.update_of_ne ?_ _ _
    exact Nat.ne_of_lt (hl.fresh x hx)
  have hcell : (h.alloc ⟨v, none, d.start⟩).cell h.fresh = some ⟨v, none, d.start⟩ :=
    Function.update_self _ _ _
  have hfresh : ∀ x ∈ (h.fresh, v) :: xs, x.1 < h.fresh + 1 := by
    intro x hx
    rcases List.mem_cons.mp hx with rfl | hx
    · exact Nat.lt_succ_self _
    · exact Nat.lt_succ_of_lt (hl.fresh x hx)
  cases xs with
  | nil =>
    have hstart : d.start = none := hl.start
    have hsize : d.size = 0 := hl.size
    refine ⟨⟨some h.fresh, some h.fresh, d.size + 1⟩, h.alloc ⟨v, none, d.start⟩, ?_,
      ⟨rfl, rfl, ?_, ⟨?_, True.intro⟩, List.nodup_singleton _, hfresh⟩⟩
    · simp [DList.pushFront, hstart]
    · simp [hsize]
    · exact hcell.trans (by rw [hstart]; rfl)
  | cons x xs =>
    have hstart : d.start = some x.1 := hl.start
    have hx : h.fresh ≠ x.1 := fun heq => hnew (heq ▸ List.mem_cons_self)
    refine ⟨⟨some h.fresh, d.stop, d.size + 1⟩, _, ?_, ⟨rfl, ?_, ?_, ⟨?_, hlinked.set_first ?_ _⟩,
      List.nodup_cons.mpr ⟨hnew, hl.nodup⟩, hfresh⟩⟩
    · unfold DList.pushFront
      rw [hstart] at hlinked ⊢
      simp [Heap.modify_some hlinked.1]
    · exact hl.stop
    · simp [hl.size]
    · rw [Heap.set_cell_of_ne hx, hcell, hstart]
      rfl
    · exact (List.nodup_cons.mp hl.nodup).1

/-- An item is there once. -/
theorem IsList.nodup_middle (hl : IsList d h (xs ++ x :: ys)) :
    x.1 ∉ (xs ++ ys).map Prod.fst ∧ ((xs ++ ys).map Prod.fst).Nodup := by
  have hnodup := hl.nodup
  rw [List.map_append, List.map_cons, List.nodup_middle, ← List.map_append] at hnodup
  exact List.nodup_cons.mp hnodup

/-- Without its last cell. -/
theorem IsList.cut_last (hl : IsList d h (xs ++ [x] ++ [y])) (c : Cell α) :
    IsList ⟨d.start, some x.1, d.size - 1⟩
      ((h.set y.1 c).set x.1 ⟨x.2, lastOr none xs, none⟩) (xs ++ [x]) := by
  obtain ⟨hy, hnodup⟩ := hl.nodup_middle
  rw [List.append_nil] at hy hnodup
  have hx : x.1 ∉ xs.map Prod.fst := by
    rw [List.map_append, List.map_singleton, List.nodup_append_comm] at hnodup
    exact (List.nodup_cons.mp hnodup).1
  have hlinked := (dlinked_append.mp hl.linked).1
  refine ⟨?_, ?_, ?_, (hlinked.set hy c).set_last hx none, hnodup,
    fun w hw => hl.fresh w (List.mem_append_left _ hw)⟩
  · rw [hl.start]
    cases xs <;> rfl
  · simp [lastOr]
  · simp [hl.size]
    omega

/-- Without its first cell. -/
theorem IsList.cut_first (hl : IsList d h (x :: y :: ys)) (c : Cell α) :
    IsList ⟨some y.1, d.stop, d.size - 1⟩
      ((h.set y.1 ⟨y.2, none, firstOr ys none⟩).set x.1 c) (y :: ys) := by
  obtain ⟨hx, hnodup⟩ := List.nodup_cons.mp hl.nodup
  have hy := (List.nodup_cons.mp hnodup).1
  refine ⟨rfl, hl.stop, ?_, ((hl.linked.2).set_first hy none).set hx c, hnodup,
    fun w hw => hl.fresh w (List.mem_cons_of_mem _ hw)⟩
  simp [hl.size]

/-- Without a cell in between. -/
theorem IsList.cut_middle (hl : IsList d h (xs ++ [x] ++ y :: z :: ys)) (c : Cell α) :
    IsList ⟨d.start, d.stop, d.size - 1⟩
      (((h.set z.1 ⟨z.2, some x.1, firstOr ys none⟩).set x.1
        ⟨x.2, lastOr none xs, some z.1⟩).set y.1 c) (xs ++ [x] ++ z :: ys) := by
  obtain ⟨hy, hnodup⟩ := hl.nodup_middle
  rw [List.map_append, List.mem_append, not_or] at hy
  have hz : z.1 ∉ (xs ++ [x]).map Prod.fst ∧ z.1 ∉ ys.map Prod.fst := by
    rw [List.map_append, List.map_cons, List.nodup_middle] at hnodup
    have hnot := (List.nodup_cons.mp hnodup).1
    rw [List.mem_append, not_or] at hnot
    exact hnot
  have hx : x.1 ∉ xs.map Prod.fst ∧ x.1 ∉ (z :: ys).map Prod.fst := by
    rw [List.append_assoc, List.singleton_append, List.map_append, List.map_cons,
      List.nodup_middle] at hnodup
    have hnot := (List.nodup_cons.mp hnodup).1
    rw [List.mem_append, not_or] at hnot
    exact hnot
  obtain ⟨hleft, hright⟩ := dlinked_append.mp hl.linked
  refine ⟨?_, ?_, ?_, dlinked_append.mpr ⟨?_, ?_⟩, hnodup, fun w hw => hl.fresh w ?_⟩
  · rw [hl.start]
    cases xs <;> rfl
  · rw [hl.stop]
    simp [lastOr]
  · simp [hl.size]
    omega
  · exact ((hleft.set hz.1 _).set_last hx.1 _).set hy.1 _
  · rw [lastOr_append]
    exact ((hright.2.set_first hz.2 _).set hx.2 _).set hy.2 _
  · rcases List.mem_append.mp hw with hw | hw
    · exact List.mem_append_left _ hw
    · exact List.mem_append_right _ (List.mem_cons_of_mem _ hw)

/-- The last item is taken off. -/
theorem DList.trimLast_spec (hl : IsList d h (xs ++ [x] ++ [y])) :
    ∃ d' h', DList.trimLast scrub d h = some (d', h') ∧ IsList d' h' (xs ++ [x]) := by
  have hstop : d.stop = some y.1 := by simp [hl.stop, lastOr]
  have hy : h.cell y.1 = some ⟨y.2, some x.1, none⟩ := by
    have hcell := hl.cell
    simpa [lastOr, firstOr] using hcell
  have hx : h.cell x.1 = some ⟨x.2, lastOr none xs, some y.1⟩ := by
    rw [List.append_assoc] at hl
    exact hl.cell
  have hne : x.1 ≠ y.1 := fun heq => hl.nodup_middle.1 (by simp [← heq])
  refine ⟨_, _, ?_, hl.cut_last (scrub y.1 ⟨y.2, some x.1, none⟩)⟩
  unfold DList.trimLast
  rw [hstop, Heap.load_some hy]
  simp only [Option.bind_eq_bind, Option.bind_some, Heap.load_some hx, Heap.free_some scrub hy,
    Heap.modify_some ((Heap.set_cell_of_ne hne _).trans hx)]
  rfl

/-- Unlinking removes the cell from the list, and moves on to the one before. The other values
stay. -/
theorem DList.unlink_spec (hl : IsList d h (xs ++ y :: ys)) :
    ∃ d' h', DList.unlink scrub (some y.1) d h = some (lastOr none xs, d', h') ∧
      IsList d' h' (xs ++ ys) ∧ (∀ b, b ≠ y.1 → h'.val b = h.val b) ∧
      h'.cell y.1 = some (scrub y.1 ⟨y.2, lastOr none xs, firstOr ys none⟩) ∧ h'.fresh =
        h.fresh := by
  have hstart : d.start = firstOr xs (some y.1) := by rw [hl.start]; cases xs <;> rfl
  have hstop : d.stop = lastOr (some y.1) ys := by rw [hl.stop, lastOr_append]; rfl
  have hy := hl.cell
  have hne : ∀ w ∈ xs ++ ys, w.1 ≠ y.1 := fun w hw heq =>
    hl.nodup_middle.1 (heq ▸ List.mem_map_of_mem hw)
  have hisStop (h0 : ys = []) : some y.1 = d.stop := by
    subst h0
    exact hstop.symm
  have hisStart (h0 : xs = []) : some y.1 = d.start := by
    subst h0
    exact hstart.symm
  have hnotStop (h0 : ys ≠ []) : some y.1 ≠ d.stop := by
    obtain ⟨w, hw, heq⟩ := exists_lastOr_eq (p := some y.1) h0
    rw [hstop, heq]
    exact fun h' => hne w (List.mem_append_right _ hw) (Option.some.inj h').symm
  have hnotStart (h0 : xs ≠ []) : some y.1 ≠ d.start := by
    obtain ⟨w, hw, heq⟩ := exists_firstOr_eq (n := some y.1) h0
    rw [hstart, heq]
    exact fun h' => hne w (List.mem_append_left _ hw) (Option.some.inj h').symm
  unfold DList.unlink
  rcases List.eq_nil_or_concat' xs with rfl | ⟨us, x, rfl⟩
  · cases ys with
    | nil =>
      -- the only cell
      refine ⟨⟨none, none, d.size - 1⟩, h.set y.1 (scrub y.1 ⟨y.2, none, none⟩), ?_,
        ⟨rfl, rfl, ?_, True.intro,
        List.nodup_nil, fun _ hw => (nomatch hw)⟩, fun b hb => Heap.val_set_of_ne hb _,
        Heap.set_cell_self _ _ _, rfl⟩
      · rw [if_pos (hisStop rfl), if_pos (hisStart rfl), Heap.free_some scrub hy]
        rfl
      · simp [hl.size]
    | cons z ws =>
      -- the first cell
      have hz : h.cell z.1 = some ⟨z.2, some y.1, firstOr ws none⟩ := hl.linked.2.1
      refine ⟨_, _, ?_, hl.cut_first (scrub y.1 ⟨y.2, none, some z.1⟩), fun b hb => ?_,
        Heap.set_cell_self _ _ _, rfl⟩
      · change h.cell y.1 = some ⟨y.2, none, some z.1⟩ at hy
        rw [if_neg (hnotStop (List.cons_ne_nil _ _)), if_pos (hisStart rfl), Heap.load_some hy]
        simp only [Option.bind_eq_bind, Option.bind_some, Heap.modify_some hz,
          Heap.free_some scrub ((Heap.set_cell_of_ne (hne z (by simp)).symm _).trans hy)]
        rfl
      · exact (Heap.val_set_of_ne hb _).trans (Heap.val_set_of_val hz (by rfl) b)
  · have hx : h.cell x.1 = some ⟨x.2, lastOr none us, some y.1⟩ := by
      rw [List.append_assoc] at hl
      exact hl.cell
    have hxy : x.1 ≠ y.1 := hne x (by simp)
    have hlast : lastOr none (us ++ [x]) = some x.1 := by simp [lastOr]
    rw [hlast] at hy ⊢
    cases ys with
    | nil =>
      -- the last cell
      rw [List.append_nil]
      refine ⟨_, _, ?_, hl.cut_last (scrub y.1 ⟨y.2, some x.1, none⟩), fun b hb => ?_, ?_, rfl⟩
      · rw [if_pos (hisStop rfl), if_neg (hnotStart (by simp)), Heap.load_some hy]
        simp only [Option.bind_eq_bind, Option.bind_some, Heap.load_some hx,
          Heap.free_some scrub hy, Heap.modify_some ((Heap.set_cell_of_ne hxy _).trans hx)]
        rfl
      · exact (Heap.val_set_of_val ((Heap.set_cell_of_ne hxy _).trans hx) (by rfl) b).trans
          (Heap.val_set_of_ne hb _)
      · rw [Heap.set_cell_of_ne hxy.symm, Heap.set_cell_self]
        rfl
    | cons z ws =>
      -- a cell in between
      have hz : h.cell z.1 = some ⟨z.2, some y.1, firstOr ws none⟩ :=
        (dlinked_append.mp hl.linked).2.2.1
      have hxz : x.1 ≠ z.1 := by
        have hnodup := hl.nodup_middle.2
        rw [List.append_assoc, List.singleton_append, List.map_append, List.map_cons,
          List.nodup_middle] at hnodup
        have hnot := (List.nodup_cons.mp hnodup).1
        exact fun heq => hnot (by simp [heq])
      have hx' := (Heap.set_cell_of_ne hxz ⟨z.2, some x.1, firstOr ws none⟩).trans hx
      have hy' := (Heap.set_cell_of_ne (hne z (by simp)).symm
        (⟨z.2, some x.1, firstOr ws none⟩ : Cell α)).trans hy
      refine ⟨_, _, ?_, hl.cut_middle (scrub y.1 ⟨y.2, some x.1, some z.1⟩), fun b hb => ?_,
        Heap.set_cell_self _ _ _, rfl⟩
      · change h.cell y.1 = some ⟨y.2, some x.1, some z.1⟩ at hy
        rw [if_neg (hnotStop (List.cons_ne_nil _ _)), if_neg (hnotStart (by simp)),
          Heap.load_some hy]
        simp only [Option.bind_eq_bind, Option.bind_some, Heap.modify_some hz,
          Heap.modify_some hx', Heap.free_some scrub ((Heap.set_cell_of_ne hxy.symm _).trans hy')]
        rfl
      · exact (Heap.val_set_of_ne hb _).trans
          ((Heap.val_set_of_val hx' (by rfl) b).trans (Heap.val_set_of_val hz (by rfl) b))

/-- Writing the value of a cell. -/
theorem IsList.set_val (hl : IsList d h (xs ++ x :: ys)) (f : α → α) :
    ∃ h', (h.modify (some x.1) fun c => { c with val := f c.val }) = some h' ∧
      IsList d h' (xs ++ (x.1, f x.2) :: ys) := by
  have hx := hl.nodup_middle.1
  rw [List.map_append, List.mem_append, not_or] at hx
  refine ⟨_, Heap.modify_some hl.cell _, ?_, ?_, ?_, dlinked_append.mpr ⟨?_, ?_⟩, ?_, ?_⟩
  · rw [hl.start]
    cases xs <;> rfl
  · rw [hl.stop]
    simp [lastOr]
  · simp [hl.size]
  · exact ((dlinked_append.mp hl.linked).1).set hx.1 _
  · exact ⟨Heap.set_cell_self _ _ _, ((dlinked_append.mp hl.linked).2.2).set hx.2 _⟩
  · simpa using hl.nodup
  · intro w hw
    rcases List.mem_append.mp hw with hw | hw
    · exact hl.fresh w (List.mem_append_left _ hw)
    · rcases List.mem_cons.mp hw with rfl | hw
      · exact hl.fresh x (by simp)
      · exact hl.fresh w (by simp [hw])

/-- The addresses handed out bound the length of a list. -/
theorem IsList.length_le (hl : IsList d h xs) : xs.length ≤ h.fresh := by
  have hsub : (xs.map Prod.fst).toFinset ⊆ Finset.range h.fresh := by
    intro a ha
    obtain ⟨x, hx, rfl⟩ := List.mem_map.mp (List.mem_toFinset.mp ha)
    exact Finset.mem_range.mpr (hl.fresh x hx)
  have hcard := Finset.card_le_card hsub
  rw [List.toFinset_card_of_nodup hl.nodup, List.length_map, Finset.card_range] at hcard
  exact hcard

/-- A search without a match runs off the end. -/
theorem DList.findNext_none {p : Ptr} {test : α → Bool} (hl : DLinked h p xs none) {fuel : Nat}
    (hf : xs.length ≤ fuel) (hall : ∀ x ∈ xs, test x.2 = false) :
    findNext test h fuel (firstOr xs none) = some none := by
  induction xs generalizing p fuel with
  | nil => cases fuel <;> rfl
  | cons x xs ih =>
    obtain ⟨fuel, rfl⟩ := Nat.exists_eq_succ_of_ne_zero (Nat.ne_of_gt (Nat.lt_of_lt_of_le
      (Nat.succ_pos xs.length) hf))
    simp only [firstOr, findNext, hl.1, Option.bind_eq_bind, Option.bind_some,
      hall x List.mem_cons_self, Bool.false_eq_true, if_false]
    exact ih hl.2 (Nat.le_of_succ_le_succ hf) fun w hw => hall w (List.mem_cons_of_mem x hw)

/-- A search stops at the first match. -/
theorem DList.findNext_some {p : Ptr} {test : α → Bool} (hl : DLinked h p (xs ++ x :: ys) none)
    {fuel : Nat} (hf : (xs ++ x :: ys).length ≤ fuel) (hxs : ∀ w ∈ xs, test w.2 = false)
    (hx : test x.2 = true) :
    findNext test h fuel (firstOr (xs ++ x :: ys) none) = some (some x.1) := by
  induction xs generalizing p fuel with
  | nil =>
    obtain ⟨fuel, rfl⟩ := Nat.exists_eq_succ_of_ne_zero (Nat.ne_of_gt (Nat.lt_of_lt_of_le
      (Nat.succ_pos ys.length) hf))
    simp [firstOr, findNext, hl.1, hx]
  | cons w xs ih =>
    obtain ⟨fuel, rfl⟩ := Nat.exists_eq_succ_of_ne_zero (Nat.ne_of_gt (Nat.lt_of_lt_of_le
      (Nat.succ_pos (xs ++ x :: ys).length) hf))
    simp only [List.cons_append, firstOr, findNext, hl.1, Option.bind_eq_bind, Option.bind_some,
      hxs w List.mem_cons_self, Bool.false_eq_true, if_false]
    exact ih hl.2 (Nat.le_of_succ_le_succ hf) fun v hv => hxs v (List.mem_cons_of_mem w hv)

/-- A pass from the end sees the items in reverse. -/
theorem DList.foldPrev_spec {n : Ptr} (f : β → Nat → α → β) (hl : DLinked h none xs n)
    {fuel : Nat} (hf : xs.length ≤ fuel) (b : β) :
    foldPrev f h fuel (lastOr none xs) b = some (xs.foldr (fun x b => f b x.1 x.2) b) := by
  induction xs using List.reverseRecOn generalizing fuel b n with
  | nil => cases fuel <;> rfl
  | append_singleton xs x ih =>
    rw [List.length_append, List.length_singleton] at hf
    obtain ⟨fuel, rfl⟩ := Nat.exists_eq_succ_of_ne_zero (Nat.ne_of_gt (Nat.lt_of_lt_of_le
      (Nat.succ_pos xs.length) hf))
    have hrest := ih (dlinked_append.mp hl).1 (Nat.le_of_succ_le_succ hf) (f b x.1 x.2)
    simpa [lastOr, foldPrev, hl.cell] using hrest

/-- A sweep over `ys`, of which no cell it removes is the one to compare with. -/
theorem DList.sweepPrev_append (test : α → Nat → α → Bool) {f : Nat} {r : α}
    (hl : IsList d h (xs ++ ys ++ zs)) (hr : h.val f = some r)
    (hf : ∀ y ∈ ys, test r y.1 y.2 = true → y.1 ≠ f) (fuel : Nat) :
    ∃ d' h', sweepPrev scrub test (some f) (fuel + ys.length) (lastOr none (xs ++ ys)) d h =
        sweepPrev scrub test (some f) fuel (lastOr none xs) d' h' ∧
      IsList d' h' (xs ++ ys.filter (fun y => !test r y.1 y.2) ++ zs) ∧
      h'.val f = some r ∧ h'.fresh = h.fresh := by
  induction ys using List.reverseRecOn generalizing d h zs with
  | nil => exact ⟨d, h, by simp, by simpa using hl, hr, rfl⟩
  | append_singleton ys y ih =>
    obtain ⟨c, hc, hcr⟩ := Option.map_eq_some_iff.mp hr
    have hf' : ∀ w ∈ ys, test r w.1 w.2 = true → w.1 ≠ f :=
      fun w hw => hf w (List.mem_append_left _ hw)
    have hl' : IsList d h (xs ++ ys ++ y :: zs) := by simpa using hl
    have hstep : sweepPrev scrub test (some f) (fuel + (ys ++ [y]).length)
        (lastOr none (xs ++ (ys ++ [y]))) d h =
        if test r y.1 y.2 then (do
          let (p, d, h) ← unlink scrub (some y.1) d h
          sweepPrev scrub test (some f) (fuel + ys.length) p d h)
        else sweepPrev scrub test (some f) (fuel + ys.length) (lastOr none (xs ++ ys)) d h := by
      rw [← List.append_assoc, lastOr_append, List.length_append, List.length_singleton,
        ← Nat.add_assoc]
      simp only [lastOr, sweepPrev, Heap.load_some hc, hl'.cell, Option.bind_eq_bind,
        Option.bind_some, hcr]
    rw [hstep]
    cases htest : test r y.1 y.2 with
    | true =>
      obtain ⟨d₁, h₁, hunlink, hl₁, hval, -, hfresh⟩ := unlink_spec scrub hl'
      have hne := hf y (List.mem_append_right _ (List.mem_singleton.mpr rfl)) htest
      obtain ⟨d₂, h₂, hrest, hl₂, hr₂, hfresh₂⟩ :=
        ih hl₁ ((hval f hne.symm).trans hr) hf'
      refine ⟨d₂, h₂, ?_, ?_, hr₂, hfresh₂.trans hfresh⟩
      · simpa [hunlink] using hrest
      · simpa [List.filter_append, htest] using hl₂
    | false =>
      obtain ⟨d₂, h₂, hrest, hl₂, hr₂, hfresh₂⟩ := ih hl' hr hf'
      refine ⟨d₂, h₂, ?_, ?_, hr₂, hfresh₂⟩
      · simpa using hrest
      · simpa [List.filter_append, htest] using hl₂

/-- A sweep that removes the cell `x` it compares the others with. The cells nearer to the head
are compared with what is left there. -/
theorem DList.sweepPrev_spec (test : α → Nat → α → Bool) (hl : IsList d h (xs ++ x :: ys))
    (hx : test x.2 x.1 x.2 = true) {fuel : Nat} (hfuel : (xs ++ x :: ys).length ≤ fuel) :
    ∃ d' h', ∃ c : Cell α, c.val = x.2 ∧
      sweepPrev scrub test (some x.1) fuel (lastOr none (xs ++ x :: ys)) d h = some (d', h') ∧
      IsList d' h' (xs.filter (fun w => !test (scrub x.1 c).val w.1 w.2) ++
        ys.filter fun w => !test x.2 w.1 w.2) ∧ h'.fresh = h.fresh := by
  have hne : ∀ w ∈ xs ++ ys, w.1 ≠ x.1 := fun w hw heq =>
    hl.nodup_middle.1 (heq ▸ List.mem_map_of_mem hw)
  obtain ⟨k, rfl⟩ : ∃ k, fuel = k + xs.length + 1 + ys.length :=
    ⟨fuel - (xs ++ x :: ys).length, by simp at hfuel ⊢; omega⟩
  -- from the tail up to the cell
  have hl₀ : IsList d h (xs ++ [x] ++ ys ++ []) := by simpa using hl
  obtain ⟨d₁, h₁, hsweep₁, hl₁, hval₁, hfresh₁⟩ :=
    sweepPrev_append scrub test hl₀ (hl.val (by simp))
      (fun w hw _ => hne w (List.mem_append_right _ hw)) (k + xs.length + 1)
  have hl₁' : IsList d₁ h₁ (xs ++ x :: ys.filter fun w => !test x.2 w.1 w.2) := by
    simpa using hl₁
  -- the cell itself
  obtain ⟨d₂, h₂, hunlink, hl₂, -, hcell₂, hfresh₂⟩ := unlink_spec scrub hl₁'
  have hsweep₂ : sweepPrev scrub test (some x.1) (k + xs.length + 1)
    (lastOr none (xs ++ [x])) d₁ h₁ =
      sweepPrev scrub test (some x.1) (k + xs.length) (lastOr none xs) d₂ h₂ := by
    rw [lastOr_append]
    simp [lastOr, sweepPrev, Heap.load_some hl₁'.cell, hl₁'.cell, hx, hunlink]
  -- on to the head
  have hl₂' : IsList d₂ h₂ ([] ++ xs ++ ys.filter fun w => !test x.2 w.1 w.2) := by
    simpa using hl₂
  obtain ⟨d₃, h₃, hsweep₃, hl₃, -, hfresh₃⟩ :=
    sweepPrev_append scrub test hl₂'
      (by rw [Heap.val, hcell₂, Option.map_some])
      (fun w hw _ => hne w (List.mem_append_left _ hw)) k
  refine ⟨d₃, h₃, _, rfl, ?_, by simpa using hl₃, hfresh₃.trans (hfresh₂.trans hfresh₁)⟩
  calc sweepPrev scrub test (some x.1) (k + xs.length + 1 + ys.length)
        (lastOr none (xs ++ x :: ys)) d h
      = sweepPrev scrub test (some x.1) (k + xs.length + 1 + ys.length)
          (lastOr none (xs ++ [x] ++ ys)) d h := by rw [List.append_assoc, List.singleton_append]
    _ = sweepPrev scrub test (some x.1) (k + xs.length + 1)
      (lastOr none (xs ++ [x])) d₁ h₁ := hsweep₁
    _ = sweepPrev scrub test (some x.1) (k + xs.length) (lastOr none xs) d₂ h₂ := hsweep₂
    _ = sweepPrev scrub test (some x.1) k none d₃ h₃ := hsweep₃
    _ = some (d₃, h₃) := by cases k <;> rfl

end Spec

end Lib
