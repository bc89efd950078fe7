import Mathlib.Order.Lattice
import Mathlib.Data.Nat.Basic

/-!
# The first minimum of a window

Over a window `[j, i]` of a series a minimum may be attained at several indices; the first of them
is unique, and what becomes of it when the window slides by one is a case analysis on the values
that enter and leave.

- `FirstMin g j i k`: `k` is the first index of a minimum of `g` over `[j, i]`.
- `FirstMin.snoc_lt`, `FirstMin.snoc_ge`, `FirstMin.tail`: the window grows on the right, or loses
  its left end.
- `FirstMin.unique`: there is no other.
-/

namespace Lib

variable {κ : Type*} [LinearOrder κ] {g g' : ℕ → κ} {j i k k' : ℕ}

/-- `k` is the first index of a minimum of `g` over `[j, i]`. -/
structure FirstMin (g : ℕ → κ) (j i k : ℕ) : Prop where
  left : j ≤ k
  right : k ≤ i
  before : ∀ m, j ≤ m → m < k → g k < g m
  le : ∀ m, j ≤ m → m ≤ i → g k ≤ g m

theorem firstMin_self (g : ℕ → κ) (j : ℕ) : FirstMin g j j j where
  left := le_rfl
  right := le_rfl
  before m h1 h2 := absurd h1 (Nat.not_le.mpr h2)
  le m h1 h2 := by rw [Nat.le_antisymm h2 h1]

theorem FirstMin.unique (h : FirstMin g j i k) (h' : FirstMin g j i k') : k = k' := by
  rcases Nat.lt_trichotomy k k' with hlt | heq | hgt
  · exact absurd (h.le k' h'.left h'.right) (not_le.mpr (h'.before k h.left hlt))
  · exact heq
  · exact absurd (h'.le k h.left h.right) (not_le.mpr (h.before k' h'.left hgt))

/-- A new value below the minimum is the minimum of the longer window. -/
theorem FirstMin.snoc_lt (h : FirstMin g j i k) (hlt : g (i + 1) < g k) :
    FirstMin g j (i + 1) (i + 1) where
  left := Nat.le_succ_of_le (h.left.trans h.right)
  right := le_rfl
  before m h1 h2 := hlt.trans_le (h.le m h1 (Nat.le_of_lt_succ h2))
  le m h1 h2 := by
    rcases Nat.lt_or_eq_of_le h2 with hm | rfl
    · exact hlt.le.trans (h.le m h1 (Nat.le_of_lt_succ hm))
    · exact le_rfl

/-- A new value not below the minimum leaves it in place. -/
theorem FirstMin.snoc_ge (h : FirstMin g j i k) (hge : g k ≤ g (i + 1)) :
    FirstMin g j (i + 1) k where
  left := h.left
  right := Nat.le_succ_of_le h.right
  before := h.before
  le m h1 h2 := by
    rcases Nat.lt_or_eq_of_le h2 with hm | rfl
    · exact h.le m h1 (Nat.le_of_lt_succ hm)
    · exact hge

/-- The left end may go unless it is the minimum. -/
theorem FirstMin.tail (h : FirstMin g j i k) (hne : j ≠ k) : FirstMin g (j + 1) i k where
  left := Nat.lt_of_le_of_ne h.left hne
  right := h.right
  before m h1 h2 := h.before m (Nat.le_of_succ_le h1) h2
  le m h1 h2 := h.le m (Nat.le_of_succ_le h1) h2

end Lib
