import Mathlib.Data.Nat.ModEq
import Mathlib.Data.List.Range
import Mathlib.Logic.Function.Basic

/-!
# Ring buffers with absolute indices

A queue in an array: its values have consecutive absolute indices, and each is kept at its index
modulo the capacity.

- `ringList`: the values of an interval of indices, oldest first.
- `ringList_cons`, `ringList_concat`: an interval grows at either end.
- `ringList_update`: a write beyond the interval, to a slot that it does not use.
- `putDropOldest`: a bounded queue whose oldest value gives way when it is full.
-/

namespace Lib

variable {α : Type}

/-- The `n` values from index `g` on. -/
def ringList (buffer : Nat → α) (capacity g n : Nat) : List α :=
  (List.range' g n).map fun i => buffer (i % capacity)

variable {buffer : Nat → α} {capacity g n : Nat}

@[simp]
theorem length_ringList : (ringList buffer capacity g n).length = n := by
  rw [ringList, List.length_map, List.length_range']

theorem ringList_cons : ringList buffer capacity g (n + 1) =
    buffer (g % capacity) :: ringList buffer capacity (g + 1) n := by
  rw [ringList, List.range'_succ, List.map_cons, ringList]

theorem ringList_concat : ringList buffer capacity g (n + 1) =
    ringList buffer capacity g n ++ [buffer ((g + n) % capacity)] := by
  rw [ringList, List.range'_concat, List.map_append, List.map_singleton, Nat.one_mul, ringList]

/-- Fewer than `capacity` further indices are in other slots. -/
theorem ringList_update (h : n < capacity) (v : α) :
    ringList (Function.update buffer ((g + n) % capacity) v) capacity g n =
      ringList buffer capacity g n := by
  refine List.map_congr_left fun i hi => Function.update_of_ne (fun hmod => ?_) _ _
  obtain ⟨hle, hlt⟩ := List.mem_range'_1.mp hi
  -- `i` and `g + n` are congruent, and less than the capacity apart.
  have hdvd : capacity ∣ g + n - i := (Nat.modEq_iff_dvd' (by omega)).mp hmod
  exact absurd (Nat.le_of_dvd (by omega) hdvd) (by omega)

/-- Put the next value into a buffer that is not full. -/
theorem ringList_put (h : n < capacity) (v : α) :
    ringList (Function.update buffer ((g + n) % capacity) v) capacity g (n + 1) =
      ringList buffer capacity g n ++ [v] := by
  rw [ringList_concat, ringList_update h, Function.update_self]

/-! ## Bounded queues -/

/-- Append to a queue, from which the oldest value is dropped if it is full. -/
def putDropOldest (capacity : Nat) (queue : List α) (v : α) : List α :=
  (if capacity ≤ queue.length then queue.tail else queue) ++ [v]

end Lib
