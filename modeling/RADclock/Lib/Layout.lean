import Mathlib.Data.UInt
import Mathlib.Tactic.Common

/-!
# Records in memory

A record of fixed-width unsigned fields, as the bytes a little-endian machine keeps it in.

- `toBytes`, `ofBytes`: one field.
- `packed`, `unpacked`: the fields of a record one after another; padding is a field too.
- `overwrite`: receiving a message into a buffer that keeps the rest of its contents.
-/

namespace Lib

/-- The low `n` bytes of `v`, least significant first. -/
def toBytes : Nat → Nat → List UInt8
  | 0, _ => []
  | n + 1, v => UInt8.ofNat v :: toBytes n (v / 256)

def ofBytes : List UInt8 → Nat
  | [] => 0
  | b :: bs => b.toNat + 256 * ofBytes bs

@[simp] theorem length_toBytes (n v : Nat) : (toBytes n v).length = n := by
  induction n generalizing v with
  | zero => rfl
  | succ n ih => simp [toBytes, ih]

@[simp] theorem ofBytes_toBytes (n v : Nat) : ofBytes (toBytes n v) = v % 256 ^ n := by
  induction n generalizing v with
  | zero => simp [toBytes, ofBytes, Nat.mod_one]
  | succ n ih =>
    simp only [toBytes, ofBytes, ih]
    rw [Nat.pow_succ', Nat.mod_mul]
    rfl

/-- Fields given by width and value. -/
def packed : List (Nat × Nat) → List UInt8
  | [] => []
  | (w, v) :: fs => toBytes w v ++ packed fs

/-- The fields of the given widths at the front of some bytes. -/
def unpacked : List Nat → List UInt8 → List Nat
  | [], _ => []
  | w :: ws, bs => ofBytes (bs.take w) :: unpacked ws (bs.drop w)

@[simp] theorem length_packed (fs : List (Nat × Nat)) :
    (packed fs).length = (fs.map Prod.fst).sum := by
  induction fs with
  | nil => rfl
  | cons f fs ih => simp [packed, ih]

theorem unpacked_packed (fs : List (Nat × Nat)) (rest : List UInt8) :
    unpacked (fs.map Prod.fst) (packed fs ++ rest) = fs.map fun f => f.2 % 256 ^ f.1 := by
  induction fs with
  | nil => rfl
  | cons f fs ih =>
    have htake : (packed (f :: fs) ++ rest).take f.1 = toBytes f.1 f.2 := by
      rw [packed, List.append_assoc]
      exact List.take_left' (length_toBytes _ _)
    have hdrop : (packed (f :: fs) ++ rest).drop f.1 = packed fs ++ rest := by
      rw [packed, List.append_assoc]
      exact List.drop_left' (length_toBytes _ _)
    simp only [List.map_cons, unpacked, htake, hdrop, ofBytes_toBytes, ih]

/-- Only the bytes of the fields matter. -/
theorem unpacked_take (ws : List Nat) (bs : List UInt8) {n : Nat} (h : ws.sum ≤ n) :
    unpacked ws (bs.take n) = unpacked ws bs := by
  induction ws generalizing bs n with
  | nil => rfl
  | cons w ws ih =>
    rw [List.sum_cons] at h
    have htake : (bs.take n).take w = bs.take w := by
      rw [List.take_take, Nat.min_eq_left (by omega)]
    have hdrop : (bs.take n).drop w = (bs.drop w).take (n - w) := List.drop_take ..
    rw [unpacked, unpacked, htake, hdrop, ih _ (by omega)]

/-- A buffer after `msg` has been received into it. -/
def overwrite (buf msg : List UInt8) : List UInt8 := msg.take buf.length ++ buf.drop msg.length

end Lib
