import RADclock.Lib.Layout
import Mathlib.Data.List.GetD
import Mathlib.Tactic.Ring

/-!
# Byte orders and memory

Numbers stored in memory by a machine of either byte order, and memory that is read and copied
byte by byte.

- `load`, `store`: a number in the byte order of the machine.
- `swapBytes`, `ntoh`: between the byte order of the machine and that of the network.
- `bytesAt`, `memcpy`: bytes of a memory, and a copy into it.
-/

namespace Lib

/-! ## Byte orders -/

theorem toBytes_ofBytes (bs : List UInt8) : toBytes bs.length (ofBytes bs) = bs := by
  induction bs with
  | nil => rfl
  | cons b bs ih =>
    have hhead : UInt8.ofNat (b.toNat + 256 * ofBytes bs) = b := by
      apply UInt8.toNat_inj.mp
      rw [UInt8.toNat_ofNat']
      have := b.toNat_lt
      omega
    have htail : (b.toNat + 256 * ofBytes bs) / 256 = ofBytes bs := by
      have := b.toNat_lt
      omega
    rw [List.length_cons, ofBytes, toBytes, hhead, htail, ih]

theorem toBytes_add (m n v : Nat) : toBytes (m + n) v = toBytes m v ++ toBytes n (v / 256 ^ m) := by
  induction m generalizing v with
  | zero => simp [toBytes]
  | succ m ih =>
    rw [Nat.succ_add, toBytes, ih, Nat.div_div_eq_div_mul, ← Nat.pow_succ']
    rfl

theorem ofBytes_append (as bs : List UInt8) :
    ofBytes (as ++ bs) = ofBytes as + 256 ^ as.length * ofBytes bs := by
  induction as with
  | nil => simp [ofBytes]
  | cons a as ih =>
    rw [List.cons_append, ofBytes, ih, ofBytes, List.length_cons, Nat.pow_succ']
    ring

theorem ofBytes_lt (bs : List UInt8) : ofBytes bs < 256 ^ bs.length := by
  induction bs with
  | nil => exact Nat.one_pos
  | cons b bs ih =>
    rw [ofBytes, List.length_cons, Nat.pow_succ']
    have := b.toNat_lt
    omega

/-- The number with the low `n` bytes of `v` in the opposite order. -/
def swapBytes (n v : Nat) : Nat := ofBytes (toBytes n v).reverse

theorem toBytes_swapBytes (n v : Nat) : toBytes n (swapBytes n v) = (toBytes n v).reverse := by
  have h := toBytes_ofBytes (toBytes n v).reverse
  rwa [List.length_reverse, length_toBytes] at h

theorem swapBytes_ofBytes {n : Nat} {bs : List UInt8} (h : bs.length = n) :
    swapBytes n (ofBytes bs) = ofBytes bs.reverse := by
  rw [swapBytes, ← h, toBytes_ofBytes]

/-- Two parts are swapped each on its own and change places. -/
theorem swapBytes_add (m n v : Nat) :
    swapBytes (m + n) v = swapBytes n (v / 256 ^ m) + 256 ^ n * swapBytes m v := by
  rw [swapBytes, toBytes_add, List.reverse_append, ofBytes_append, List.length_reverse,
    length_toBytes]
  rfl

theorem swapBytes_lt (n v : Nat) : swapBytes n v < 256 ^ n := by
  have h := ofBytes_lt (toBytes n v).reverse
  rwa [List.length_reverse, length_toBytes] at h

theorem swapBytes_mod (n v : Nat) : swapBytes n (v % 256 ^ n) = swapBytes n v := by
  have h := toBytes_ofBytes (toBytes n v)
  rw [length_toBytes, ofBytes_toBytes] at h
  rw [swapBytes, h]
  rfl

/-- The number in some bytes, on a machine that is big-endian or not. -/
def load (big : Bool) (bs : List UInt8) : Nat := ofBytes (if big then bs.reverse else bs)

/-- The `n` bytes that such a machine keeps `v` in. -/
def store (big : Bool) (n v : Nat) : List UInt8 :=
  if big then (toBytes n v).reverse else toBytes n v

/-- From the byte order of the machine to that of the network, which is big-endian, or back. -/
def ntoh (big : Bool) (n v : Nat) : Nat := if big then v else swapBytes n v

@[simp] theorem length_store (big : Bool) (n v : Nat) : (store big n v).length = n := by
  cases big <;> simp [store]

@[simp] theorem load_store (big : Bool) (n v : Nat) : load big (store big n v) = v % 256 ^ n := by
  cases big <;> simp [load, store]

theorem load_lt (big : Bool) (bs : List UInt8) : load big bs < 256 ^ bs.length := by
  cases big with
  | true => exact (ofBytes_lt bs.reverse).trans_eq (by rw [List.length_reverse])
  | false => exact ofBytes_lt bs

/-- A number has one representation of a length. -/
theorem load_inj (big : Bool) {bs bs' : List UInt8} (hlen : bs.length = bs'.length)
    (h : load big bs = load big bs') : bs = bs' := by
  have hinj : ∀ cs cs' : List UInt8, cs.length = cs'.length → ofBytes cs = ofBytes cs' → cs = cs' :=
    fun cs cs' hl he => by rw [← toBytes_ofBytes cs, hl, he, toBytes_ofBytes]
  cases big with
  | true => exact List.reverse_inj.mp (hinj _ _ (by simpa using hlen) h)
  | false => exact hinj _ _ hlen h

/-- A number received from the network. -/
theorem ntoh_load {n : Nat} {bs : List UInt8} (big : Bool) (h : bs.length = n) :
    ntoh big n (load big bs) = load true bs := by
  cases big with
  | true => rfl
  | false => exact swapBytes_ofBytes h

/-- A number to be sent to the network. -/
theorem store_ntoh (big : Bool) (n v : Nat) : store big n (ntoh big n v) = store true n v := by
  cases big with
  | true => rfl
  | false => exact toBytes_swapBytes n v

/-- A number that goes from one machine to another, in the byte order of the network. -/
theorem ntoh_load_store (big big' : Bool) {n v : Nat} (h : v < 256 ^ n) :
    ntoh big' n (load big' (store big n v)) = ntoh big n v := by
  rw [ntoh_load big' (length_store big n v), ← ntoh_load big (length_store big n v), load_store,
    Nat.mod_eq_of_lt h]

/-! ## Memory -/

/-- The `n` bytes of a memory from `off` on. -/
def bytesAt (mem : Nat → UInt8) (off n : Nat) : List UInt8 :=
  (List.range n).map fun i => mem (off + i)

/-- A memory after some bytes have been copied to `off`. -/
def memcpy (mem : Nat → UInt8) (off : Nat) (bs : List UInt8) : Nat → UInt8 :=
  fun i => if off ≤ i ∧ i < off + bs.length then bs.getD (i - off) 0 else mem i

@[simp] theorem length_bytesAt (mem : Nat → UInt8) (off n : Nat) :
    (bytesAt mem off n).length = n := by
  simp [bytesAt]

theorem bytesAt_congr {mem mem' : Nat → UInt8} {off off' n : Nat}
    (h : ∀ i < n, mem (off + i) = mem' (off' + i)) : bytesAt mem off n = bytesAt mem' off' n := by
  apply List.map_congr_left
  intro i hi
  exact h i (List.mem_range.mp hi)

/-- A part of some bytes. -/
theorem bytesAt_part (mem : Nat → UInt8) (off : Nat) {k m n : Nat} (h : k + m ≤ n) :
    bytesAt mem (off + k) m = ((bytesAt mem off n).drop k).take m := by
  apply List.ext_getElem
  · simp only [length_bytesAt, List.length_take, List.length_drop]
    omega
  · intro i hi hi'
    simp only [bytesAt, List.getElem_map, List.getElem_range, List.getElem_take, List.getElem_drop,
      Nat.add_assoc]

/-- A field between two parts of a record. -/
theorem bytesAt_field {mem : Nat → UInt8} {off n : Nat} (before field : List UInt8)
    {after : List UInt8} (h : bytesAt mem off n = before ++ (field ++ after)) :
    bytesAt mem (off + before.length) field.length = field := by
  have hlen := congrArg List.length h
  simp only [length_bytesAt, List.length_append] at hlen
  rw [bytesAt_part mem off (show before.length + field.length ≤ n by omega), h,
    List.drop_left, List.take_left]

/-- A field of a record whose fields are all of one width. -/
theorem bytesAt_flatMap {α : Type} {mem : Nat → UInt8} {off n w i : Nat} {f : α → List UInt8}
    (hw : ∀ a, (f a).length = w) {as : List α} (h : bytesAt mem off n = as.flatMap f)
    (hi : i < as.length) : bytesAt mem (off + w * i) w = f as[i] := by
  have hsplit : as = as.take i ++ as[i] :: as.drop (i + 1) := by
    rw [← List.drop_eq_getElem_cons hi, List.take_append_drop]
  have hlen : ((as.take i).flatMap f).length = w * i := by
    simp only [List.length_flatMap, hw, List.map_const', List.sum_replicate_nat, List.length_take,
      Nat.min_eq_left hi.le, Nat.mul_comm]
  rw [hsplit, List.flatMap_append, List.flatMap_cons] at h
  have hfield := bytesAt_field _ _ h
  rwa [hlen, hw] at hfield

/-- A copy leaves the bytes next to it alone. -/
theorem memcpy_of_disjoint (mem : Nat → UInt8) {off i : Nat} {bs : List UInt8}
    (h : i < off ∨ off + bs.length ≤ i) : memcpy mem off bs i = mem i := by
  rw [memcpy, if_neg (by omega)]

theorem memcpy_of_mem (mem : Nat → UInt8) {off i : Nat} {bs : List UInt8} (h : i < bs.length) :
    memcpy mem off bs (off + i) = bs.getD i 0 := by
  rw [memcpy, if_pos (by omega), Nat.add_sub_cancel_left]

theorem bytesAt_memcpy_of_disjoint (mem : Nat → UInt8) {off off' n : Nat} {bs : List UInt8}
    (h : off' + n ≤ off ∨ off + bs.length ≤ off') :
    bytesAt (memcpy mem off bs) off' n = bytesAt mem off' n :=
  bytesAt_congr fun _ _ => memcpy_of_disjoint mem (by omega)

/-- What has been copied is read back. -/
theorem bytesAt_memcpy (mem : Nat → UInt8) (off : Nat) {n : Nat} {bs : List UInt8}
    (h : bs.length = n) : bytesAt (memcpy mem off bs) off n = bs := by
  apply List.ext_getElem
  · rw [length_bytesAt, h]
  · intro i hi hbs
    simp only [bytesAt, List.getElem_map, List.getElem_range]
    rw [memcpy_of_mem mem hbs, List.getD_eq_getElem _ _ hbs]

end Lib
