import RADclock.Lib.RingBuffer
import RADclock.Lib.Runs

/-!
# The alarm buffer (`FIFO.c`)

The signal handler puts the servers whose timers fire into a buffer, from which the trigger thread
gets them. Both indices are 64-bit counters that are taken modulo the capacity, a signed `int`.

- `fifoGet`, `fifoPut`: the code.
- `Queue.step`: a bounded queue from which the oldest value is dropped.
- `fifo_refines`: what a run of either returns is the same.
-/

namespace RADclock.Ntp

open Lib

/-! ## The code -/

/-- `struct FIFO`. -/
structure Fifo where
  getID : UInt64
  putID : UInt64
  buffer : Nat → Int32
  capacity : Int32

/-- `FIFO_init`, when memory is to be had; that of the buffer is not set. -/
def fifoInit (buffer : Nat → Int32) (buffSize : Int32) : Fifo :=
  { getID := 0, putID := 0, buffer := buffer, capacity := buffSize }

/-- The capacity as it is converted for arithmetic with the indices. -/
def Fifo.modulus (fifo : Fifo) : UInt64 := fifo.capacity.toInt64.toUInt64

/-- `FIFO_get`: its return value, and `*data` if it is set. -/
def fifoGet (fifo : Fifo) : Fifo × Int32 × Option Int32 :=
  if fifo.putID = fifo.getID then (fifo, -1, none)
  else
    ({ fifo with getID := fifo.getID + 1 }, 0,
      some (fifo.buffer (fifo.getID % fifo.modulus).toNat))

/-- `FIFO_put`. -/
def fifoPut (fifo : Fifo) (data : Int32) : Fifo × Int32 :=
  let full := fifo.modulus ≤ fifo.putID - fifo.getID
  ({ fifo with
      getID := if full then fifo.getID + 1 else fifo.getID
      putID := fifo.putID + 1
      buffer := Function.update fifo.buffer (fifo.putID % fifo.modulus).toNat data },
    if full then -1 else 0)

/-- An operation on the buffer. -/
inductive FifoOp where
  | put (data : Int32)
  | get
deriving DecidableEq, Repr

def FifoOp.isPut : FifoOp → Bool
  | .put _ => true
  | .get => false

/-- An operation, with its return value and the data it hands out. -/
def Fifo.step (fifo : Fifo) : FifoOp → Fifo × Int32 × Option Int32
  | .put data => ((fifoPut fifo data).1, (fifoPut fifo data).2, none)
  | .get => fifoGet fifo

/-! ## Bounded queues -/

/-- An operation on a bounded queue, oldest value first. -/
def Queue.step (capacity : Nat) (queue : List Int32) : FifoOp → List Int32 × Int32 × Option Int32
  | .put data =>
    (putDropOldest capacity queue data, if capacity ≤ queue.length then -1 else 0, none)
  | .get =>
    match queue with
    | [] => ([], -1, none)
    | data :: queue => (queue, 0, some data)

/-- The values of the buffer, oldest first. -/
def Fifo.contents (fifo : Fifo) : List Int32 :=
  ringList fifo.buffer fifo.capacity.toInt.toNat fifo.getID.toNat
    (fifo.putID.toNat - fifo.getID.toNat)

/-! ## Refinement -/

/-- The buffer holds the queue, and has an index for each of the puts to come. -/
structure Holds (capacity : Int32) (ops : List FifoOp) (fifo : Fifo) (queue : List Int32) :
    Prop where
  same : fifo.capacity = capacity
  getID_le : fifo.getID.toNat ≤ fifo.putID.toNat
  le_capacity : fifo.putID.toNat - fifo.getID.toNat ≤ capacity.toInt.toNat
  room : fifo.putID.toNat + ops.countP FifoOp.isPut < 2 ^ 64
  contents : fifo.contents = queue

section

variable {capacity : Int32} {ops : List FifoOp} {fifo : Fifo} {queue : List Int32}

/-- A positive capacity is converted to itself. -/
theorem toNat_modulus (hcap : 0 < fifo.capacity) :
    fifo.modulus.toNat = fifo.capacity.toInt.toNat := by
  have hpos : 0 < fifo.capacity.toInt := Int32.lt_iff_toInt_lt.mp hcap
  have hlt := fifo.modulus.toNat_lt
  have htoInt : fifo.modulus.toBitVec.toInt = fifo.capacity.toInt :=
    Int32.toInt_toInt64 fifo.capacity
  rw [BitVec.toInt_eq_toNat_cond] at htoInt
  change (if 2 * fifo.modulus.toNat < 2 ^ 64 then (fifo.modulus.toNat : Int)
    else fifo.modulus.toNat - (2 ^ 64 : Nat)) = _ at htoInt
  split at htoInt <;> omega

theorem Holds.length (h : Holds capacity ops fifo queue) :
    queue.length = fifo.putID.toNat - fifo.getID.toNat := by
  rw [← h.contents, Fifo.contents, length_ringList]

theorem Holds.size (h : Holds capacity ops fifo queue) :
    (fifo.putID - fifo.getID).toNat = queue.length := by
  rw [h.length, UInt64.toNat_sub_of_le _ _ (UInt64.le_iff_toNat_le.mpr h.getID_le)]

theorem Holds.get (hcap : 0 < capacity) (h : Holds capacity (.get :: ops) fifo queue) :
    (fifo.step .get).2 = (Queue.step capacity.toInt.toNat queue .get).2 ∧
      Holds capacity ops (fifo.step .get).1 (Queue.step capacity.toInt.toNat queue .get).1 := by
  obtain rfl := h.same
  have hlen := h.length
  cases queue with
  | nil =>
    have hempty : fifo.putID = fifo.getID := by
      rw [← UInt64.toNat_inj]
      have := h.getID_le
      rw [List.length_nil] at hlen
      omega
    have hstep : fifo.step .get = (fifo, -1, none) := if_pos hempty
    rw [hstep]
    exact ⟨rfl, ⟨rfl, h.getID_le, h.le_capacity, h.room, h.contents⟩⟩
  | cons data queue =>
    have hne : fifo.putID ≠ fifo.getID := fun heq => by
      rw [heq, List.length_cons] at hlen
      omega
    rw [List.length_cons] at hlen
    have hlt := fifo.putID.toNat_lt
    have hnext : (fifo.getID + 1).toNat = fifo.getID.toNat + 1 := by
      rw [UInt64.toNat_add, UInt64.toNat_one, Nat.mod_eq_of_lt (by omega)]
    -- the oldest value, and the rest
    have hcontents := h.contents
    rw [Fifo.contents, ← hlen, ringList_cons, List.cons.injEq] at hcontents
    have hstep : fifo.step .get = ({ fifo with getID := fifo.getID + 1 }, 0, some data) := by
      have hindex : (fifo.getID % fifo.modulus).toNat =
          fifo.getID.toNat % fifo.capacity.toInt.toNat := by
        rw [UInt64.toNat_mod, toNat_modulus hcap]
      show fifoGet fifo = _
      rw [fifoGet, if_neg hne, hindex, hcontents.1]
    rw [hstep]
    refine ⟨rfl, rfl, ?_, ?_, h.room, ?_⟩
    · show (fifo.getID + 1).toNat ≤ fifo.putID.toNat
      omega
    · have := h.le_capacity
      show fifo.putID.toNat - (fifo.getID + 1).toNat ≤ _
      omega
    · show ringList fifo.buffer fifo.capacity.toInt.toNat (fifo.getID + 1).toNat
        (fifo.putID.toNat - (fifo.getID + 1).toNat) = queue
      rw [hnext, show fifo.putID.toNat - (fifo.getID.toNat + 1) = queue.length by omega]
      exact hcontents.2

theorem Holds.put (hcap : 0 < capacity) {data : Int32}
    (h : Holds capacity (.put data :: ops) fifo queue) :
    (fifo.step (.put data)).2 = (Queue.step capacity.toInt.toNat queue (.put data)).2 ∧
      Holds capacity ops (fifo.step (.put data)).1
        (Queue.step capacity.toInt.toNat queue (.put data)).1 := by
  obtain rfl := h.same
  have hpos : 0 < fifo.capacity.toInt := Int32.lt_iff_toInt_lt.mp hcap
  have hlen := h.length
  have hle := h.getID_le
  have hbound := h.le_capacity
  have hroom := h.room
  rw [List.countP_cons_of_pos rfl] at hroom
  have hput : (fifo.putID + 1).toNat = fifo.putID.toNat + 1 := by
    rw [UInt64.toNat_add, UInt64.toNat_one, Nat.mod_eq_of_lt (by omega)]
  have hindex : (fifo.putID % fifo.modulus).toNat =
      fifo.putID.toNat % fifo.capacity.toInt.toNat := by
    rw [UInt64.toNat_mod, toNat_modulus hcap]
  have hfull : fifo.modulus ≤ fifo.putID - fifo.getID ↔
      fifo.capacity.toInt.toNat ≤ queue.length := by
    rw [UInt64.le_iff_toNat_le, h.size, toNat_modulus hcap]
  have hcontents := h.contents
  rw [Fifo.contents, ← hlen] at hcontents
  have hput' : fifo.putID.toNat = fifo.getID.toNat + queue.length := by omega
  by_cases hc : fifo.capacity.toInt.toNat ≤ queue.length
  · -- the oldest value is dropped, and the new one takes its slot
    cases queue with
    | nil =>
      rw [List.length_nil] at hc
      omega
    | cons oldest rest =>
      have hget : (fifo.getID + 1).toNat = fifo.getID.toNat + 1 := by
        have := fifo.putID.toNat_lt
        rw [List.length_cons] at hlen
        rw [UInt64.toNat_add, UInt64.toNat_one, Nat.mod_eq_of_lt (by omega)]
      have hstep : fifo.step (.put data) =
          (⟨fifo.getID + 1, fifo.putID + 1, Function.update fifo.buffer
            (fifo.putID.toNat % fifo.capacity.toInt.toNat) data, fifo.capacity⟩, -1, none) := by
        simp only [Fifo.step, fifoPut, hfull, if_pos hc, hindex]
      have hstep' : Queue.step fifo.capacity.toInt.toNat (oldest :: rest) (.put data) =
          (rest ++ [data], -1, none) := by
        simp only [Queue.step, putDropOldest, if_pos hc, List.tail_cons]
      rw [List.length_cons] at hlen hput' hcontents
      rw [ringList_cons, List.cons.injEq] at hcontents
      rw [hstep, hstep']
      refine ⟨rfl, rfl, ?_, ?_, ?_, ?_⟩
      · show (fifo.getID + 1).toNat ≤ (fifo.putID + 1).toNat
        omega
      · show (fifo.putID + 1).toNat - (fifo.getID + 1).toNat ≤ _
        omega
      · show (fifo.putID + 1).toNat + _ < _
        omega
      · show ringList _ _ (fifo.getID + 1).toNat
          ((fifo.putID + 1).toNat - (fifo.getID + 1).toNat) = _
        rw [hget, hput, show fifo.putID.toNat + 1 - (fifo.getID.toNat + 1) =
          rest.length + 1 by omega,
          show fifo.putID.toNat = fifo.getID.toNat + 1 + rest.length by omega,
          ringList_put (by omega), hcontents.2]
  · have hstep : fifo.step (.put data) =
        (⟨fifo.getID, fifo.putID + 1, Function.update fifo.buffer
          (fifo.putID.toNat % fifo.capacity.toInt.toNat) data, fifo.capacity⟩, 0, none) := by
      simp only [Fifo.step, fifoPut, hfull, if_neg hc, hindex]
    have hstep' : Queue.step fifo.capacity.toInt.toNat queue (.put data) =
        (queue ++ [data], 0, none) := by
      simp only [Queue.step, putDropOldest, if_neg hc]
    rw [hstep, hstep']
    refine ⟨rfl, rfl, ?_, ?_, ?_, ?_⟩
    · show fifo.getID.toNat ≤ (fifo.putID + 1).toNat
      omega
    · show (fifo.putID + 1).toNat - fifo.getID.toNat ≤ _
      omega
    · show (fifo.putID + 1).toNat + _ < _
      omega
    · show ringList _ _ fifo.getID.toNat ((fifo.putID + 1).toNat - fifo.getID.toNat) = _
      rw [hput, show fifo.putID.toNat + 1 - fifo.getID.toNat = queue.length + 1 by omega, hput',
        ringList_put (by omega), hcontents]

/-- Every operation of the buffer is that of the queue. -/
theorem Holds.step (hcap : 0 < capacity) (op : FifoOp) (h : Holds capacity (op :: ops) fifo queue) :
    (fifo.step op).2 = (Queue.step capacity.toInt.toNat queue op).2 ∧
      Holds capacity ops (fifo.step op).1 (Queue.step capacity.toInt.toNat queue op).1 := by
  cases op with
  | put data => exact h.put hcap
  | get => exact h.get hcap

theorem holds_init (buffer : Nat → Int32) (hputs : ops.countP FifoOp.isPut < 2 ^ 64) :
    Holds capacity ops (fifoInit buffer capacity) [] where
  same := rfl
  getID_le := Nat.le_refl _
  le_capacity := by simp [fifoInit]
  room := by simpa [fifoInit] using hputs
  contents := rfl

end

/-- With fewer than `2 ^ 64` puts, the buffer is a bounded queue that drops its oldest value: all
operations return the same, it has the same contents afterwards, and a get that finds it empty
leaves it as it is. -/
theorem fifo_refines (capacity : Int32) (hcap : 0 < capacity) (buffer : Nat → Int32)
    (ops : List FifoOp) (hputs : ops.countP FifoOp.isPut < 2 ^ 64) :
    let fifo := (runOut Fifo.step (fifoInit buffer capacity) ops).1
    let queue := (runOut (Queue.step capacity.toInt.toNat) [] ops).1
    (runOut Fifo.step (fifoInit buffer capacity) ops).2 =
        (runOut (Queue.step capacity.toInt.toNat) [] ops).2 ∧
      fifo.contents = queue ∧ queue.length ≤ capacity.toInt.toNat ∧
      (queue = [] → fifoGet fifo = (fifo, -1, none)) := by
  intro fifo queue
  obtain ⟨houts, hend⟩ :=
    runOut_sim (R := Holds capacity) (fun op _ _ _ h => h.step hcap op) ops _ _
    (holds_init buffer hputs)
  refine ⟨houts, hend.contents, hend.length ▸ hend.le_capacity, fun hnil => if_pos ?_⟩
  rw [← UInt64.toNat_inj]
  have hle : fifo.getID.toNat ≤ fifo.putID.toNat := hend.getID_le
  have hlen : queue.length = fifo.putID.toNat - fifo.getID.toNat := hend.length
  rw [hnil, List.length_nil] at hlen
  omega

/-- A buffer of two values that overflows and is drained. -/
theorem fifo_refines_overflow :
    (runOut Fifo.step (fifoInit (fun _ => 0) 2) [.put 5, .put 6, .put 7, .get, .get, .get]).2 =
      (runOut (Queue.step 2) [] [.put 5, .put 6, .put 7, .get, .get, .get]).2 ∧
    (runOut (Queue.step 2) [] [.put 5, .put 6, .put 7, .get, .get, .get]).2 =
      [(0, none), (0, none), (-1, none), (0, some 6), (0, some 7), (-1, none)] :=
  ⟨(fifo_refines 2 (by decide) (fun _ => 0) [.put 5, .put 6, .put 7, .get, .get, .get]
    (by decide)).1, by decide⟩

end RADclock.Ntp
