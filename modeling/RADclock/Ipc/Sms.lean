import Mathlib.Algebra.Ring.Nat
import Mathlib.Logic.Function.Basic
import RADclock.Lib.Runs

/-!
# The shared memory segment (`radclock-private.h`, `update_ipc_shared_memory`, `radapi-*.c`)

One writer publishes the clock data through two buffers, a pair of offsets and a generation
number; readers are other processes that copy fields out and retry when the generation has
moved. The steps of the model are the single accesses to the segment, in program order, and
a run is any interleaving of them.

- `Sms`: the segment. The error buffers have offsets of their own and no reader of the data
  looks at them.
- `writerStep`: `update_ipc_shared_memory`, over and over.
- `Prog`: what a reader does between its tests of the generation, as a machine that asks for
  the next access; `getter`, `difftimeProg` and `abstimeProg` are those of the library.
- `readerStep`: the generation loop around a `Prog`. `generation != sms->gen || !sms->gen`
  reads the generation twice.
-/

namespace RADclock

open Lib

/-- The fields of `struct radclock_data`. -/
inductive RadField where
  | phat | phatErr | phatLocal | phatLocalErr | ca | caErr | status | lastChanged
  | nextExpected | leapsecExpected | leapsecTotal | leapsecNext
deriving DecidableEq, Repr

/-- All fields, in the order of the structure. -/
def RadField.all : List RadField :=
  [.phat, .phatErr, .phatLocal, .phatLocalErr, .ca, .caErr, .status, .lastChanged,
    .nextExpected, .leapsecExpected, .leapsecTotal, .leapsecNext]

theorem RadField.mem_all (f : RadField) : f ∈ RadField.all := by
  cases f <;> decide

/-- The two places an offset can point to. -/
inductive Slot where
  | first | second
deriving DecidableEq, Repr

/-- `struct radclock_sms`. -/
structure Sms (V : Type) where
  gen : UInt32
  dataOff : Slot
  dataOffOld : Slot
  bufdata : Slot → RadField → V

/-! ## The writer -/

/-- The statements of `update_ipc_shared_memory`; `copy` still has the given fields to copy. -/
inductive WriterPc where
  | idle
  | copy (rest : List RadField)
  | loadGen | clearGen | loadOff | setOff | setOffOld | setGen
deriving DecidableEq

structure Writer where
  pc : WriterPc
  generation : UInt32
  offsetTmp : Slot

/-! ## Readers -/

/-- An access to the segment between the tests of the generation. -/
inductive Access where
  /-- Evaluate `SMS_DATA(sms)`. -/
  | off
  /-- Read a field through the pointer. -/
  | field (f : RadField)
deriving DecidableEq

/-- The body of a generation loop: the next access, if any, and what it leads to. -/
structure Prog (τ V : Type) where
  init : τ
  next : τ → Option Access
  moved : τ → τ
  got : τ → V → τ

inductive ReaderPc where
  | start | body | testGen | testZero | left
deriving DecidableEq

/-- A reader. The fields read are recorded, and the number of updates published before the
loop was entered. -/
structure Reader (τ V : Type) where
  pc : ReaderPc
  generation : UInt32
  ptr : Option Slot
  state : τ
  reads : List (RadField × V)
  since : Nat

/-! ## The system -/

/-- The segment with its processes; `updates` have been published so far. -/
structure System (ι τ V : Type) where
  sms : Sms V
  writer : Writer
  updates : Nat
  readers : ι → Reader τ V

/-- Who takes the next step. -/
inductive Who (ι : Type) where
  | writer
  | reader (i : ι)

section Steps

variable {ι τ V : Type}

/-- `if (generation++ == 0) generation = 1`. -/
def nextGen (generation : UInt32) : UInt32 := if generation = 0 then 1 else generation + 1

/-- Write one field of a buffer. -/
def Sms.store (sms : Sms V) (slot : Slot) (f : RadField) (v : V) : Sms V :=
  { sms with bufdata := Function.update sms.bufdata slot (Function.update (sms.bufdata slot) f v) }

/-- One access of the writer. The `k`-th update publishes `data k`. -/
def writerStep (data : Nat → RadField → V) (s : System ι τ V) : System ι τ V :=
  let w := s.writer
  let sms := s.sms
  match w.pc with
  | .idle => { s with writer := { w with pc := .copy RadField.all } }
  | .copy (f :: fs) =>
    { s with
      sms := sms.store sms.dataOffOld f (data (s.updates + 1) f)
      writer := { w with pc := .copy fs } }
  | .copy [] => { s with writer := { w with pc := .loadGen } }
  | .loadGen => { s with writer := { w with pc := .clearGen, generation := sms.gen } }
  | .clearGen => { s with sms := { sms with gen := 0 }, writer := { w with pc := .loadOff } }
  | .loadOff => { s with writer := { w with pc := .setOff, offsetTmp := sms.dataOff } }
  | .setOff =>
    { s with sms := { sms with dataOff := sms.dataOffOld }, writer := { w with pc := .setOffOld } }
  | .setOffOld =>
    { s with sms := { sms with dataOffOld := w.offsetTmp }, writer := { w with pc := .setGen } }
  | .setGen =>
    { s with
      sms := { sms with gen := nextGen w.generation }
      writer := { w with pc := .idle }
      updates := s.updates + 1 }

/-- One access of a reader; after leaving the loop it starts its next call. -/
def readerStep (prog : Prog τ V) (sms : Sms V) (updates : Nat) (r : Reader τ V) : Reader τ V :=
  match r.pc with
  | .start =>
    { pc := .body, generation := sms.gen, ptr := none, state := prog.init, reads := [],
      since := updates }
  | .body =>
    match prog.next r.state with
    | none => { r with pc := .testGen }
    | some .off => { r with ptr := some sms.dataOff, state := prog.moved r.state }
    | some (.field f) =>
      match r.ptr with
      | none => r
      | some slot =>
        { r with
          state := prog.got r.state (sms.bufdata slot f)
          reads := (f, sms.bufdata slot f) :: r.reads }
  | .testGen => { r with pc := if r.generation = sms.gen then .testZero else .start }
  | .testZero => { r with pc := if sms.gen = 0 then .start else .left }
  | .left => { r with pc := .start }

/-- One step of the system. -/
def smsStep [DecidableEq ι] (data : Nat → RadField → V) (prog : ι → Prog τ V)
    (s : System ι τ V) : Who ι → System ι τ V
  | .writer => writerStep data s
  | .reader i =>
    let r := readerStep (prog i) s.sms s.updates (s.readers i)
    { s with readers := Function.update s.readers i r }

/-- `sms_init_writer` on a new segment, with the contents `data 0`. -/
def smsInit (data : Nat → RadField → V) (prog : ι → Prog τ V) : System ι τ V where
  sms := { gen := 1, dataOff := .first, dataOffOld := .second, bufdata := fun _ => data 0 }
  writer := { pc := .idle, generation := 0, offsetTmp := .first }
  updates := 0
  readers := fun i =>
    { pc := .start, generation := 0, ptr := none, state := (prog i).init, reads := [], since := 0 }

end Steps

/-! ## The readers of the library -/

section Readers

variable {V : Type}

/-- A fixed sequence of accesses. -/
def straight (acts : List Access) : Prog (List Access) V where
  init := acts
  next := List.head?
  moved := List.tail
  got := fun rest _ => rest.tail

/-- `radclock_get_last_changed` and its siblings: one field. -/
def getter (f : RadField) : Prog (List Access) V := straight [.off, .field f]

/-- `ffcounter_to_difftime_sms`. -/
def difftimeProg (localPeriod : Bool) : Prog (List Access) V :=
  straight [.off, .field .nextExpected, .off, .field .lastChanged, .off, .field .phat, .off,
    .field (if localPeriod then .phatLocal else .phat)]

/-- Where `ffcounter_to_abstime_sms` stands: before `read_RADabs_UTC`, in its loop, or after. -/
inductive AbsState (V : Type) where
  | before (rest : List Access)
  | last
  | rate (last : V)
  | constant (last : V)
  | rateTest (last : V)
  | localTest (last phat : V)
  | localRate (last : V)
  | localBase (last : V)
  | again (last : V)
  | total | expected | expectedTest | next | finished

/-- `ffcounter_to_abstime_sms`, with `read_RADabs_UTC` on one evaluation of `SMS_DATA`. Values
equal to `zero` are zero, and `past` tells if the counter value to convert is greater. -/
def abstimeProg [DecidableEq V] (localPeriod : Bool) (zero : V) (past : V → Bool) :
    Prog (AbsState V) V where
  init := .before [.off, .field .nextExpected, .off, .field .lastChanged, .off, .field .phat, .off]
  next
    | .before (a :: _) => some a
    | .before [] => some (.field .lastChanged)
    | .last => some (.field .lastChanged)
    | .rate _ => some (.field .phat)
    | .constant _ => some (.field .ca)
    | .rateTest _ => some (.field .phat)
    | .localTest _ _ => some (.field .phatLocal)
    | .localRate _ => some (.field .phatLocal)
    | .localBase _ => some (.field .phat)
    | .again _ => some (.field .lastChanged)
    | .total => some (.field .leapsecTotal)
    | .expected => some (.field .leapsecExpected)
    | .expectedTest => some (.field .leapsecExpected)
    | .next => some (.field .leapsecNext)
    | .finished => none
  moved
    | .before (_ :: rest) => .before rest
    | s => s
  got
    | .before (_ :: rest), _ => .before rest
    | .before [], v => .rate v
    | .last, v => .rate v
    | .rate l, _ => .constant l
    | .constant l, _ => if localPeriod then .rateTest l else .again l
    | .rateTest l, v => .localTest l v
    | .localTest l p, v => if p = v then .again l else .localRate l
    | .localRate l, _ => .localBase l
    | .localBase l, _ => .again l
    | .again l, v => if l = v then .total else .last
    | .total, _ => .expected
    | .expected, v => if v = zero then .finished else .expectedTest
    | .expectedTest, v => if past v then .next else .finished
    | .next, _ => .finished
    | .finished, _ => .finished

end Readers

end RADclock
