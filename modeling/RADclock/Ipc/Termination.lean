import Mathlib.Logic.Function.Iterate
import RADclock.Ipc.Generation

/-!
# Generations that readers can leave with

A reader leaves its loop when it finds the generation it started with, and finds it nonzero. If no
update is in progress and none follows, one more round is enough, provided that the generation that
was published is not `0`. The test for `0` in `update_ipc_shared_memory` comes before the increment:
the generation after `2 ^ 32 - 1` is `0`, and readers then wait for the next update.

- `Halting`: a body of a loop that ends on a segment that does not change.
- `leaves_of_halting`: a reader leaves its loop when the generation is not `0`.
- `GenKept`, `GenCond`: what a completed update is to leave, and when it does.
-/

namespace RADclock

open Lib

variable {ι τ V : Type}

/-! ## Bodies that end -/

/-- A body whose accesses lead to its end, on a segment that does not change. The first access
evaluates the pointer. -/
structure Halting (prog : Prog τ V) (sms : Sms V) where
  rank : Option Slot → τ → Nat
  opens : ∀ f, prog.next prog.init ≠ some (.field f)
  moved : ∀ ptr st, prog.next st = some .off → rank (some sms.dataOff) (prog.moved st) < rank ptr st
  got : ∀ slot st f, prog.next st = some (.field f) →
    rank (some slot) (prog.got st (sms.bufdata slot f)) < rank (some slot) st

/-- A field is read through a pointer that has been evaluated. -/
def Opened (prog : Prog τ V) (r : Reader τ V) : Prop :=
  r.pc = .body → r.ptr = none → ∀ f, prog.next r.state ≠ some (.field f)

/-- The reader leaves its loop if it runs alone. -/
def Leaves (prog : Prog τ V) (sms : Sms V) (updates : Nat) (r : Reader τ V) : Prop :=
  ∃ n, ((readerStep prog sms updates)^[n] r).pc = .left

theorem leaves_of_step {prog : Prog τ V} {sms : Sms V} {updates : Nat} {r : Reader τ V}
    (h : Leaves prog sms updates (readerStep prog sms updates r)) : Leaves prog sms updates r := by
  obtain ⟨n, hn⟩ := h
  exact ⟨n + 1, hn⟩

theorem opened_step {prog : Prog τ V} (hopens : ∀ f, prog.next prog.init ≠ some (.field f))
    (sms : Sms V) (updates : Nat) {r : Reader τ V} (h : Opened prog r) :
    Opened prog (readerStep prog sms updates r) := by
  unfold readerStep
  cases hpc : r.pc with
  | start => exact fun _ _ => hopens
  | body =>
    simp only
    split
    · exact fun hbody => nomatch hbody
    · exact fun _ hptr => nomatch hptr
    · split
      · exact h
      · rename_i hptr
        exact fun _ hnone => absurd (hptr.symm.trans hnone) (Option.some_ne_none _)
  | testGen =>
    simp only
    split <;> exact fun hbody => nomatch hbody
  | testZero =>
    simp only
    split <;> exact fun hbody => nomatch hbody
  | left => exact fun hbody => nomatch hbody

section Alone

variable {prog : Prog τ V} {sms : Sms V} {updates : Nat}

theorem leaves_testZero (hgen : sms.gen ≠ 0) {r : Reader τ V} (hpc : r.pc = .testZero) :
    Leaves prog sms updates r := by
  refine ⟨1, ?_⟩
  simp only [Function.iterate_one, readerStep, hpc, if_neg hgen]

/-- The end of the body is reached, with the generation the round started with. -/
theorem leaves_body (halt : Halting prog sms) {g : UInt32}
    (hnext : ∀ r : Reader τ V, r.pc = .testGen → r.generation = g → Leaves prog sms updates r)
    (n : Nat) : ∀ r : Reader τ V, r.pc = .body → Opened prog r → r.generation = g →
      halt.rank r.ptr r.state = n → Leaves prog sms updates r := by
  -- on the rank, which every step inside the body lowers
  induction n using Nat.strongRecOn with
  | _ n ih =>
    intro r hpc hopened hg hrank
    apply leaves_of_step
    have hopened' := opened_step halt.opens sms updates hopened
    revert hopened'
    rw [readerStep, hpc]
    simp only
    split
    · exact fun _ => hnext _ rfl hg
    · -- the program has left the body
      rename_i hoff
      exact fun hopened' => ih _ (hrank ▸ halt.moved r.ptr r.state hoff) _ rfl hopened' hg rfl
    · rename_i f hfield
      split
      · rename_i hptr
        exact absurd hfield (hopened hpc hptr f)
      · -- one more load, with a smaller rank after it
        rename_i slot hptr
        have hless := halt.got slot r.state f hfield
        rw [hptr] at hrank
        exact fun hopened' => ih _ (hrank ▸ hless) _ rfl hopened' hg (by rw [← hptr])

theorem leaves_testGen_same (hgen : sms.gen ≠ 0) {r : Reader τ V} (hpc : r.pc = .testGen)
    (hsame : r.generation = sms.gen) : Leaves prog sms updates r := by
  apply leaves_of_step
  apply leaves_testZero hgen
  simp only [readerStep, hpc, if_pos hsame]

theorem leaves_start (halt : Halting prog sms) (hgen : sms.gen ≠ 0) {r : Reader τ V}
    (hpc : r.pc = .start) : Leaves prog sms updates r := by
  apply leaves_of_step
  have hstep : readerStep prog sms updates r =
      { pc := .body, generation := sms.gen, ptr := none, state := prog.init, reads := [],
        since := updates } := by
    rw [readerStep, hpc]
  rw [hstep]
  exact leaves_body halt (fun _ hpc hsame => leaves_testGen_same hgen hpc hsame) _ _ rfl
    (fun _ _ => halt.opens) rfl rfl

theorem leaves_testGen (halt : Halting prog sms) (hgen : sms.gen ≠ 0) {r : Reader τ V}
    (hpc : r.pc = .testGen) : Leaves prog sms updates r := by
  by_cases hsame : r.generation = sms.gen
  · exact leaves_testGen_same hgen hpc hsame
  · apply leaves_of_step
    apply leaves_start halt hgen
    simp only [readerStep, hpc, if_neg hsame]

/-- Wherever it is, a reader leaves its loop if the generation is not `0` and the segment does not
change any more. -/
theorem leaves_of_halting (halt : Halting prog sms) (hgen : sms.gen ≠ 0) {r : Reader τ V}
    (hopened : Opened prog r) : Leaves prog sms updates r := by
  cases hpc : r.pc with
  | start => exact leaves_start halt hgen hpc
  | body => exact leaves_body halt (fun _ hpc _ =>
    leaves_testGen halt hgen hpc) _ r hpc hopened rfl rfl
  | testGen => exact leaves_testGen halt hgen hpc
  | testZero => exact leaves_testZero hgen hpc
  | left => exact ⟨0, hpc⟩

end Alone

/-! ## The readers of the library -/

theorem straight_halting {acts : List Access} (hopens : ∀ f, acts.head? ≠ some (.field f))
    (sms : Sms V) : Nonempty (Halting (straight acts : Prog (List Access) V) sms) := by
  refine ⟨⟨fun _ rest => rest.length, hopens, ?_, ?_⟩⟩
  · intro _ rest hoff
    cases rest with
    | nil => cases hoff
    | cons a rest => exact Nat.lt_succ_self _
  · intro _ rest f hfield
    cases rest with
    | nil => cases hfield
    | cons a rest => exact Nat.lt_succ_self _

/-- The accesses left to `ffcounter_to_abstime_sms` when the field it tests again holds `last`: one
more round if it has started from another value. -/
def absRank [DecidableEq V] (last : V) : AbsState V → Nat
  | .before rest => 20 + rest.length
  | .last => 12
  | .rate l => if l = last then 11 else 19
  | .constant l => if l = last then 10 else 18
  | .rateTest l => if l = last then 9 else 17
  | .localTest l _ => if l = last then 8 else 16
  | .localRate l => if l = last then 7 else 15
  | .localBase l => if l = last then 6 else 14
  | .again l => if l = last then 5 else 13
  | .total => 4
  | .expected => 3
  | .expectedTest => 2
  | .next => 1
  | .finished => 0

theorem abstime_halting [DecidableEq V] (localPeriod : Bool) (zero : V) (past : V → Bool)
    (sms : Sms V) : Nonempty (Halting (abstimeProg localPeriod zero past) sms) := by
  refine ⟨⟨fun ptr st => absRank (sms.bufdata (ptr.getD .first) .lastChanged) st, ?_, ?_, ?_⟩⟩
  · intro f h
    cases h
  · intro ptr st hoff
    cases st with
    | before rest =>
      cases rest with
      | nil => cases hoff
      | cons a rest =>
        simp only [abstimeProg, absRank, List.length_cons]
        omega
    | _ => cases hoff
  · intro slot st f hfield
    cases st with
    | before rest =>
      cases rest with
      | nil =>
        obtain rfl : RadField.lastChanged = f := Access.field.inj (Option.some.inj hfield)
        simp [abstimeProg, absRank]
      | cons a rest =>
        simp only [abstimeProg, absRank, List.length_cons]
        omega
    | last =>
      obtain rfl : RadField.lastChanged = f := Access.field.inj (Option.some.inj hfield)
      simp [abstimeProg, absRank]
    -- the second read of lastChanged decides whether the loads start over
    | again l =>
      obtain rfl : RadField.lastChanged = f := Access.field.inj (Option.some.inj hfield)
      by_cases hlast : l = sms.bufdata slot .lastChanged <;> simp [abstimeProg, hlast, absRank]
    | constant l =>
      cases localPeriod <;>
        simp only [abstimeProg, Bool.false_eq_true, if_false, if_true, absRank] <;> split <;> omega
    | localTest l p =>
      by_cases hsame : p = sms.bufdata slot f <;>
        simp only [abstimeProg, if_pos, if_neg, hsame, not_false_iff, absRank] <;> split <;> omega
    | expected =>
      by_cases hzero : sms.bufdata slot f = zero <;>
        simp [abstimeProg, hzero, absRank]
    | expectedTest =>
      cases hpast : past (sms.bufdata slot f) <;> simp [abstimeProg, hpast, absRank]
    -- straight-line loads: the rank counts what is left of them
    | rate l | rateTest l | localRate l | localBase l =>
      simp only [abstimeProg, absRank]
      split <;> omega
    | total | next => exact Nat.lt_succ_self _
    | finished => cases hfield

/-- A program beside another kind of states. -/
def Prog.left {τ' : Type} (prog : Prog τ V) : Prog (τ ⊕ τ') V where
  init := .inl prog.init
  next := Sum.elim prog.next fun _ => none
  moved := Sum.map prog.moved id
  got st v := st.elim (fun st => .inl (prog.got st v)) .inr

def Prog.right {τ' : Type} (prog : Prog τ' V) : Prog (τ ⊕ τ') V where
  init := .inr prog.init
  next := Sum.elim (fun _ => none) prog.next
  moved := Sum.map id prog.moved
  got st v := st.elim .inl fun st => .inr (prog.got st v)

theorem left_halting {τ' : Type} {prog : Prog τ V} {sms : Sms V}
    (h : Nonempty (Halting prog sms)) : Nonempty (Halting (prog.left : Prog (τ ⊕ τ') V) sms) := by
  obtain ⟨halt⟩ := h
  refine ⟨⟨fun ptr => Sum.elim (halt.rank ptr) fun _ => 0, halt.opens, ?_, ?_⟩⟩
  · intro ptr st hoff
    cases st with
    | inl st => exact halt.moved ptr st hoff
    | inr st => cases hoff
  · intro slot st f hfield
    cases st with
    | inl st => exact halt.got slot st f hfield
    | inr st => cases hfield

theorem right_halting {τ' : Type} {prog : Prog τ' V} {sms : Sms V}
    (h : Nonempty (Halting prog sms)) : Nonempty (Halting (prog.right : Prog (τ ⊕ τ') V) sms) := by
  obtain ⟨halt⟩ := h
  refine ⟨⟨fun ptr => Sum.elim (fun _ => 0) (halt.rank ptr), halt.opens, ?_, ?_⟩⟩
  · intro ptr st hoff
    cases st with
    | inl st => cases hoff
    | inr st => exact halt.moved ptr st hoff
  · intro slot st f hfield
    cases st with
    | inl st => cases hfield
    | inr st => exact halt.got slot st f hfield

/-- The calls of the library that loop on the generation. -/
inductive LibCall (V : Type) where
  | get (f : RadField)
  | difftime (localPeriod : Bool)
  | abstime (localPeriod : Bool) (zero : V) (past : V → Bool)

def LibCall.prog [DecidableEq V] : LibCall V → Prog (List Access ⊕ AbsState V) V
  | .get f => (getter f).left
  | .difftime localPeriod => (difftimeProg localPeriod).left
  | .abstime localPeriod zero past => (abstimeProg localPeriod zero past).right

theorem libCall_halting [DecidableEq V] (call : LibCall V) (sms : Sms V) :
    Nonempty (Halting call.prog sms) := by
  cases call with
  | get f => exact left_halting (straight_halting (by simp) sms)
  | difftime localPeriod => exact left_halting (straight_halting (by simp) sms)
  | abstime localPeriod zero past => exact right_halting (abstime_halting localPeriod zero past sms)

/-! ## Updates -/

/-- `sms_init_writer` on a segment that exists: whatever it holds is kept. -/
def smsReopen (sms : Sms V) (prog : ι → Prog τ V) : System ι τ V where
  sms := sms
  writer := { pc := .idle, generation := 0, offsetTmp := .first }
  updates := 0
  readers := fun i =>
    { pc := .start, generation := 0, ptr := none, state := (prog i).init, reads := [], since := 0 }

/-- When a call of `update_ipc_shared_memory` completes, the generation is not `0`, is not the one
the call found, and every reader leaves its loop if no update follows. -/
def GenKept (data : Nat → RadField → V) (prog : ι → Prog τ V) (s : System ι τ V) :
    Who ι → Prop
  | .writer => s.writer.pc = .setGen →
      (writerStep data s).sms.gen ≠ 0 ∧ (writerStep data s).sms.gen ≠ s.writer.generation ∧
        ∀ i, Leaves (prog i) (writerStep data s).sms (writerStep data s).updates (s.readers i)
  | .reader _ => True

/-- The call has not found the last generation. -/
def GenCond (s : System ι τ V) : Who ι → Prop
  | .writer => s.writer.pc = .setGen → s.writer.generation ≠ 0xffffffff
  | .reader _ => True

instance decidableGenCond (s : System ι τ V) : DecidablePred (GenCond s)
  | .writer => inferInstanceAs (Decidable (_ → _))
  | .reader _ => inferInstanceAs (Decidable True)

theorem nextGen_ne_zero_iff (g : UInt32) : nextGen g ≠ 0 ↔ g ≠ 0xffffffff := by
  unfold nextGen
  by_cases hzero : g = 0
  · rw [if_pos hzero, hzero]
    decide
  · rw [if_neg hzero, not_iff_not]
    constructor
    · intro h
      have hnat : (g.toNat + 1) % 2 ^ 32 = 0 := by simpa using congrArg UInt32.toNat h
      have hlt := g.toNat_lt
      apply UInt32.toNat_inj.mp
      show g.toNat = 4294967295
      omega
    · rintro rfl
      rfl

theorem nextGen_ne_self (g : UInt32) : nextGen g ≠ g := by
  unfold nextGen
  by_cases hzero : g = 0
  · rw [if_pos hzero, hzero]
    decide
  · rw [if_neg hzero]
    intro h
    have hnat : (g.toNat + 1) % 2 ^ 32 = g.toNat := by simpa using congrArg UInt32.toNat h
    have hlt := g.toNat_lt
    omega

theorem genKept_iff {data : Nat → RadField → V} {prog : ι → Prog τ V}
    (halt : ∀ i sms, Nonempty (Halting (prog i) sms)) (s : System ι τ V) (who : Who ι)
    (hopened : ∀ i, Opened (prog i) (s.readers i)) :
    GenKept data prog s who ↔ GenCond s who := by
  cases who with
  | reader i => exact Iff.rfl
  | writer =>
    refine forall_congr' fun hpc => ?_
    have hgen : (writerStep data s).sms.gen = nextGen s.writer.generation := by
      rw [writerStep, hpc]
    rw [hgen, ← nextGen_ne_zero_iff]
    constructor
    · exact fun h => h.1
    · intro hne
      refine ⟨hne, nextGen_ne_self _, fun i => ?_⟩
      obtain ⟨h⟩ := halt i (writerStep data s).sms
      exact leaves_of_halting h (hgen ▸ hne) (hopened i)

theorem opened_smsStep [DecidableEq ι] {data : Nat → RadField → V} {prog : ι → Prog τ V}
    (hopens : ∀ i f, (prog i).next (prog i).init ≠ some (.field f)) (s : System ι τ V)
    (who : Who ι) (h : ∀ i, Opened (prog i) (s.readers i)) (i : ι) :
    Opened (prog i) ((smsStep data prog s who).readers i) := by
  cases who with
  | writer =>
    rw [smsStep, writerStep_readers]
    exact h i
  | reader j =>
    simp only [smsStep]
    by_cases hij : i = j
    · subst hij
      rw [Function.update_self]
      exact opened_step (hopens i) s.sms s.updates (h i)
    · rw [Function.update_of_ne hij]
      exact h i

theorem stepsMeet_genKept [DecidableEq ι] (data : Nat → RadField → V) {prog : ι → Prog τ V}
    (halt : ∀ i sms, Nonempty (Halting (prog i) sms)) (sms : Sms V) (sched : List (Who ι)) :
    StepsMeet (GenKept data prog) (smsStep data prog) (smsReopen sms prog) sched ↔
      StepsMeet GenCond (smsStep data prog) (smsReopen sms prog) sched := by
  refine stepsMeet_congr (I := fun s => ∀ i, Opened (prog i) (s.readers i)) ?_ ?_ sched _ ?_
  · refine opened_smsStep fun i f => ?_
    obtain ⟨h⟩ := halt i sms
    exact h.opens f
  · exact fun s who hopened => genKept_iff halt s who hopened
  · exact fun i hbody => nomatch hbody

/-- For any interleaving of updates and readers, from any contents of the segment: every update
leaves a generation that is new, is not `0` and lets the readers leave, exactly when no update has
found the generation `2 ^ 32 - 1`. -/
theorem generations_usable_iff [DecidableEq ι] [DecidableEq V] (data : Nat → RadField → V)
    (calls : ι → LibCall V) (sms : Sms V) (sched : List (Who ι)) :
    StepsMeet (GenKept data fun i => (calls i).prog) (smsStep data fun i => (calls i).prog)
        (smsReopen sms fun i => (calls i).prog) sched ↔
      StepsMeet GenCond (smsStep data fun i => (calls i).prog)
        (smsReopen sms fun i => (calls i).prog) sched :=
  stepsMeet_genKept data (fun i => libCall_halting (calls i)) sms sched

/-- A segment whose generation is the last one. -/
def lastGeneration : Sms Nat :=
  { gen := 0xffffffff, dataOff := .first, dataOffOld := .second, bufdata := fun _ _ => 0 }

/-- The next update leaves the generation `0`. -/
theorem not_generations_usable_last :
    ¬ StepsMeet (GenKept (fun k _ => k) fun _ : Unit => (LibCall.get .phat : LibCall Nat).prog)
      (smsStep (fun k _ => k) fun _ : Unit => (LibCall.get .phat : LibCall Nat).prog)
      (smsReopen lastGeneration fun _ : Unit => (LibCall.get .phat : LibCall Nat).prog)
      (writerSteps 20) := by
  rw [stepsMeet_genKept _ fun _ => libCall_halting _]
  decide

end RADclock
