import RADclock.Ipc.Sms

/-!
# What a reader leaves its loop with

A reader that has read the generation `g ≠ 0` and finds it again at its first test has read
from one update: to change what the current offset leads to, the writer has to clear the
generation first, and publishes another one afterwards. The number of published updates tells
equal generations apart for `2 ^ 32` updates.

- `WriterInv`: the segment at each statement of the writer.
- `ReaderInv`: as long as the update a reader started in is still the current one, everything
  it has read is of that update.
- `Brief`: fewer than `2 ^ 32 - 1` updates are published between the first read of the
  generation and the test.
- `Guarded`: an update has been published before a reader finds its generation again, and no
  reader leaves its loop on a generation it has read as `0`. The source has no guard for the
  latter: `0` at the first read and at the first test, then something else at the second.
-/

namespace RADclock

open Lib

variable {ι τ V : Type}

/-! ## Generation numbers -/

/-- The generation after `u` updates of a new segment. -/
def genOf (u : Nat) : UInt32 := UInt32.ofNat (u + 1)

theorem nextGen_genOf (u : Nat) : nextGen (genOf u) = genOf (u + 1) := by
  unfold nextGen genOf
  rw [UInt32.ofNat_add (u + 1) 1]
  by_cases h : UInt32.ofNat (u + 1) = 0
  · rw [if_pos h, h]
    rfl
  · rw [if_neg h]
    rfl

/-- Generations of nearby updates differ. -/
theorem genOf_inj {u v : Nat} (huv : u ≤ v) (hclose : v - u < 2 ^ 32) (h : genOf v = genOf u) :
    v = u := by
  have hmod : (v + 1) % 2 ^ 32 = (u + 1) % 2 ^ 32 := by
    have := congrArg UInt32.toNat h
    simpa [genOf] using this
  omega

/-! ## The writer -/

/-- Between clearing the generation and publishing the next. -/
def WriterPc.swapping : WriterPc → Bool
  | .loadOff | .setOff | .setOffOld | .setGen => true
  | _ => false

/-- What the segment holds at each statement of the writer. -/
structure WriterInv (data : Nat → RadField → V) (s : System ι τ V) : Prop where
  /-- The current offset leads to the current update. -/
  current : s.writer.pc.swapping = false → s.sms.bufdata s.sms.dataOff = data s.updates
  apart : s.writer.pc ≠ .setOffOld → s.sms.dataOff ≠ s.sms.dataOffOld
  gen : s.sms.gen = if s.writer.pc.swapping then 0 else genOf s.updates
  /-- The saved generation. -/
  saved : s.writer.pc = .clearGen ∨ s.writer.pc.swapping = true →
    s.writer.generation = genOf s.updates
  /-- Fields copied so far. -/
  copied : ∀ rest, s.writer.pc = .copy rest → ∀ f, f ∉ rest →
    s.sms.bufdata s.sms.dataOffOld f = data (s.updates + 1) f
  /-- The other buffer, once it is complete. -/
  ready : s.writer.pc = .loadGen ∨ s.writer.pc = .clearGen ∨ s.writer.pc = .loadOff ∨
    s.writer.pc = .setOff → s.sms.bufdata s.sms.dataOffOld = data (s.updates + 1)
  tmp : s.writer.pc = .setOff → s.writer.offsetTmp = s.sms.dataOff
  /-- After the swap of the current offset. -/
  swapped : s.writer.pc = .setOffOld ∨ s.writer.pc = .setGen →
    s.sms.bufdata s.sms.dataOff = data (s.updates + 1)
  tmpApart : s.writer.pc = .setOffOld → s.writer.offsetTmp ≠ s.sms.dataOff

theorem writerInv_init (data : Nat → RadField → V) (prog : ι → Prog τ V) :
    WriterInv data (smsInit data prog) := by
  constructor <;> simp [smsInit, WriterPc.swapping, genOf]

theorem store_other (sms : Sms V) {slot slot' : Slot} (h : slot' ≠ slot) (f : RadField) (v : V) :
    (sms.store slot f v).bufdata slot' = sms.bufdata slot' := Function.update_of_ne h _ _

theorem store_self (sms : Sms V) (slot : Slot) (f : RadField) (v : V) :
    (sms.store slot f v).bufdata slot = Function.update (sms.bufdata slot) f v :=
  Function.update_self _ _ _

/-- Outside the swap the generation is that of the current update. -/
theorem WriterInv.gen_eq {data : Nat → RadField → V} {s : System ι τ V} (h : WriterInv data s)
    (hswap : s.writer.pc.swapping = false) : s.sms.gen = genOf s.updates :=
  h.gen.trans (if_neg (by rw [hswap]; decide))

/-- In the swap it is clear. -/
theorem WriterInv.gen_zero {data : Nat → RadField → V} {s : System ι τ V} (h : WriterInv data s)
    (hswap : s.writer.pc.swapping = true) : s.sms.gen = 0 := h.gen.trans (if_pos hswap)

/-- What each statement of the writer hands on to the next. -/
theorem writerInv_step (data : Nat → RadField → V) {s : System ι τ V} (h : WriterInv data s) :
    WriterInv data (writerStep data s) := by
  unfold writerStep
  dsimp only
  cases hpc : s.writer.pc with
  | idle =>
    exact
      { current := fun _ => h.current (by rw [hpc]; rfl)
        apart := fun _ => h.apart (by simp [hpc])
        gen := h.gen_eq (by rw [hpc]; rfl)
        saved := by simp [WriterPc.swapping]
        copied := by
          -- all fields are still to be copied
          rintro rest ⟨⟩ f hf
          exact absurd (RadField.mem_all f) hf
        ready := by simp
        tmp := by simp
        swapped := by simp
        tmpApart := by simp }
  | copy rest =>
    have hcur := h.current (by rw [hpc]; rfl)
    have hapart := h.apart (by simp [hpc])
    have hgen := h.gen_eq (by rw [hpc]; rfl)
    have hcopied := h.copied rest hpc
    cases rest with
    | nil =>
      exact
        { current := fun _ => hcur
          apart := fun _ => hapart
          gen := hgen
          saved := by simp [WriterPc.swapping]
          copied := by simp
          ready := fun _ => funext fun f => hcopied f List.not_mem_nil
          tmp := by simp
          swapped := by simp
          tmpApart := by simp }
    | cons f fs =>
      -- the other buffer is written, the current one is not
      have hother := store_other s.sms hapart f (data (s.updates + 1) f)
      have hself := store_self s.sms s.sms.dataOffOld f (data (s.updates + 1) f)
      exact
        { current := fun _ => hother.trans hcur
          apart := fun _ => hapart
          gen := hgen
          saved := by simp [WriterPc.swapping]
          copied := by
            rintro rest ⟨⟩ g hg
            show (s.sms.store s.sms.dataOffOld f (data (s.updates + 1) f)).bufdata
              s.sms.dataOffOld g = _
            rw [hself]
            by_cases hgf : g = f
            · rw [hgf, Function.update_self]
            · rw [Function.update_of_ne hgf]
              exact hcopied g (by simp [hgf, hg])
          ready := by simp
          tmp := by simp
          swapped := by simp
          tmpApart := by simp }
  | loadGen =>
    have hgen := h.gen_eq (by rw [hpc]; rfl)
    exact
      { current := fun _ => h.current (by rw [hpc]; rfl)
        apart := fun _ => h.apart (by simp [hpc])
        gen := hgen
        saved := fun _ => hgen
        copied := by simp
        ready := fun _ => h.ready (by simp [hpc])
        tmp := by simp
        swapped := by simp
        tmpApart := by simp }
  | clearGen =>
    exact
      { current := by simp [WriterPc.swapping]
        apart := fun _ => h.apart (by simp [hpc])
        gen := rfl
        saved := fun _ => h.saved (by simp [hpc])
        copied := by simp
        ready := fun _ => h.ready (by simp [hpc])
        tmp := by simp
        swapped := by simp
        tmpApart := by simp }
  | loadOff =>
    exact
      { current := by simp [WriterPc.swapping]
        apart := fun _ => h.apart (by simp [hpc])
        gen := h.gen_zero (by rw [hpc]; rfl)
        saved := fun _ => h.saved (by simp [hpc, WriterPc.swapping])
        copied := by simp
        ready := fun _ => h.ready (by simp [hpc])
        tmp := fun _ => rfl
        swapped := by simp
        tmpApart := by simp }
  | setOff =>
    have hapart := h.apart (by simp [hpc])
    have htmp := h.tmp hpc
    exact
      { current := by simp [WriterPc.swapping]
        apart := by simp
        gen := h.gen_zero (by rw [hpc]; rfl)
        saved := fun _ => h.saved (by simp [hpc, WriterPc.swapping])
        copied := by simp
        ready := by simp
        tmp := by simp
        swapped := fun _ => h.ready (by simp [hpc])
        tmpApart := fun _ => by
          rw [htmp]
          exact hapart }
  | setOffOld =>
    exact
      { current := by simp [WriterPc.swapping]
        apart := fun _ => (h.tmpApart hpc).symm
        gen := h.gen_zero (by rw [hpc]; rfl)
        saved := fun _ => h.saved (by simp [hpc, WriterPc.swapping])
        copied := by simp
        ready := by simp
        tmp := by simp
        swapped := fun _ => h.swapped (by simp [hpc])
        tmpApart := by simp }
  | setGen =>
    have hsaved := h.saved (by simp [hpc, WriterPc.swapping])
    exact
      { current := fun _ => h.swapped (by simp [hpc])
        apart := fun _ => h.apart (by simp [hpc])
        gen := by
          show nextGen s.writer.generation = genOf (s.updates + 1)
          rw [hsaved, nextGen_genOf]
        saved := by simp [WriterPc.swapping]
        copied := by simp
        ready := by simp
        tmp := by simp
        swapped := by simp
        tmpApart := by simp }

/-! ## Readers -/

/-- All reads are of update `k`. -/
def ReadsOf (data : Nat → RadField → V) (k : Nat) (reads : List (RadField × V)) : Prop :=
  ∀ p ∈ reads, p.2 = data k p.1

/-- The update a reader started in is still the current one, and is not being replaced. -/
def Current (s : System ι τ V) (r : Reader τ V) : Prop :=
  s.updates = r.since ∧ s.writer.pc.swapping = false

/-- A reader that has read a valid generation. Readers that start on `0` are not constrained,
up to the end of their loop. -/
structure ReaderInv (data : Nat → RadField → V) (s : System ι τ V) (r : Reader τ V) : Prop where
  since_le : r.pc ≠ .start → r.since ≤ s.updates
  gen : r.pc ≠ .start → r.generation ≠ 0 → r.generation = genOf r.since
  /-- In the loop, before the first test. -/
  looping : r.pc = .body ∨ r.pc = .testGen → r.generation ≠ 0 → Current s r →
    (∀ slot, r.ptr = some slot → slot = s.sms.dataOff) ∧ ReadsOf data r.since r.reads
  /-- After the first test. -/
  passed : r.pc = .testZero → r.generation ≠ 0 → 0 < r.since ∧ ReadsOf data r.since r.reads
  out : r.pc = .left → 0 < r.since ∧ ReadsOf data r.since r.reads

/-- What a step of the writer does to the part of the segment a reader depends on. -/
theorem writerStep_frame (data : Nat → RadField → V) {s : System ι τ V}
    (hcur : (writerStep data s).writer.pc.swapping = false)
    (hsame : (writerStep data s).updates = s.updates) :
    s.writer.pc.swapping = false ∧ (writerStep data s).sms.dataOff = s.sms.dataOff := by
  unfold writerStep at hcur hsame ⊢
  cases hpc : s.writer.pc with
  | copy rest => cases rest <;> simp [hpc, WriterPc.swapping, Sms.store]
  | idle | loadGen => simp [hpc, WriterPc.swapping]
  | setGen => simp [hpc] at hsame
  | _ => simp [hpc, WriterPc.swapping] at hcur

theorem writerStep_updates_le (data : Nat → RadField → V) (s : System ι τ V) :
    s.updates ≤ (writerStep data s).updates := by
  unfold writerStep
  cases hpc : s.writer.pc with
  | copy rest => cases rest <;> simp [hpc]
  | _ => simp [hpc]

theorem writerStep_readers (data : Nat → RadField → V) (s : System ι τ V) :
    (writerStep data s).readers = s.readers := by
  unfold writerStep
  cases hpc : s.writer.pc with
  | copy rest => cases rest <;> simp [hpc]
  | _ => simp [hpc]

theorem readerInv_writerStep {data : Nat → RadField → V} {s : System ι τ V} {r : Reader τ V}
    (h : ReaderInv data s r) : ReaderInv data (writerStep data s) r where
  since_le hpc := Nat.le_trans (h.since_le hpc) (writerStep_updates_le data s)
  gen := h.gen
  looping hpc hgen hcur := by
    have hstart : r.pc ≠ .start := by
      intro hst
      rw [hst] at hpc
      simp at hpc
    -- had an update been published, the reader's would not be the current one
    have hsame : (writerStep data s).updates = s.updates := by
      have := h.since_le hstart
      have := writerStep_updates_le data s
      have := hcur.1
      omega
    obtain ⟨hswap, hoff⟩ := writerStep_frame data hcur.2 hsame
    rw [hoff]
    exact h.looping hpc hgen ⟨by rw [← hsame]; exact hcur.1, hswap⟩
  passed := h.passed
  out := h.out

/-! ## Conditions on a step -/

/-- Fewer than `2 ^ 32 - 1` updates during one read. -/
def Brief (s : System ι τ V) : Who ι → Prop
  | .writer => True
  | .reader i =>
    (s.readers i).pc = .testGen → s.updates - (s.readers i).since < 2 ^ 32 - 1

/-- The first test does not pass on a valid generation before the first update, and no reader that
has read `0` into `generation` makes the second test of the exit condition when the generation is
valid again. -/
def Guarded (s : System ι τ V) : Who ι → Prop
  | .writer => True
  | .reader i =>
    ((s.readers i).pc = .testGen → (s.readers i).generation = s.sms.gen →
      (s.readers i).generation ≠ 0 → 0 < s.updates) ∧
    ((s.readers i).pc = .testZero → (s.readers i).generation = 0 → s.sms.gen = 0)

instance decidableBrief (s : System ι τ V) : DecidablePred (Brief s)
  | .writer => inferInstanceAs (Decidable True)
  | .reader i => inferInstanceAs (Decidable ((s.readers i).pc = .testGen → _))

instance decidableGuarded (s : System ι τ V) : DecidablePred (Guarded s)
  | .writer => inferInstanceAs (Decidable True)
  | .reader i => inferInstanceAs (Decidable
      (((s.readers i).pc = .testGen → (s.readers i).generation = s.sms.gen →
          (s.readers i).generation ≠ 0 → 0 < s.updates) ∧
        ((s.readers i).pc = .testZero → (s.readers i).generation = 0 → s.sms.gen = 0)))

/-- What an access of a reader adds to what it has read, and what its two tests tell. -/
theorem readerInv_readerStep {data : Nat → RadField → V} (prog : Prog τ V) {s : System ι τ V}
    {r : Reader τ V} (hw : WriterInv data s) (h : ReaderInv data s r)
    (hbrief : r.pc = .testGen → s.updates - r.since < 2 ^ 32 - 1)
    (hfirst : r.pc = .testGen → r.generation = s.sms.gen → r.generation ≠ 0 → 0 < s.updates)
    (hzero : r.pc = .testZero → r.generation = 0 → s.sms.gen = 0) :
    ReaderInv data s (readerStep prog s.sms s.updates r) := by
  unfold readerStep
  cases hpc : r.pc with
  | start =>
    have hgen := hw.gen
    constructor <;> simp [ReadsOf]
    intro hne
    rw [hgen] at hne ⊢
    split at hne
    · exact absurd rfl hne
    · rw [if_neg ‹_›]
  | body =>
    have hle := h.since_le (by simp [hpc])
    have hgen := h.gen (by simp [hpc])
    have hloop := h.looping (.inl hpc)
    cases hnext : prog.next r.state with
    | none =>
      exact ⟨fun _ => hle, fun _ => hgen, fun _ hne hcur => hloop hne hcur, by simp, by simp⟩
    | some a =>
      cases a with
      | off =>
        refine ⟨fun _ => hle, fun _ => hgen, fun _ hne hcur => ?_, by simp, by simp⟩
        exact ⟨by simp, (hloop hne hcur).2⟩
      | field f =>
        cases hptr : r.ptr with
        | none => exact h
        | some slot =>
          refine ⟨fun _ => hle, fun _ => hgen, fun _ hne hcur => ?_, by simp, by simp⟩
          obtain ⟨hslot, hreads⟩ := hloop hne hcur
          have hread : s.sms.bufdata slot f = data r.since f := by
            rw [hslot slot hptr, hw.current hcur.2, hcur.1]
          refine ⟨fun slot' h' => hslot slot' (hptr.trans h'), fun p hp => ?_⟩
          rcases List.mem_cons.mp hp with rfl | hp
          · exact hread
          · exact hreads p hp
  | testGen =>
    have hle := h.since_le (by simp [hpc])
    have hgen := h.gen (by simp [hpc])
    have hloop := h.looping (.inr hpc)
    have hbr := hbrief hpc
    by_cases heq : r.generation = s.sms.gen
    · -- the generation found again is that of the update the reader started in
      have hcur : r.generation ≠ 0 → Current s r := by
        intro hne
        have hsms := hw.gen
        by_cases hswap : s.writer.pc.swapping = true
        · rw [if_pos hswap] at hsms
          exact absurd (heq.trans hsms) hne
        · rw [if_neg hswap] at hsms
          have hsame : genOf s.updates = genOf r.since := by rw [← hsms, ← heq, hgen hne]
          have := genOf_inj hle (by omega) hsame
          exact ⟨this, by simpa using hswap⟩
      rw [if_pos heq]
      refine ⟨fun _ => hle, fun _ => hgen, by simp, fun _ hne => ?_, by simp⟩
      -- and that update is not the contents of a new segment
      have hsince := (hcur hne).1
      have hpos := hfirst hpc heq hne
      exact ⟨hsince ▸ hpos, (hloop hne (hcur hne)).2⟩
    · constructor <;> simp [heq]
  | testZero =>
    have hle := h.since_le (by simp [hpc])
    have hgen := h.gen (by simp [hpc])
    have hpass := h.passed hpc
    have hz := hzero hpc
    by_cases hsms : s.sms.gen = 0
    · constructor <;> simp [hsms]
    · have hne : r.generation ≠ 0 := fun h0 => hsms (hz h0)
      rw [if_neg hsms]
      exact ⟨fun _ => hle, fun _ _ => hgen hne, by simp, by simp, fun _ => hpass hne⟩
  | left => constructor <;> simp

/-! ## Every interleaving -/

/-- What every reachable state of a guarded run satisfies. -/
structure SmsInv (data : Nat → RadField → V) (s : System ι τ V) : Prop where
  writer : WriterInv data s
  readers : ∀ i, ReaderInv data s (s.readers i)

theorem smsInv_init (data : Nat → RadField → V) (prog : ι → Prog τ V) :
    SmsInv data (smsInit data prog) where
  writer := writerInv_init data prog
  readers i := by constructor <;> simp [smsInit]

theorem smsInv_step [DecidableEq ι] {data : Nat → RadField → V} (prog : ι → Prog τ V)
    (s : System ι τ V)
    (who : Who ι) (h : SmsInv data s) (hc : Brief s who ∧ Guarded s who) :
    SmsInv data (smsStep data prog s who) := by
  cases who with
  | writer =>
    refine ⟨writerInv_step data h.writer, fun i => ?_⟩
    have hr : (smsStep data prog s .writer).readers = s.readers := writerStep_readers data s
    rw [hr]
    exact readerInv_writerStep (h.readers i)
  | reader i =>
    obtain ⟨hbrief, hguard⟩ := hc
    -- a reader changes nothing of the segment, so the others keep theirs as it is
    constructor
    · exact ⟨h.writer.current, h.writer.apart, h.writer.gen, h.writer.saved, h.writer.copied,
        h.writer.ready, h.writer.tmp, h.writer.swapped, h.writer.tmpApart⟩
    · intro j
      have hframe : ∀ r, ReaderInv data s r → ReaderInv data (smsStep data prog s (.reader i)) r :=
        fun r hr => ⟨hr.since_le, hr.gen, hr.looping, hr.passed, hr.out⟩
      apply hframe
      by_cases hji : j = i
      · subst hji
        simp only [smsStep, Function.update_self]
        exact readerInv_readerStep (prog j) h.writer (h.readers j) hbrief hguard.1 hguard.2
      · simp only [smsStep, Function.update_of_ne hji]
        exact h.readers j

/-- The values a reader leaves its loop with are those of one completed update. -/
def Whole (data : Nat → RadField → V) (s : System ι τ V) (i : ι) : Prop :=
  (s.readers i).pc = .left →
    ∃ k, 0 < k ∧ k ≤ s.updates ∧ ReadsOf data k (s.readers i).reads

/-- In every interleaving whose steps are guarded, with fewer than `2 ^ 32 - 1` updates during
each read, every reader that leaves its loop has read one completed update. -/
theorem whole_of_guarded [DecidableEq ι] (data : Nat → RadField → V) (prog : ι → Prog τ V)
    (sched : List (Who ι))
    (hsched : StepsMeet (fun s who => Brief s who ∧ Guarded s who) (smsStep data prog)
      (smsInit data prog) sched) (i : ι) :
    Whole data (runSteps (smsStep data prog) (smsInit data prog) sched) i := by
  have hinv := runSteps_inv (smsInv_step prog) sched _ (smsInv_init data prog) hsched
  have hr := hinv.readers i
  intro hleft
  obtain ⟨hpos, hreads⟩ := hr.out hleft
  exact ⟨_, hpos, hr.since_le (by simp [hleft]), hreads⟩

/-- `k` steps of the writer, of a single reader. -/
def writerSteps (k : Nat) : List (Who Unit) := List.replicate k .writer

def readerSteps (k : Nat) : List (Who Unit) := List.replicate k (.reader ())

/-- A read of the difference clock starts on the new segment, and the first update is published
before its first test; the second round starts while the second update is being copied, and is over
before that is published. -/
def overlapped : List (Who Unit) :=
  readerSteps 5 ++ writerSteps 20 ++ readerSteps 6 ++ writerSteps 9 ++
    readerSteps 7 ++ writerSteps 4 ++ readerSteps 5

/-- The state after a schedule, when the `k`-th update has `k` in all fields. -/
def afterDifftime (sched : List (Who Unit)) : System Unit (List Access) Nat :=
  runSteps (smsStep (fun k _ => k) fun _ => difftimeProg false)
    (smsInit (fun k _ => k) fun _ => difftimeProg false) sched

theorem whole_overlapped :
    ((afterDifftime overlapped).readers ()).pc = .left ∧
      Whole (fun k _ => k) (afterDifftime overlapped) () :=
  ⟨by decide +kernel, whole_of_guarded _ _ overlapped (by decide +kernel) ()⟩

/-- The second update has cleared the generation when the read starts; the offset is swapped
after the first field, and the next generation published between the two tests. -/
def reread : List (Who Unit) :=
  writerSteps 20 ++ writerSteps 16 ++ readerSteps 3 ++ writerSteps 2 ++ readerSteps 8 ++ writerSteps
    2 ++ readerSteps 1

theorem not_whole_reread :
    StepsMeet Brief (smsStep (fun k _ => k) fun _ => difftimeProg false)
        (smsInit (fun k _ => k) fun _ => difftimeProg false) reread ∧
      ¬ Whole (fun k _ => k) (afterDifftime reread) () := by
  refine ⟨by decide +kernel, fun h => ?_⟩
  obtain ⟨k, -, -, hreads⟩ := h (by decide +kernel)
  have hfirst := hreads (.nextExpected, 1) (by decide +kernel)
  have hlast := hreads (.phat, 2) (by decide +kernel)
  simp only at hfirst hlast
  omega

end RADclock
