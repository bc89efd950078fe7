import Mathlib.Data.BitVec
import Mathlib.Data.Fin.Basic
import Mathlib.Data.Nat.ModEq
import RADclock.Lib.Runs

/-!
# A ring of slots guarded by generations

One writer prepares the next slot of a ring, store by store, and then makes it the current one.
Readers take no lock: they load the pointer to the current slot and the generation of that slot,
access the contents, and accept what they have got when the generation is not the reserved `0`
and is still the same. A slot that is being rewritten has the generation `0`.

- `Ring`, `Writer`, `Reader`, `System`: the shared memory and the processes.
- `writerStep`, `readerStep`, `ringStep`: one access. What the writer is about to store is given
  by a plan, from the ring as it finds it.
- `genAt`: the generation published with a rewrite; `genAt_inj` tells how long it is told apart.
- `WriterInv`, `ReaderInv`: what holds in every reachable state.
- `Brief`: how many rewrites may complete during an attempt to read.
- `accepted_whole`: what a reader accepts is the contents of one rewrite.
-/

namespace Lib.GenRing

variable {n w : Nat} {C F V A ι : Type}

/-! ## The processes -/

/-- The shared memory. -/
structure Ring (n w : Nat) (C : Type) where
  slot : Fin n → C
  gen : Fin n → BitVec w
  cur : Fin n

/-- Where the writer stands; it still has the given stores to make. -/
inductive WriterPc (C : Type) where
  | idle
  | loadGen (stores : List (C → C))
  | clearGen (stores : List (C → C))
  | store (rest : List (C → C))
  | setGen
  | advance

structure Writer (n w : Nat) (C : Type) where
  pc : WriterPc C
  /-- The slot it prepares. -/
  next : Fin n
  ogen : BitVec w

inductive ReaderPc (F : Type) where
  | start | loadGen
  | body (rest : List F)
  | test | left
deriving DecidableEq

/-- A reader. What it has got is recorded, latest first, and so is how many rewrites were
completed when it loaded the pointer, and which rewrite the slot held when it loaded the
generation. -/
structure Reader (n w : Nat) (F V : Type) where
  pc : ReaderPc F
  slot : Fin n
  gen : BitVec w
  got : List (F × V)
  since : Nat
  rewrite : Nat

/-- The ring with its processes. Rewrites are numbered from one; `completed` of them are, `held`
is the latest of a slot, and `contents` is what each has published. `inputs` are those the writer
has started from. -/
structure System (n w : Nat) (C F V A ι : Type) where
  ring : Ring n w C
  writer : Writer n w C
  readers : ι → Reader n w F V
  completed : Nat
  held : Fin n → Nat
  contents : Nat → C
  inputs : List A

/-- Who takes the next step; the writer starts a rewrite from an input. -/
inductive Who (A ι : Type) where
  | begin (a : A)
  | writer
  | reader (i : ι)

/-- The next generation, avoiding the reserved `0`. -/
def bump (ogen : BitVec w) : BitVec w := if ogen + 1 = 0 then 1 else ogen + 1

/-- The number of the rewrite that is being made. -/
def System.now (s : System n w C F V A ι) : Nat := s.completed + 1

/-- One access of the writer. -/
def writerStep (s : System n w C F V A ι) : System n w C F V A ι :=
  let wr := s.writer
  let ring := s.ring
  match wr.pc with
  | .idle => s
  | .loadGen stores =>
    { s with writer := { wr with pc := .clearGen stores, ogen := ring.gen wr.next } }
  | .clearGen stores =>
    { s with
      ring := { ring with gen := Function.update ring.gen wr.next 0 }
      writer := { wr with pc := .store stores } }
  | .store (f :: rest) =>
    { s with
      ring := { ring with slot := Function.update ring.slot wr.next (f (ring.slot wr.next)) }
      writer := { wr with pc := .store rest } }
  | .store [] => { s with writer := { wr with pc := .setGen } }
  | .setGen =>
    { s with
      ring := { ring with gen := Function.update ring.gen wr.next (bump wr.ogen) }
      writer := { wr with pc := .advance }
      held := Function.update s.held wr.next s.now
      contents := Function.update s.contents s.now (ring.slot wr.next) }
  | .advance =>
    { s with
      ring := { ring with cur := wr.next }, writer := { wr with pc := .idle }
      completed := s.completed + 1 }

section Steps

variable [NeZero n]

/-- Start a rewrite of the slot after the current one. -/
def beginStep (plan : A → Ring n w C → Option (List (C → C))) (a : A) (s : System n w C F V A ι) :
    System n w C F V A ι :=
  match s.writer.pc, plan a s.ring with
  | .idle, some stores =>
    { s with
      writer := { s.writer with pc := .loadGen stores, next := s.ring.cur + 1 }
      inputs := s.inputs ++ [a] }
  | _, _ => s

/-- One access of a reader that makes the given accesses; after leaving it starts again. -/
def readerStep (get : F → C → V) (accesses : List F) (s : System n w C F V A ι)
    (r : Reader n w F V) : Reader n w F V :=
  match r.pc with
  | .start => { r with pc := .loadGen, slot := s.ring.cur, since := s.completed }
  | .loadGen =>
    { r with
      pc := .body accesses, gen := s.ring.gen r.slot, got := [], rewrite := s.held r.slot }
  | .body (f :: rest) =>
    { r with pc := .body rest, got := (f, get f (s.ring.slot r.slot)) :: r.got }
  | .body [] => { r with pc := .test }
  | .test => { r with pc := if r.gen = 0 ∨ r.gen ≠ s.ring.gen r.slot then .start else .left }
  | .left => { r with pc := .start }

/-- One step of the system. -/
def ringStep [DecidableEq ι] (plan : A → Ring n w C → Option (List (C → C))) (get : F → C → V)
    (accesses : ι → List F) (s : System n w C F V A ι) : Who A ι → System n w C F V A ι
  | .begin a => beginStep plan a s
  | .writer => writerStep s
  | .reader i =>
    { s with
      readers := Function.update s.readers i (readerStep get (accesses i) s (s.readers i)) }

/-- Nothing has been written, and nobody has started. -/
def ringInit (blank : C) : System n w C F V A ι where
  ring := { slot := fun _ => blank, gen := fun _ => 0, cur := 0 }
  writer := { pc := .idle, next := 0, ogen := 0 }
  readers := fun _ => { pc := .start, slot := 0, gen := 0, got := [], since := 0, rewrite := 0 }
  completed := 0
  held := fun _ => 0
  contents := fun _ => blank
  inputs := []

end Steps

/-! ## Generations -/

/-- The generation published with rewrite `t` of a ring of `n` slots. -/
def genAt (n w t : Nat) : BitVec w :=
  if t = 0 then 0 else BitVec.ofNat w ((t - 1) / n % (2 ^ w - 1) + 1)

/-- Before the first round no slot has a generation. -/
theorem genAt_zero : genAt n w 0 = 0 := if_pos rfl

/-- The generation of a slot, round by round, never zero. -/
theorem toNat_genAt (hw : 0 < w) {t : Nat} (ht : 0 < t) :
    (genAt n w t).toNat = (t - 1) / n % (2 ^ w - 1) + 1 := by
  have htwo : 2 ≤ 2 ^ w := Nat.one_lt_two_pow (by omega)
  have hlt := Nat.mod_lt ((t - 1) / n) (show 0 < 2 ^ w - 1 by omega)
  rw [genAt, if_neg (by omega), BitVec.toNat_ofNat, Nat.mod_eq_of_lt (by omega)]

/-- The next generation skips zero. -/
theorem toNat_bump (hw : 0 < w) (g : BitVec w) :
    (bump g).toNat = if g.toNat + 1 = 2 ^ w then 1 else g.toNat + 1 := by
  have htwo : 2 ≤ 2 ^ w := Nat.one_lt_two_pow (by omega)
  have hlt := g.isLt
  have hone : (1 : BitVec w).toNat = 1 := BitVec.toNat_one hw
  have hsucc : (g + 1).toNat = (g.toNat + 1) % 2 ^ w := by rw [BitVec.toNat_add, hone]
  by_cases hfull : g.toNat + 1 = 2 ^ w
  · have hzero : g + 1 = 0 := by
      apply BitVec.eq_of_toNat_eq
      rw [hsucc, hfull, Nat.mod_self]
      rfl
    rw [bump, if_pos hzero, if_pos hfull, hone]
  · have hsmall : (g + 1).toNat = g.toNat + 1 := by rw [hsucc, Nat.mod_eq_of_lt (by omega)]
    have hne : g + 1 ≠ 0 := by
      intro h
      rw [h] at hsmall
      simp at hsmall
    rw [bump, if_neg hne, if_neg hfull, hsmall]

/-- The first rewrite of a slot. -/
theorem bump_genAt_zero (hw : 0 < w) {t : Nat} (ht : 0 < t) (hle : t ≤ n) :
    bump (genAt n w 0) = genAt n w t := by
  apply BitVec.eq_of_toNat_eq
  have htwo : 2 ≤ 2 ^ w := Nat.one_lt_two_pow (by omega)
  have hzero : (0 : BitVec w).toNat = 0 := rfl
  rw [toNat_bump hw, genAt_zero, hzero, toNat_genAt hw ht, Nat.div_eq_of_lt (by omega),
    Nat.zero_mod]
  split <;> omega

/-- The rewrites of a slot are `n` apart. -/
theorem bump_genAt (hn : 0 < n) (hw : 0 < w) {t : Nat} (ht : 0 < t) :
    bump (genAt n w t) = genAt n w (t + n) := by
  apply BitVec.eq_of_toNat_eq
  have htwo : 2 ≤ 2 ^ w := Nat.one_lt_two_pow (by omega)
  have hdiv : (t + n - 1) / n = (t - 1) / n + 1 := by
    rw [show t + n - 1 = t - 1 + n by omega, Nat.add_div_right _ hn]
  rw [toNat_bump hw, toNat_genAt hw ht, toNat_genAt hw (by omega), hdiv]
  generalize (t - 1) / n = q
  have hlt := Nat.mod_lt q (show 0 < 2 ^ w - 1 by omega)
  rw [Nat.add_mod q 1]
  by_cases hlast : q % (2 ^ w - 1) + 1 = 2 ^ w - 1
  · rw [if_pos (by omega)]
    by_cases hsmall : 2 ^ w - 1 = 1
    · simp only [hsmall, Nat.mod_one, Nat.add_zero]
    · rw [Nat.mod_eq_of_lt (show 1 < 2 ^ w - 1 by omega), hlast, Nat.mod_self]
  · rw [if_neg (by omega), Nat.mod_eq_of_lt (show 1 < 2 ^ w - 1 by omega),
      Nat.mod_eq_of_lt (show q % (2 ^ w - 1) + 1 < 2 ^ w - 1 by omega)]

/-- Two rewrites of one slot with one generation are the same, when fewer than `2 ^ w - 1`
rewrites of the slot lie between them. -/
theorem genAt_inj (hn : 0 < n) (hw : 0 < w) {t u : Nat} (ht : 0 < t) (hle : t ≤ u)
    (hslot : t % n = u % n)
    (hclose : u < t + n * (2 ^ w - 1)) (hgen : genAt n w t = genAt n w u) : t = u := by
  obtain ⟨m, hm⟩ := (Nat.modEq_iff_dvd' hle).mp hslot
  obtain rfl : u = t + n * m := by omega
  have hdiv : (t + n * m - 1) / n = (t - 1) / n + m := by
    rw [show t + n * m - 1 = t - 1 + n * m by omega, Nat.add_mul_div_left _ _ hn]
  have hmod := congrArg BitVec.toNat hgen
  rw [toNat_genAt hw ht, toNat_genAt hw (by omega), hdiv] at hmod
  have hm : m < 2 ^ w - 1 := Nat.lt_of_mul_lt_mul_left (a := n) (by omega)
  have hcong : (t - 1) / n + 0 ≡ (t - 1) / n + m [MOD 2 ^ w - 1] := Nat.succ.inj hmod
  have hzero : 0 % (2 ^ w - 1) = m % (2 ^ w - 1) := Nat.ModEq.add_left_cancel' _ hcong
  rw [Nat.zero_mod, Nat.mod_eq_of_lt hm] at hzero
  rw [← hzero, Nat.mul_zero, Nat.add_zero]

/-! ## The writer -/

/-- The slot has the generation `0` and is being written. -/
def WriterPc.rewriting : WriterPc C → Bool
  | .store _ | .setGen => true
  | _ => false

/-- Slot `i` is being rewritten. -/
def Rewriting (s : System n w C F V A ι) (i : Fin n) : Prop :=
  s.writer.pc.rewriting = true ∧ i = s.writer.next

instance (s : System n w C F V A ι) : DecidablePred (Rewriting s) :=
  fun _ => inferInstanceAs (Decidable (_ ∧ _))

/-- The rewrites published, of which the last may not be the current one yet. -/
def System.made (s : System n w C F V A ι) : Nat :=
  match s.writer.pc with
  | .advance => s.completed + 1
  | _ => s.completed

/-- Rounds are completed after they were begun. -/
theorem completed_le_made (s : System n w C F V A ι) : s.completed ≤ s.made := by
  unfold System.made
  split <;> omega

/-- At most one round is under way. -/
theorem made_le (s : System n w C F V A ι) : s.made ≤ s.completed + 1 := by
  unfold System.made
  split <;> omega

/-- What the ring holds at each access of the writer. -/
structure WriterInv (s : System n w C F V A ι) : Prop where
  cur : s.ring.cur.val = s.completed % n
  next : s.writer.pc ≠ .idle → s.writer.next.val = s.now % n
  held_le : ∀ i, s.held i ≤ s.made
  made_lt : ∀ i, s.made < s.held i + n
  /-- Slots that have not been written yet are ahead. -/
  fresh : ∀ i, s.held i = 0 → i.val ≠ 0 → s.made < i
  held_mod : ∀ i, 0 < s.held i → s.held i % n = i
  gen : ∀ i, s.ring.gen i = if Rewriting s i then 0 else genAt n w (s.held i)
  ogen : (∃ stores, s.writer.pc = .clearGen stores) ∨ s.writer.pc.rewriting = true →
    s.writer.ogen = genAt n w (s.held s.writer.next)
  slot : ∀ i, 0 < s.held i → ¬ Rewriting s i → s.ring.slot i = s.contents (s.held i)

/-- At the start. -/
theorem writerInv_init [NeZero n] (blank : C) :
    WriterInv (ringInit blank : System n w C F V A ι) := by
  have hn := Nat.pos_of_neZero n
  constructor <;> simp [ringInit, System.made, Rewriting, WriterPc.rewriting, genAt_zero]
  · exact hn
  · exact fun i hi => Nat.pos_of_ne_zero (fun h => hi (Fin.ext h))

/-- The next slot, round the ring. -/
theorem val_succ [NeZero n] (i : Fin n) : (i + 1).val = (i.val + 1) % n := by
  rw [Fin.val_add, Fin.val_one', Nat.add_mod_mod]

/-- The writer may begin a round. -/
theorem writerInv_begin [NeZero n] (plan : A → Ring n w C → Option (List (C → C))) (a : A)
    {s : System n w C F V A ι} (h : WriterInv s) : WriterInv (beginStep plan a s) := by
  unfold beginStep
  split
  · rename_i stores hpc _
    have hmade : s.made = s.completed := by rw [System.made, hpc]
    have hidle : ∀ i, ¬ Rewriting s i := fun i hi =>
      by simp [Rewriting, hpc, WriterPc.rewriting] at hi
    have hheld := h.held_le
    have hlt := h.made_lt
    have hfresh := h.fresh
    have hgen := h.gen
    rw [hmade] at hheld hlt hfresh
    constructor
    · exact h.cur
    · intro _
      show (s.ring.cur + 1).val = _
      rw [val_succ, h.cur, Nat.mod_add_mod]
      rfl
    · exact hheld
    · exact hlt
    · exact hfresh
    · exact h.held_mod
    · intro i
      rw [hgen i, if_neg (hidle i), if_neg (by simp [Rewriting, WriterPc.rewriting])]
    · simp [WriterPc.rewriting]
    · exact fun i hi _ => h.slot i hi (hidle i)
  · exact h

/-- The slot that is prepared was last written `n` rewrites ago, or never. -/
theorem now_eq {s : System n w C F V A ι} (h : WriterInv s) (hpc : s.writer.pc = .setGen) :
    (s.held s.writer.next = 0 → s.now ≤ n) ∧
    (0 < s.held s.writer.next → s.now = s.held s.writer.next + n) := by
  have hmade : s.made = s.completed := by rw [System.made, hpc]
  have hle := h.held_le s.writer.next
  have hlt := h.made_lt s.writer.next
  have hnext := h.next (by simp [hpc])
  have hnow : s.now = s.completed + 1 := rfl
  constructor
  · omega
  · intro hpos
    have hmod := h.held_mod s.writer.next hpos
    obtain ⟨m, hm⟩ := (Nat.modEq_iff_dvd' (show s.held s.writer.next ≤ s.now by omega)).mp
      (hmod.trans hnext)
    -- the distance is positive and at most `n`
    have hone : m = 1 := by
      have hm0 : m ≠ 0 := by
        rintro rfl
        omega
      have hm2 : ¬ 2 ≤ m := by
        intro h2
        have := Nat.mul_le_mul_left n h2
        omega
      omega
    subst hone
    omega

/-- One store of the writer. -/
theorem writerInv_step (hw : 0 < w) {s : System n w C F V A ι} (h : WriterInv s) :
    WriterInv (writerStep s) := by
  have hheld := h.held_le
  have hlt := h.made_lt
  have hfresh := h.fresh
  have hgen := h.gen
  have hnext := h.next
  cases hpc : s.writer.pc with
  | idle => simpa only [writerStep, hpc] using h
  | loadGen stores =>
    simp only [writerStep, hpc]
    have hmade : s.made = s.completed := by rw [System.made, hpc]
    have hquiet : ∀ i, ¬ Rewriting s i := fun i hi => by
      simp [Rewriting, hpc, WriterPc.rewriting] at hi
    rw [hmade] at hheld hlt hfresh
    refine ⟨h.cur, fun _ => hnext (by simp [hpc]), hheld, hlt, hfresh, h.held_mod, ?_, ?_,
      fun i hi _ => h.slot i hi (hquiet i)⟩
    · intro i
      rw [hgen i, if_neg (hquiet i), if_neg (by simp [Rewriting, WriterPc.rewriting])]
    · intro _
      show s.ring.gen s.writer.next = _
      rw [hgen, if_neg (hquiet _)]
  | clearGen stores =>
    simp only [writerStep, hpc]
    have hmade : s.made = s.completed := by rw [System.made, hpc]
    have hquiet : ∀ i, ¬ Rewriting s i := fun i hi => by
      simp [Rewriting, hpc, WriterPc.rewriting] at hi
    have hogen := h.ogen (.inl ⟨stores, hpc⟩)
    rw [hmade] at hheld hlt hfresh
    refine ⟨h.cur, fun _ => hnext (by simp [hpc]), hheld, hlt, hfresh, h.held_mod, ?_,
      fun _ => hogen, fun i hi _ => h.slot i hi (hquiet i)⟩
    intro i
    by_cases hi : i = s.writer.next
    · simp [Rewriting, WriterPc.rewriting, hi]
    · rw [if_neg (fun hr => hi hr.2)]
      show Function.update s.ring.gen s.writer.next 0 i = _
      rw [Function.update_of_ne hi, hgen i, if_neg (hquiet i)]
  | store rest =>
    have hmade : s.made = s.completed := by rw [System.made, hpc]
    have hogen := h.ogen (.inr (by rw [hpc]; rfl))
    have hrw : ∀ i, Rewriting s i ↔ i = s.writer.next := fun i => by
      simp [Rewriting, hpc, WriterPc.rewriting]
    rw [hmade] at hheld hlt hfresh
    have hgen' : ∀ i, s.ring.gen i = if i = s.writer.next then 0 else genAt n w (s.held i) := by
      intro i
      rw [hgen i]
      simp only [hrw]
    cases rest with
    | nil =>
      simp only [writerStep, hpc]
      refine ⟨h.cur, fun _ => hnext (by simp [hpc]), hheld, hlt, hfresh, h.held_mod, ?_,
        fun _ => hogen, fun i hi hr => h.slot i hi (fun hr' => hr ⟨rfl, hr'.2⟩)⟩
      simpa [Rewriting, WriterPc.rewriting] using hgen'
    | cons f rest =>
      simp only [writerStep, hpc]
      refine ⟨h.cur, fun _ => hnext (by simp [hpc]), hheld, hlt, hfresh, h.held_mod, ?_,
        fun _ => hogen, fun i hi hr => ?_⟩
      · simpa [Rewriting, WriterPc.rewriting] using hgen'
      · have hne : i ≠ s.writer.next := fun heq => hr ⟨rfl, heq⟩
        show Function.update s.ring.slot s.writer.next _ i = _
        rw [Function.update_of_ne hne]
        exact h.slot i hi (fun hr' => hne hr'.2)
  | setGen =>
    simp only [writerStep, hpc]
    have hmade : s.made = s.completed := by rw [System.made, hpc]
    have hnow : s.now = s.completed + 1 := rfl
    have hogen := h.ogen (.inr (by rw [hpc]; rfl))
    obtain ⟨hfirst, hlater⟩ := now_eq h hpc
    have hnext := hnext (by simp [hpc])
    rw [hmade] at hheld hlt hfresh
    have hpos : 0 < n := by
      have := s.writer.next.isLt
      omega
    -- the other slots are not due
    have hother : ∀ i, i ≠ s.writer.next → s.completed + 1 < s.held i + n := by
      intro i hi
      have := hlt i
      by_contra hge
      have heq : s.now = s.held i + n := by omega
      rw [heq, Nat.add_mod_right] at hnext
      by_cases h0 : s.held i = 0
      · rw [h0, Nat.zero_mod] at hnext
        by_cases hi0 : i.val = 0
        · exact hi (Fin.ext (by omega))
        · have := hfresh i h0 hi0
          have := i.isLt
          omega
      · have := h.held_mod i (by omega)
        exact hi (Fin.ext (by omega))
    constructor
    · exact h.cur
    · exact fun _ => hnext
    · intro i
      show Function.update s.held s.writer.next s.now i ≤ s.completed + 1
      by_cases hi : i = s.writer.next
      · rw [hi, Function.update_self, hnow]
      · rw [Function.update_of_ne hi]
        have := hheld i
        omega
    · intro i
      show s.completed + 1 < Function.update s.held s.writer.next s.now i + n
      by_cases hi : i = s.writer.next
      · rw [hi, Function.update_self, hnow]
        omega
      · rw [Function.update_of_ne hi]
        exact hother i hi
    · intro i hi0 hival
      show s.completed + 1 < i.val
      by_cases hi : i = s.writer.next
      · change Function.update s.held s.writer.next s.now i = 0 at hi0
        rw [hi, Function.update_self] at hi0
        omega
      · change Function.update s.held s.writer.next s.now i = 0 at hi0
        rw [Function.update_of_ne hi] at hi0
        have := hfresh i hi0 hival
        have hne : s.completed + 1 ≠ i.val := by
          intro heq
          apply hi
          apply Fin.ext
          rw [hnext, hnow, heq, Nat.mod_eq_of_lt i.isLt]
        omega
    · intro i hi0
      show Function.update s.held s.writer.next s.now i % n = i.val
      by_cases hi : i = s.writer.next
      · rw [hi, Function.update_self, hnext]
      · change 0 < Function.update s.held s.writer.next s.now i at hi0
        rw [Function.update_of_ne hi] at hi0 ⊢
        exact h.held_mod i hi0
    · intro i
      rw [if_neg (by simp [Rewriting, WriterPc.rewriting])]
      show Function.update s.ring.gen s.writer.next (bump s.writer.ogen) i =
        genAt n w (Function.update s.held s.writer.next s.now i)
      by_cases hi : i = s.writer.next
      · rw [hi, Function.update_self, Function.update_self, hogen]
        by_cases h0 : s.held s.writer.next = 0
        · rw [h0]
          exact bump_genAt_zero hw (by omega) (hfirst h0)
        · rw [hlater (by omega)]
          exact bump_genAt hpos hw (by omega)
      · rw [Function.update_of_ne hi, Function.update_of_ne hi, hgen i,
          if_neg (fun hr => hi hr.2)]
    · simp [WriterPc.rewriting]
    · intro i hi0 _
      show s.ring.slot i = Function.update s.contents s.now (s.ring.slot s.writer.next)
        (Function.update s.held s.writer.next s.now i)
      by_cases hi : i = s.writer.next
      · rw [hi, Function.update_self, Function.update_self]
      · change 0 < Function.update s.held s.writer.next s.now i at hi0
        rw [Function.update_of_ne hi] at hi0 ⊢
        have := hheld i
        rw [Function.update_of_ne (show s.held i ≠ s.now by omega)]
        exact h.slot i hi0 (fun hr => hi hr.2)
  | advance =>
    simp only [writerStep, hpc]
    have hmade : s.made = s.completed + 1 := by rw [System.made, hpc]
    have hquiet : ∀ i, ¬ Rewriting s i := fun i hi => by
      simp [Rewriting, hpc, WriterPc.rewriting] at hi
    rw [hmade] at hheld hlt hfresh
    refine ⟨hnext (by simp [hpc]), by simp, hheld, hlt, hfresh, h.held_mod, ?_,
      by simp [WriterPc.rewriting], fun i hi _ => h.slot i hi (hquiet i)⟩
    intro i
    rw [hgen i, if_neg (hquiet i), if_neg (by simp [Rewriting, WriterPc.rewriting])]

/-! ## Readers -/

/-- The accesses a reader has still to make. -/
def ReaderPc.rest : ReaderPc F → List F
  | .body rest => rest
  | _ => []

/-- After the generation has been loaded. -/
def ReaderPc.loaded : ReaderPc F → Bool
  | .body _ | .test | .left => true
  | _ => false

/-- Before the test. -/
def ReaderPc.looping : ReaderPc F → Bool
  | .body _ | .test => true
  | _ => false

/-- The slot holds what it held when the reader loaded its generation, and is not being
rewritten. -/
def Undisturbed (s : System n w C F V A ι) (r : Reader n w F V) : Prop :=
  s.held r.slot = r.rewrite ∧ ¬ Rewriting s r.slot

/-- With the accesses that are left, what the reader gets is that of the rewrite. -/
def Got (get : F → C → V) (accesses : List F) (s : System n w C F V A ι) (r : Reader n w F V)
    (rest : List F) : Prop :=
  r.got.reverse ++ rest.map (fun f => (f, get f (s.contents r.rewrite))) =
    accesses.map fun f => (f, get f (s.contents r.rewrite))

/-- What a reader knows; one that has loaded the generation `0` is not constrained, as it will not
accept. -/
structure ReaderInv (get : F → C → V) (accesses : List F) (s : System n w C F V A ι)
    (r : Reader n w F V) : Prop where
  since_le : r.pc ≠ .start → r.since ≤ s.completed
  rewrite_le : r.pc.loaded = true → r.rewrite ≤ s.held r.slot
  since_lt : r.pc.loaded = true → r.since < r.rewrite + n
  valid : r.pc.loaded = true → r.gen ≠ 0 →
    0 < r.rewrite ∧ r.gen = genAt n w r.rewrite ∧ r.rewrite % n = r.slot
  looping : r.pc.looping = true → r.gen ≠ 0 → Undisturbed s r → Got get accesses s r r.pc.rest
  out : r.pc = .left → 0 < r.rewrite ∧ Got get accesses s r []

/-- At the start. -/
theorem readerInv_init [NeZero n] (get : F → C → V) (accesses : List F) (blank : C) (i : ι) :
    ReaderInv get accesses (ringInit blank : System n w C F V A ι)
      ((ringInit blank : System n w C F V A ι).readers i) := by
  constructor <;> simp [ringInit, ReaderPc.loaded, ReaderPc.looping]

/-- A state after an access of the writer, as the readers see it. -/
structure Advanced (s s' : System n w C F V A ι) : Prop where
  completed : s.completed ≤ s'.completed
  held : ∀ i, s.held i ≤ s'.held i
  contents : ∀ k, k ≤ s.made → s'.contents k = s.contents k
  /-- A slot that still holds its rewrite and is not being rewritten was not touched. -/
  quiet : ∀ i, s'.held i = s.held i → ¬ Rewriting s' i → ¬ Rewriting s i
  readers : s'.readers = s.readers

/-- Beginning a round completes none. -/
theorem advanced_begin [NeZero n] (plan : A → Ring n w C → Option (List (C → C))) (a : A)
    (s : System n w C F V A ι) : Advanced s (beginStep plan a s) := by
  unfold beginStep
  split
  · rename_i stores hpc _
    refine ⟨Nat.le_refl _, fun _ => Nat.le_refl _, fun _ _ => rfl, ?_, rfl⟩
    intro i _ _
    simp [Rewriting, hpc, WriterPc.rewriting]
  · exact ⟨Nat.le_refl _, fun _ => Nat.le_refl _, fun _ _ => rfl, fun _ _ h => h, rfl⟩

/-- A store completes one round at most. -/
theorem advanced_step {s : System n w C F V A ι} (h : WriterInv s) : Advanced s (writerStep s) := by
  cases hpc : s.writer.pc with
  | idle =>
    simp only [writerStep, hpc]
    exact ⟨Nat.le_refl _, fun _ => Nat.le_refl _, fun _ _ => rfl, fun _ _ h => h, rfl⟩
  | loadGen stores | clearGen stores =>
    simp only [writerStep, hpc]
    refine ⟨Nat.le_refl _, fun _ => Nat.le_refl _, fun _ _ => rfl, fun i _ _ => ?_, rfl⟩
    simp [Rewriting, hpc, WriterPc.rewriting]
  | store rest =>
    cases rest with
    | nil | cons _ _ =>
      simp only [writerStep, hpc]
      exact ⟨Nat.le_refl _, fun _ => Nat.le_refl _, fun _ _ => rfl,
        fun i _ hq hr => hq ⟨rfl, hr.2⟩, rfl⟩
  | setGen =>
    have hmade : s.made = s.completed := by rw [System.made, hpc]
    have hnow : s.now = s.completed + 1 := rfl
    have hle := h.held_le
    simp only [writerStep, hpc]
    refine ⟨Nat.le_refl _, fun i => ?_, fun k hk => ?_, fun i hi _ hr => ?_, rfl⟩
    · show s.held i ≤ Function.update s.held s.writer.next s.now i
      by_cases hi : i = s.writer.next
      · subst hi
        rw [Function.update_self]
        have := hle s.writer.next
        omega
      · rw [Function.update_of_ne hi]
    · exact Function.update_of_ne (by omega) _ _
    · -- the slot that was being rewritten holds another rewrite now
      change Function.update s.held s.writer.next s.now i = s.held i at hi
      rw [hr.2, Function.update_self] at hi
      have := hle s.writer.next
      omega
  | advance =>
    simp only [writerStep, hpc]
    refine ⟨Nat.le_succ _, fun _ => Nat.le_refl _, fun _ _ => rfl, fun i _ _ => ?_, rfl⟩
    simp [Rewriting, hpc, WriterPc.rewriting]

/-- The writer's steps keep what a reader knows. -/
theorem readerInv_advanced {get : F → C → V} {accesses : List F} {s s' : System n w C F V A ι}
    {r : Reader n w F V} (hw : WriterInv s) (hadv : Advanced s s')
    (h : ReaderInv get accesses s r) : ReaderInv get accesses s' r := by
  have hcontents : r.pc.loaded = true → s'.contents r.rewrite = s.contents r.rewrite :=
    fun hl => hadv.contents _ (Nat.le_trans (h.rewrite_le hl) (hw.held_le _))
  constructor
  · exact fun hpc => Nat.le_trans (h.since_le hpc) hadv.completed
  · exact fun hl => Nat.le_trans (h.rewrite_le hl) (hadv.held _)
  · exact h.since_lt
  · exact h.valid
  · intro hl hgen hund
    have hloaded : r.pc.loaded = true := by
      revert hl
      cases r.pc <;> simp [ReaderPc.looping, ReaderPc.loaded]
    have hsame : s.held r.slot = r.rewrite :=
      Nat.le_antisymm (hund.1 ▸ hadv.held r.slot) (h.rewrite_le hloaded)
    have hquiet := hadv.quiet r.slot (hund.1.trans hsame.symm) hund.2
    have hgot := h.looping hl hgen ⟨hsame, hquiet⟩
    rwa [Got, hcontents hloaded]
  · intro hleft
    obtain ⟨hpos, hgot⟩ := h.out hleft
    refine ⟨hpos, ?_⟩
    rwa [Got, hcontents (by rw [hleft]; rfl)]

/-- Fewer than `n * (2 ^ w - 2)` rewrites complete during an attempt. -/
def Brief (s : System n w C F V A ι) : Who A ι → Prop
  | .reader i => (s.readers i).pc = .test → s.completed - (s.readers i).since < n * (2 ^ w - 2)
  | _ => True

instance [DecidableEq F] (s : System n w C F V A ι) :
    DecidablePred (Brief s : Who A ι → Prop)
  | .reader i =>
    inferInstanceAs (Decidable ((s.readers i).pc = .test → _ < _))
  | .begin _ => inferInstanceAs (Decidable True)
  | .writer => inferInstanceAs (Decidable True)

/-- One step of a reader, unless the generations have come round during the read. -/
theorem readerInv_step (hw : 0 < w) {get : F → C → V} {accesses : List F}
    {s : System n w C F V A ι} {r : Reader n w F V} (hwr : WriterInv s)
    (h : ReaderInv get accesses s r)
    (hbrief : r.pc = .test → s.completed - r.since < n * (2 ^ w - 2)) :
    ReaderInv get accesses s (readerStep get accesses s r) := by
  cases hpc : r.pc with
  | start =>
    simp only [readerStep, hpc]
    constructor <;> simp [ReaderPc.loaded, ReaderPc.looping]
  | loadGen =>
    have hsince := h.since_le (by simp [hpc])
    have hmade := completed_le_made s
    have hlt := hwr.made_lt r.slot
    have hgen := hwr.gen r.slot
    simp only [readerStep, hpc]
    refine ⟨fun _ => hsince, fun _ => Nat.le_refl _, fun _ => ?_, fun _ hne => ?_,
      fun _ _ _ => rfl, by simp⟩
    · show r.since < s.held r.slot + n
      omega
    · -- the slot is not being rewritten, and has been written
      change s.ring.gen r.slot ≠ 0 at hne
      by_cases hr : Rewriting s r.slot
      · exact absurd (hgen.trans (if_pos hr)) hne
      · rw [if_neg hr] at hgen
        have hpos : 0 < s.held r.slot := by
          refine Nat.pos_of_ne_zero fun h0 => hne ?_
          rw [hgen, h0, genAt_zero]
        exact ⟨hpos, hgen, hwr.held_mod _ hpos⟩
  | body rest =>
    have hsince := h.since_le (by simp [hpc])
    have hle := h.rewrite_le (by rw [hpc]; rfl)
    have hlt := h.since_lt (by rw [hpc]; rfl)
    have hvalid := h.valid (by rw [hpc]; rfl)
    have hloop := h.looping (by rw [hpc]; rfl)
    rw [hpc] at hloop
    cases rest with
    | nil =>
      simp only [readerStep, hpc]
      exact ⟨fun _ => hsince, fun _ => hle, fun _ => hlt, fun _ => hvalid, fun _ => hloop, by simp⟩
    | cons f rest =>
      simp only [readerStep, hpc]
      refine ⟨fun _ => hsince, fun _ => hle, fun _ => hlt, fun _ => hvalid,
        fun _ hgen hund => ?_, by simp⟩
      have hgot := hloop hgen hund
      -- an undisturbed slot is read as it was published
      have hslot := hwr.slot r.slot (by have := (hvalid hgen).1; omega) hund.2
      rw [show s.held r.slot = r.rewrite from hund.1] at hslot
      rw [Got] at hgot ⊢
      simp only [ReaderPc.rest, List.reverse_cons, List.append_assoc, List.singleton_append,
        hslot] at hgot ⊢
      exact hgot
  | test =>
    have hsince := h.since_le (by simp [hpc])
    have hle := h.rewrite_le (by rw [hpc]; rfl)
    have hlt := h.since_lt (by rw [hpc]; rfl)
    have hvalid := h.valid (by rw [hpc]; rfl)
    have hloop := h.looping (by rw [hpc]; rfl)
    have hbrief := hbrief hpc
    rw [hpc] at hloop
    by_cases hretry : r.gen = 0 ∨ r.gen ≠ s.ring.gen r.slot
    · simp only [readerStep, hpc, if_pos hretry]
      constructor <;> simp [ReaderPc.loaded, ReaderPc.looping]
    · simp only [readerStep, hpc, if_neg hretry]
      obtain ⟨hne, heq⟩ := not_or.mp hretry
      have heq := not_not.mp heq
      obtain ⟨hpos, hgen, hmod⟩ := hvalid hne
      -- the generation is that of the same rewrite
      have hquiet : ¬ Rewriting s r.slot := fun hr =>
        hne (heq.trans ((hwr.gen r.slot).trans (if_pos hr)))
      have hsame : genAt n w r.rewrite = genAt n w (s.held r.slot) := by
        rw [← hgen, heq, hwr.gen, if_neg hquiet]
      have hheld := Nat.le_trans (hwr.held_le r.slot) (made_le s)
      have hn : 0 < n := by
        have := r.slot.isLt
        omega
      have htwo : 2 ≤ 2 ^ w := Nat.one_lt_two_pow (by omega)
      have hsplit : n * (2 ^ w - 1) = n * (2 ^ w - 2) + n := by
        rw [show 2 ^ w - 1 = 2 ^ w - 2 + 1 by omega, Nat.mul_add, Nat.mul_one]
      have hkept : r.rewrite = s.held r.slot :=
        genAt_inj hn hw hpos hle (hmod.trans (hwr.held_mod _ (by omega)).symm) (by omega) hsame
      exact ⟨fun _ => hsince, fun _ => hle, fun _ => hlt, fun _ _ => ⟨hpos, hgen, hmod⟩,
        by simp [ReaderPc.looping], fun _ => ⟨hpos, hloop hne ⟨hkept.symm, hquiet⟩⟩⟩
  | left =>
    simp only [readerStep, hpc]
    constructor <;> simp [ReaderPc.loaded, ReaderPc.looping]

/-! ## The writer alone

Seen from the completed rewrites, each rewrite takes place at once. -/

/-- All stores of a rewrite. -/
def storeAll (stores : List (C → C)) (c : C) : C := stores.foldl (fun c f => f c) c

/-- Stores after stores. -/
theorem storeAll_append (done rest : List (C → C)) (c : C) :
    storeAll (done ++ rest) c = storeAll rest (storeAll done c) := List.foldl_append

/-- A whole rewrite. -/
def Ring.rewrite [NeZero n] (ring : Ring n w C) (stores : List (C → C)) : Ring n w C where
  slot := Function.update ring.slot (ring.cur + 1) (storeAll stores (ring.slot (ring.cur + 1)))
  gen := Function.update ring.gen (ring.cur + 1) (bump (ring.gen (ring.cur + 1)))
  cur := ring.cur + 1

/-- The rewrite an input leads to. -/
def Ring.step [NeZero n] (plan : A → Ring n w C → Option (List (C → C))) (ring : Ring n w C)
    (a : A) : Ring n w C :=
  match plan a ring with
  | some stores => ring.rewrite stores
  | none => ring

/-- The contents of the current slot. -/
def Ring.current (ring : Ring n w C) : C := ring.slot ring.cur

/-- How far a rewrite has come: `base` is the ring it started from, and `stores` its stores. -/
structure Started [NeZero n] (s : System n w C F V A ι) (base : Ring n w C)
    (stores : List (C → C)) : Prop where
  next : s.writer.next = base.cur + 1
  before : ∀ st, s.writer.pc = .loadGen st → st = stores ∧ s.ring = base
  loaded : ∀ st, s.writer.pc = .clearGen st →
    st = stores ∧ s.ring = base ∧ s.writer.ogen = base.gen (base.cur + 1)
  storing : s.writer.pc.rewriting = true → s.writer.ogen = base.gen (base.cur + 1) ∧
    s.ring.cur = base.cur ∧ s.ring.gen = Function.update base.gen (base.cur + 1) 0
  stored : ∀ rest, s.writer.pc = .store rest → ∃ done, done ++ rest = stores ∧
    s.ring.slot = Function.update base.slot (base.cur + 1)
      (storeAll done (base.slot (base.cur + 1)))
  complete : s.writer.pc = .setGen →
    s.ring.slot = Function.update base.slot (base.cur + 1)
      (storeAll stores (base.slot (base.cur + 1)))
  published : s.writer.pc = .advance → s.ring = { base.rewrite stores with cur := base.cur }

/-- The ring is that of the completed rewrites, up to the one that is being made. -/
structure PlanInv [NeZero n] (plan : A → Ring n w C → Option (List (C → C))) (blank : Ring n w C)
    (s : System n w C F V A ι) : Prop where
  idle : s.writer.pc = .idle →
    s.inputs.length = s.completed ∧ s.ring = runSteps (Ring.step plan) blank s.inputs
  started : s.writer.pc ≠ .idle → ∃ as a stores, s.inputs = as ++ [a] ∧ as.length = s.completed ∧
    plan a (runSteps (Ring.step plan) blank as) = some stores ∧
    Started s (runSteps (Ring.step plan) blank as) stores
  contents : ∀ k, 0 < k → k ≤ s.made →
    s.contents k = (runSteps (Ring.step plan) blank (s.inputs.take k)).current

/-- At the start. -/
theorem planInv_init [NeZero n] (plan : A → Ring n w C → Option (List (C → C))) (blank : C) :
    PlanInv plan (ringInit blank : System n w C F V A ι).ring
      (ringInit blank : System n w C F V A ι) where
  idle _ := ⟨rfl, rfl⟩
  started h := absurd rfl h
  contents _ hk hle := absurd (Nat.lt_of_lt_of_le hk hle) (Nat.lt_irrefl 0)

/-- A round is begun with the stores planned for it. -/
theorem planInv_begin [NeZero n] {plan : A → Ring n w C → Option (List (C → C))}
    {blank : Ring n w C} (a : A) {s : System n w C F V A ι} (h : PlanInv plan blank s) :
    PlanInv plan blank (beginStep plan a s) := by
  unfold beginStep
  split
  · rename_i stores hpc hplan
    obtain ⟨hlen, hring⟩ := h.idle hpc
    have hmade : s.made = s.completed := by rw [System.made, hpc]
    refine ⟨by simp, fun _ => ⟨s.inputs, a, stores, rfl, hlen, hring ▸ hplan, ?_⟩, ?_⟩
    · constructor <;> simp [WriterPc.rewriting, hring]
    · intro k hk hle
      have hle : k ≤ s.completed := hle
      show s.contents k = (runSteps (Ring.step plan) blank ((s.inputs ++ [a]).take k)).current
      rw [List.take_append_of_le_length (by omega)]
      exact h.contents k hk (by omega)
  · exact h

/-- Each store is the next one of the plan. -/
theorem planInv_step [NeZero n] {plan : A → Ring n w C → Option (List (C → C))}
    {blank : Ring n w C} {s : System n w C F V A ι} (h : PlanInv plan blank s) :
    PlanInv plan blank (writerStep s) := by
  have hcontents := h.contents
  cases hpc : s.writer.pc with
  | idle => simpa only [writerStep, hpc] using h
  | loadGen st =>
    obtain ⟨as, a, stores, hin, hlen, hplan, hst⟩ := h.started (by simp [hpc])
    obtain ⟨hstores, hring⟩ := hst.before st hpc
    have hmade : s.made = s.completed := by rw [System.made, hpc]
    rw [hmade] at hcontents
    simp only [writerStep, hpc]
    refine ⟨by simp, fun _ => ⟨as, a, stores, hin, hlen, hplan, ?_⟩, hcontents⟩
    have hnext := hst.next
    constructor <;> simp [WriterPc.rewriting, hnext, hring, hstores]
  | clearGen st =>
    obtain ⟨as, a, stores, hin, hlen, hplan, hst⟩ := h.started (by simp [hpc])
    obtain ⟨hstores, hring, hogen⟩ := hst.loaded st hpc
    have hmade : s.made = s.completed := by rw [System.made, hpc]
    rw [hmade] at hcontents
    simp only [writerStep, hpc]
    refine ⟨by simp, fun _ => ⟨as, a, stores, hin, hlen, hplan, ?_⟩, hcontents⟩
    have hnext := hst.next
    constructor <;> simp [WriterPc.rewriting, hnext, hring, hogen]
    exact ⟨[], hstores, by simp [storeAll]⟩
  | store rest =>
    obtain ⟨as, a, stores, hin, hlen, hplan, hst⟩ := h.started (by simp [hpc])
    obtain ⟨hogen, hcur, hgen⟩ := hst.storing (by rw [hpc]; rfl)
    obtain ⟨done, hdone, hslot⟩ := hst.stored rest hpc
    have hmade : s.made = s.completed := by rw [System.made, hpc]
    have hnext := hst.next
    rw [hmade] at hcontents
    cases rest with
    | nil =>
      rw [List.append_nil] at hdone
      simp only [writerStep, hpc]
      refine ⟨by simp, fun _ => ⟨as, a, stores, hin, hlen, hplan, ?_⟩, hcontents⟩
      constructor <;> simp [WriterPc.rewriting, hnext, hogen, hcur, hgen, hslot, hdone]
    | cons f rest =>
      simp only [writerStep, hpc]
      refine ⟨by simp, fun _ => ⟨as, a, stores, hin, hlen, hplan, ?_⟩, hcontents⟩
      constructor <;> simp [WriterPc.rewriting, hnext, hogen, hcur, hgen, hslot]
      refine ⟨done ++ [f], by simp [hdone], ?_⟩
      rw [storeAll_append]
      rfl
  | setGen =>
    obtain ⟨as, a, stores, hin, hlen, hplan, hst⟩ := h.started (by simp [hpc])
    obtain ⟨hogen, hcur, hgen⟩ := hst.storing (by rw [hpc]; rfl)
    have hslot := hst.complete hpc
    have hmade : s.made = s.completed := by rw [System.made, hpc]
    have hnext := hst.next
    rw [hmade] at hcontents
    have hpub : s.ring.slot s.writer.next = (runSteps (Ring.step plan) blank s.inputs).current := by
      rw [hin, runSteps_append, hslot, hnext, Function.update_self]
      simp [runSteps, Ring.step, hplan, Ring.current, Ring.rewrite]
    simp only [writerStep, hpc]
    refine ⟨by simp, fun _ => ⟨as, a, stores, hin, hlen, hplan, ?_⟩, ?_⟩
    · constructor <;> simp [WriterPc.rewriting, hnext, hogen, hcur, hgen, hslot, Ring.rewrite]
    · intro k hk hle
      have hle : k ≤ s.completed + 1 := hle
      show Function.update s.contents s.now _ k =
        (runSteps (Ring.step plan) blank (s.inputs.take k)).current
      by_cases hnow : k = s.now
      · have hall : s.inputs.take k = s.inputs := by
          apply List.take_of_length_le
          rw [hin, List.length_append, hlen, hnow]
          exact Nat.le_refl _
        rw [hnow, Function.update_self, hpub, ← hnow, hall]
      · have hne : k ≠ s.completed + 1 := hnow
        rw [Function.update_of_ne hnow]
        exact hcontents k hk (by omega)
  | advance =>
    obtain ⟨as, a, stores, hin, hlen, hplan, hst⟩ := h.started (by simp [hpc])
    have hring := hst.published hpc
    have hnext := hst.next
    have hmade : s.made = s.completed + 1 := by rw [System.made, hpc]
    rw [hmade] at hcontents
    simp only [writerStep, hpc]
    refine ⟨fun _ => ⟨?_, ?_⟩, fun hne => absurd rfl hne, hcontents⟩
    · show s.inputs.length = _
      rw [hin, List.length_append, hlen]
      rfl
    · show ({ s.ring with cur := s.writer.next } : Ring n w C) = runSteps _ _ s.inputs
      rw [hin, runSteps_append, hring, hnext]
      simp [runSteps, Ring.step, hplan, Ring.rewrite]

/-- Every rewrite published was started from an input. -/
theorem made_le_inputs [NeZero n] {plan : A → Ring n w C → Option (List (C → C))}
    {blank : Ring n w C} {s : System n w C F V A ι} (h : PlanInv plan blank s) :
    s.made ≤ s.inputs.length := by
  by_cases hidle : s.writer.pc = .idle
  · have hmade : s.made = s.completed := by rw [System.made, hidle]
    rw [hmade, (h.idle hidle).1]
  · obtain ⟨as, a, stores, hin, hlen, -⟩ := h.started hidle
    rw [hin, List.length_append, hlen]
    exact made_le s

/-! ## Every interleaving -/

/-- What every reachable state satisfies. -/
structure RingInv [NeZero n] (plan : A → Ring n w C → Option (List (C → C))) (get : F → C → V)
    (accesses : ι → List F) (blank : Ring n w C) (s : System n w C F V A ι) : Prop where
  writer : WriterInv s
  plan : PlanInv plan blank s
  readers : ∀ i, ReaderInv get (accesses i) s (s.readers i)

/-- At the start everything holds. -/
theorem ringInv_init [NeZero n] (plan : A → Ring n w C → Option (List (C → C))) (get : F → C → V)
    (accesses : ι → List F) (blank : C) :
    RingInv plan get accesses (ringInit blank : System n w C F V A ι).ring
      (ringInit blank : System n w C F V A ι) where
  writer := writerInv_init blank
  plan := planInv_init plan blank
  readers i := readerInv_init get (accesses i) blank i

/-- One step of anyone keeps it. -/
theorem ringInv_step [NeZero n] [DecidableEq ι] (hw : 0 < w)
    {plan : A → Ring n w C → Option (List (C → C))} {get : F → C → V} {accesses : ι → List F}
    {blank : Ring n w C} (s : System n w C F V A ι) (who : Who A ι)
    (h : RingInv plan get accesses blank s) (hc : Brief s who) :
    RingInv plan get accesses blank (ringStep plan get accesses s who) := by
  cases who with
  | begin a =>
    have hadv := advanced_begin plan a s
    refine ⟨writerInv_begin plan a h.writer, planInv_begin a h.plan, fun i => ?_⟩
    show ReaderInv _ _ _ ((beginStep plan a s).readers i)
    rw [hadv.readers]
    exact readerInv_advanced h.writer hadv (h.readers i)
  | writer =>
    have hadv := advanced_step h.writer
    refine ⟨writerInv_step hw h.writer, planInv_step h.plan, fun i => ?_⟩
    show ReaderInv _ _ _ ((writerStep s).readers i)
    rw [hadv.readers]
    exact readerInv_advanced h.writer hadv (h.readers i)
  | reader i =>
    -- a reader writes nothing the others look at
    refine ⟨⟨h.writer.cur, h.writer.next, h.writer.held_le, h.writer.made_lt, h.writer.fresh,
      h.writer.held_mod, h.writer.gen, h.writer.ogen, h.writer.slot⟩,
      ⟨h.plan.idle, fun hne => ?_, h.plan.contents⟩, fun j => ?_⟩
    · obtain ⟨as, a, stores, hin, hlen, hplan, hst⟩ := h.plan.started hne
      exact ⟨as, a, stores, hin, hlen, hplan, hst.next, hst.before, hst.loaded, hst.storing,
        hst.stored, hst.complete, hst.published⟩
    have hframe : ∀ r, ReaderInv get (accesses j) s r →
        ReaderInv get (accesses j) (ringStep plan get accesses s (.reader i)) r :=
      fun r hr => ⟨hr.since_le, hr.rewrite_le, hr.since_lt, hr.valid, hr.looping, hr.out⟩
    apply hframe
    by_cases hji : j = i
    · subst hji
      simp only [ringStep, Function.update_self]
      exact readerInv_step hw h.writer (h.readers j) hc
    · simp only [ringStep, Function.update_of_ne hji]
      exact h.readers j

/-- In every interleaving, with fewer than `n * (2 ^ w - 2)` rewrites completed during each
attempt, what a reader accepts is the current slot of the ring that the first so many rewrites
lead to, each made at once. -/
theorem accepted_whole [NeZero n] [DecidableEq ι] (hw : 0 < w)
    (plan : A → Ring n w C → Option (List (C → C))) (get : F → C → V) (accesses : ι → List F)
    (blank : C) (sched : List (Who A ι))
    (hsched : StepsMeet Brief (ringStep plan get accesses)
      (ringInit blank : System n w C F V A ι) sched) (i : ι) :
    let init : System n w C F V A ι := ringInit blank
    let s := runSteps (ringStep plan get accesses) init sched
    (s.readers i).pc = .left → ∃ k, 0 < k ∧ k ≤ s.inputs.length ∧
      (s.readers i).got.reverse = (accesses i).map fun f =>
        (f, get f (runSteps (Ring.step plan) init.ring (s.inputs.take k)).current) := by
  have hinv := runSteps_inv (ringInv_step hw) sched _ (ringInv_init plan get accesses blank) hsched
  intro init s hleft
  have hr := hinv.readers i
  obtain ⟨hpos, hgot⟩ := hr.out hleft
  have hmade := Nat.le_trans (hr.rewrite_le (by rw [hleft]; rfl)) (hinv.writer.held_le _)
  refine ⟨_, hpos, Nat.le_trans hmade (made_le_inputs hinv.plan), ?_⟩
  rw [Got, List.map_nil, List.append_nil, hinv.plan.contents _ hpos hmade] at hgot
  exact hgot

end Lib.GenRing
