import RADclock.Kernel.Ffclock

/-!
# The origin of the counter (`ffclock_change_tc`)

The new counter is read as a word of 32 bits. If it is derived from the TSC, its high order bits are
taken from a reading of the TSC itself, made a little later. Which counters are is decided by name,
and the name of the shifted TSC is only looked at once the name is known to be another one.

- `Timecounter`, `tcName`: the comparisons of names.
- `origin_iff`: the counters whose origin is that of the true counter.
-/

namespace RADclock.Kernel

/-- `struct timecounter`, as far as `ffclock_change_tc` reads it. -/
structure Timecounter where
  tcName : String
  tcFrequency : BitVec 64
  /-- The shift of a counter that drops the low bits of the TSC. -/
  tcPriv : Nat
deriving DecidableEq, Repr

/-- The branch that the comparisons of the name choose, with what the TSC reads. -/
def Timecounter.branch (tc : Timecounter) (rdtsc : BitVec 64) : TcName :=
  if tc.tcName ≠ "TSC" then .other
  else .tsc (if tc.tcName = "TSC-low" then rdtsc >>> tc.tcPriv else rdtsc)

/-- A counter derived from the TSC. -/
def Timecounter.TscDerived (tc : Timecounter) : Prop :=
  tc.tcName = "TSC" ∨ tc.tcName = "TSC-low"

/-- The true counter. -/
def Timecounter.now (tc : Timecounter) (rdtsc : BitVec 64) : BitVec 64 :=
  if tc.tcName = "TSC-low" then rdtsc >>> tc.tcPriv else rdtsc

/-- The reading is moved back by what the low bits have advanced. -/
theorem originFfcount_tsc {now t : BitVec 64} (hle : t ≤ now)
    (hnear : now.toNat - t.toNat < 2 ^ 32) : originFfcount (.tsc now) (t.setWidth 32) = t := by
  have hnow := now.isLt
  have ht := t.isLt
  have hnat : t.toNat ≤ now.toNat := hle
  apply BitVec.eq_of_toNat_eq
  simp only [originFfcount, BitVec.toNat_sub, BitVec.toNat_setWidth]
  omega

theorem originFfcount_other_iff (t : BitVec 64) :
    originFfcount .other (t.setWidth 32) = t ↔ t.toNat < 2 ^ 32 := by
  have ht := t.isLt
  rw [← BitVec.toNat_inj]
  simp only [originFfcount, BitVec.toNat_setWidth]
  omega

theorem tickFfcount_changeTc {tc : TcName} {tcFrequency : BitVec 64} {ncount : BitVec 32}
    {s s' : FfState} (h : ffclockChangeTc tc tcFrequency ncount s = some s') :
    s'.tick.tickFfcount = originFfcount tc ncount := by
  obtain ⟨period, -, rfl⟩ := Option.map_eq_some_iff.mp h
  rw [tick_publish]

/-- The origin of a counter that is derived from the TSC is that of the true counter exactly if the
counter is not shifted, or has not come further than the word that is read of it. -/
theorem origin_iff (tc : Timecounter) (htsc : tc.TscDerived) (rdtsc t : BitVec 64)
    (hle : t ≤ tc.now rdtsc) (hnear : (tc.now rdtsc).toNat - t.toNat < 2 ^ 32) (s s' : FfState)
    (h : ffclockChangeTc (tc.branch rdtsc) tc.tcFrequency (t.setWidth 32) s = some s') :
    s'.tick.tickFfcount = t ↔ tc.tcName = "TSC" ∨ t.toNat < 2 ^ 32 := by
  rw [tickFfcount_changeTc h]
  rcases htsc with hname | hname
  · have hnow : tc.now rdtsc = rdtsc := by
      rw [Timecounter.now, hname, if_neg (by decide)]
    have hbranch : tc.branch rdtsc = .tsc rdtsc := by
      rw [Timecounter.branch, hname, if_neg (by decide), if_neg (by decide)]
    rw [hnow] at hle hnear
    rw [hbranch, originFfcount_tsc hle hnear]
    exact iff_of_true rfl (.inl hname)
  · have hbranch : tc.branch rdtsc = .other := by
      rw [Timecounter.branch, hname, if_pos (by decide)]
    rw [hbranch, originFfcount_other_iff, hname, or_iff_right (by decide)]

/-- A TSC of 1 GHz, a quarter of a second after the word was read. -/
def tscCounter : Timecounter := ⟨"TSC", 1000000000, 0⟩

theorem origin_tsc :
    ((ffclockChangeTc (tscCounter.branch 10250000000) tscCounter.tcFrequency
      ((10000000000 : BitVec 64).setWidth 32) (ffclockInit .fb)).map (·.tick.tickFfcount)) =
        some 10000000000 := by
  obtain ⟨s', hs'⟩ : ∃ s', ffclockChangeTc (tscCounter.branch 10250000000) tscCounter.tcFrequency
      ((10000000000 : BitVec 64).setWidth 32) (ffclockInit .fb) = some s' := ⟨_, rfl⟩
  rw [hs', Option.map_some, (origin_iff tscCounter (.inl rfl) 10250000000 10000000000 (by decide)
    (by decide) _ s' hs').mpr (.inl rfl)]

/-- The same counter, without its low bit. -/
def tscLowCounter : Timecounter := ⟨"TSC-low", 500000000, 1⟩

/-- Its origin has lost the high bits. -/
theorem not_origin : ¬ ∀ tc : Timecounter, tc.TscDerived → ∀ rdtsc t : BitVec 64,
    t ≤ tc.now rdtsc → (tc.now rdtsc).toNat - t.toNat < 2 ^ 32 → ∀ s s' : FfState,
      ffclockChangeTc (tc.branch rdtsc) tc.tcFrequency (t.setWidth 32) s = some s' →
        s'.tick.tickFfcount = t := by
  intro h
  obtain ⟨s', hs'⟩ : ∃ s',
    ffclockChangeTc (tscLowCounter.branch 10250000000) tscLowCounter.tcFrequency
      ((5000000000 : BitVec 64).setWidth 32) (ffclockInit .fb) = some s' := ⟨_, rfl⟩
  have horigin := h tscLowCounter (.inr rfl) 10250000000 5000000000 (by decide) (by decide) _ s' hs'
  rw [tickFfcount_changeTc hs'] at horigin
  revert horigin
  decide

end RADclock.Kernel
